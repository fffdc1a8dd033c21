import Seraph.Effects

/-!
# Types of Seraphim

A `Seraph_Type` with equality, subtyping, the occurs check, unification and the join. A type is the
tree under its pointer ; the field `bound` of its variables is in the context. Two pointers are
compared by `same`, which may answer either way for two types that are equal. Functions that follow
`bound` take fuel.
-/

namespace Seraph

/-- The kinds of `Seraph_Type_Kind` that have no data. -/
inductive PrimKind where
  | u8 | u16 | u32 | u64 | i8 | i16 | i32 | i64 | bool | char | unit | scalar | dual | galactic
deriving DecidableEq, Repr

/-- `Seraph_Substrate`. -/
inductive Substrate where
  | volatile | atlas | aether
deriving DecidableEq, Repr

/-- `Seraph_Type *`, which may be NULL. A struct or an enum is its declaration, a variable its
`id`. -/
inductive Ty where
  | null
  | void
  | never
  | prim (kind : PrimKind)
  | array (elem : Ty) (size : UInt64)
  | slice (elem : Ty)
  | tuple (elems : List Ty)
  | named (isEnum : Bool) (decl : ℕ)
  | ref (isMut : Bool) (inner : Ty) (substrate : Substrate)
  | voidable (inner : Ty)
  | fn (params : List Ty) (ret : Ty) (effects : EffectFlags)
  | typevar (id : ℕ)
deriving Repr

/-- `Seraph_Type_Kind`. -/
inductive Ty.Kind where
  | void | never | prim (kind : PrimKind) | array | slice | tuple | struct | enum | ref | refMut
  | voidable | fn | typevar
deriving DecidableEq, Repr

/-- The field `bound` of the type variables. -/
abbrev Bindings := ℕ → Option Ty

/-- `Seraph_Type_Context`, as unification uses it. The last two fields are for the proofs : the
pairs of types that were compared, with the bindings at the time, and whether the arena has refused
room for a type. -/
structure TypeContext where
  bound : Bindings
  nextTypevarId : ℕ
  diagnostics : List (SourceLoc × String)
  errorCount : ℕ
  requests : ℕ
  met : List (Bindings × Ty × Ty)
  refused : Bool

namespace Ty

/-- `kind`. NULL has none ; it is tested for before. -/
def kind : Ty → Ty.Kind
  | null | void => .void
  | never => .never
  | prim kind => .prim kind
  | array .. => .array
  | slice .. => .slice
  | tuple .. => .tuple
  | named isEnum _ => if isEnum then .enum else .struct
  | ref isMut .. => if isMut then .refMut else .ref
  | voidable .. => .voidable
  | fn .. => .fn
  | typevar .. => .typevar

/-- A test for NULL. -/
def isNull : Ty → Bool
  | null => true
  | _ => false

/-- `seraph_type_is_void`. -/
def isVoid : Ty → Bool
  | null | void => true
  | _ => false

/-- `t->voidable.inner`. -/
def inner : Ty → Ty
  | voidable inner => inner
  | _ => null

/-- The variable that a type is. -/
def varId : Ty → Option ℕ
  | typevar id => some id
  | _ => none

/-- `while (t->kind == SERAPH_TYPE_TYPEVAR && t->typevar.bound) t = t->typevar.bound`. -/
def resolve (bound : Bindings) : ℕ → Ty → Option Ty
  | 0, _ => none
  | fuel + 1, t =>
    match t.varId.bind bound with
    | some next => resolve bound fuel next
    | none => some t

/-- The loop over the components of two tuples or over the parameters of two functions. -/
def eqAll (f : Ty → Ty → Option Bool) : List Ty → List Ty → Option Bool
  | a :: as, b :: bs => do if ← f a b then eqAll f as bs else pure false
  | _, _ => pure true

/-- The switch of `seraph_type_eq` for two types of one kind, with `f` for the recursive call. -/
def eqSwitch (f : Ty → Ty → Option Bool) : Ty → Ty → Option Bool
  | prim _, prim _ | never, never => some true
  | array elem size, array elem' size' => if size = size' then f elem elem' else some false
  | slice elem, slice elem' => f elem elem'
  | tuple elems, tuple elems' =>
    if elems.length ≠ elems'.length then some false else eqAll f elems elems'
  | named _ decl, named _ decl' => some (decl = decl')
  | ref _ inner substrate, ref _ inner' substrate' =>
    if substrate = substrate' then f inner inner' else some false
  | voidable inner, voidable inner' => f inner inner'
  | fn params ret effects, fn params' ret' effects' =>
    if params.length ≠ params'.length then some false
    else if effects ≠ effects' then some false
    else do if ← f ret ret' then eqAll f params params' else pure false
  | typevar id, typevar id' => some (id = id')
  | _, _ => some false

/-- `seraph_type_eq`. -/
def eq (same : Ty → Ty → Bool) (bound : Bindings) : ℕ → Ty → Ty → Option Bool
  | 0, _, _ => none
  | fuel + 1, a, b =>
    if same a b then some true
    else if a.isNull || b.isNull then some false
    else
      match a.varId.bind bound, b.varId.bind bound with
      | some a', _ => eq same bound fuel a' b
      | none, some b' => eq same bound fuel a b'
      | none, none =>
        if a.kind ≠ b.kind then some false else eqSwitch (eq same bound fuel) a b

/-- The end of `seraph_type_subtype` : a VOID-able type has more subtypes, of any other only an
equal one. -/
def subtypeSwitch (f eq : Ty → Ty → Option Bool) (sub : Ty) : Ty → Option Bool
  | voidable super => do
    if ← f sub super then pure true
    else
      match sub with
      | voidable sub => f sub super
      | _ => pure false
  | super => eq sub super

/-- `seraph_type_subtype`. -/
def subtype (same : Ty → Ty → Bool) (bound : Bindings) : ℕ → Ty → Ty → Option Bool
  | 0, _, _ => none
  | fuel + 1, sub, super =>
    if same sub super then some true
    else if sub.isNull || super.isNull then some false
    else
      match sub.varId.bind bound, super.varId.bind bound with
      | some sub', _ => subtype same bound fuel sub' super
      | none, some super' => subtype same bound fuel sub super'
      | none, none =>
        if sub.kind = .never then some true
        else subtypeSwitch (subtype same bound fuel) (eq same bound fuel) sub super

/-- A loop that asks for each type of a list and stops at the first yes. -/
def anyOf (f : Ty → Option Bool) : List Ty → Option Bool
  | [] => pure false
  | t :: ts => do if ← f t then pure true else anyOf f ts

/-- The switch of `seraph_type_occurs`, with `f` for the recursive call. -/
def occursSwitch (f : Ty → Option Bool) : Ty → Option Bool
  | array elem _ => f elem
  | slice elem => f elem
  | tuple elems => anyOf f elems
  | ref _ inner _ => f inner
  | voidable inner => f inner
  | fn params ret _ => do if ← f ret then pure true else anyOf f params
  | _ => some false

/-- `seraph_type_occurs`. A variable is one object, so that the comparison of the pointers is the
one of the `id`s. -/
def occurs (bound : Bindings) (var : ℕ) : ℕ → Ty → Option Bool
  | 0, _ => none
  | fuel + 1, t =>
    if t.isNull then some false
    else do
      let t ← resolve bound fuel t
      if t.varId = some var then pure true else occursSwitch (occurs bound var fuel) t

end Ty

namespace TypeContext

variable (granted : ℕ → Bool) (ctx : TypeContext)

/-- The context with an empty record of what was compared and refused. -/
def fresh : TypeContext :=
  { ctx with met := [], refused := false }

/-- A request to the arena. -/
def request : Bool × TypeContext :=
  (granted ctx.requests,
    { ctx with requests := ctx.requests + 1, refused := ctx.refused || !granted ctx.requests })

/-- `alloc_type` and the fields of the type, NULL where the arena has no room. -/
def allocType (t : Ty) : TypeContext × Ty :=
  let (room, ctx) := ctx.request granted
  (ctx, if room then t else .null)

/-- `seraph_type_void`. Where the arena has no room it returns NULL, which `seraph_type_is_void`
takes for the same. -/
def typeVoid : TypeContext × Ty :=
  (ctx, .void)

/-- `seraph_type_array`. -/
def typeArray (elem : Ty) (size : UInt64) : TypeContext × Ty :=
  if elem.isVoid then ctx.typeVoid else ctx.allocType granted (.array elem size)

/-- `seraph_type_voidable`. -/
def typeVoidable (inner : Ty) : TypeContext × Ty :=
  if inner.isVoid then ctx.typeVoid
  else if inner.kind = .voidable then (ctx, inner)
  else ctx.allocType granted (.voidable inner)

/-- `seraph_type_fn` with a return type : a request for the type and, if there are any, one for its
parameters. -/
def typeFn (params : List Ty) (ret : Ty) (effects : EffectFlags) : TypeContext × Ty :=
  let (room, ctx) := ctx.request granted
  if !room then (ctx, .null)
  else if params = [] then (ctx, .fn params ret effects)
  else
    let (room, ctx) := ctx.request granted
    if room then (ctx, .fn params ret effects) else ctx.typeVoid

/-- `seraph_type_error`, with room for the diagnostic or without. -/
def typeError (loc : SourceLoc) (message : String) : TypeContext :=
  { ctx with
    errorCount := ctx.errorCount + 1
    diagnostics :=
      if granted ctx.requests then (loc, message) :: ctx.diagnostics else ctx.diagnostics
    requests := ctx.requests + 1 }

/-- `t->typevar.bound = b`. -/
def bind (id : ℕ) (t : Ty) : TypeContext :=
  { ctx with bound := fun x => if x = id then some t else ctx.bound x }

/-- A type variable that is to be bound, with the occurs check. -/
def bindVar (fuel id : ℕ) (t : Ty) : Option (TypeContext × Ty) := do
  if ← t.occurs ctx.bound id fuel then
    return (ctx.typeError granted .zero
      "infinite type: type variable occurs in its own binding").typeVoid
  else return (ctx.bind id t, t)

/-- The loop of `seraph_type_unify` over the parameters of two functions, `none` for a parameter
that does not unify. -/
def unifyParams (f : TypeContext → Ty → Ty → Option (TypeContext × Ty)) :
    TypeContext → List Ty → List Ty → Option (TypeContext × Option (List Ty))
  | ctx, a :: as, b :: bs => do
    let (ctx, t) ← f ctx a b
    if t.isVoid then return (ctx, none)
    let (ctx, ts) ← unifyParams f ctx as bs
    return (ctx, ts.map (t :: ·))
  | ctx, _, _ => some (ctx, some [])

/-- The room for the parameters of a function, if there are any. -/
def paramsRoom (params : List Ty) : Bool × TypeContext :=
  if params = [] then (true, ctx) else ctx.request granted

/-- The cases of `seraph_type_unify` for arrays, VOID-able types and functions, with `f` for the
recursive call, and the comparison of all others. -/
def unifySwitch (f : TypeContext → Ty → Ty → Option (TypeContext × Ty))
    (eq : Ty → Ty → Option Bool) : Ty → Ty → Option (TypeContext × Ty)
  | .array elem size, .array elem' size' =>
    if size ≠ size' then some ctx.typeVoid
    else do
      let (ctx, t) ← f ctx elem elem'
      pure (if t.isVoid then ctx.typeVoid else ctx.typeArray granted t size)
  | .voidable inner, .voidable inner' => do
    let (ctx, t) ← f ctx inner inner'
    pure (if t.isVoid then ctx.typeVoid else ctx.typeVoidable granted t)
  | .fn params ret effects, .fn params' ret' effects' =>
    if params.length ≠ params'.length then some ctx.typeVoid
    else
      let (room, ctx) := ctx.paramsRoom granted params
      if !room then some ctx.typeVoid
      else do
        let (ctx, unified) ← unifyParams f ctx params params'
        match unified with
        | none => pure ctx.typeVoid
        | some ts =>
          let (ctx, t) ← f ctx ret ret'
          pure (if t.isVoid then ctx.typeVoid else ctx.typeFn granted ts t (effects ||| effects'))
  | a, b => do pure (if ← eq a b then (ctx, a) else ctx.typeVoid)

/-- `seraph_type_unify` for two types whose variables are resolved, with `f` for the recursive
call. -/
def unifyResolved (same : Ty → Ty → Bool) (fuel : ℕ)
    (f : TypeContext → Ty → Ty → Option (TypeContext × Ty)) (a b : Ty) :
    Option (TypeContext × Ty) :=
  let ctx := { ctx with met := (ctx.bound, a, b) :: ctx.met }
  if same a b then some (ctx, a)
  else
    match a.varId, b.varId with
    | some id, _ => ctx.bindVar granted fuel id b
    | none, some id => ctx.bindVar granted fuel id a
    | none, none =>
      if a.kind = .never then some (ctx, b)
      else if b.kind = .never then some (ctx, a)
      else if a.kind ≠ b.kind then some ctx.typeVoid
      else ctx.unifySwitch granted f (Ty.eq same ctx.bound fuel) a b

/-- `seraph_type_unify`. -/
def unify (same : Ty → Ty → Bool) : ℕ → TypeContext → Ty → Ty → Option (TypeContext × Ty)
  | 0, _, _, _ => none
  | fuel + 1, ctx, a, b =>
    if a.isNull || b.isNull then some ctx.typeVoid
    else do
      let a ← a.resolve ctx.bound fuel
      let b ← b.resolve ctx.bound fuel
      ctx.unifyResolved granted same fuel (unify same fuel) a b

/-- `seraph_type_join`, of two types that are not NULL. It looks at the kinds without following
`bound`. -/
def join (same : Ty → Ty → Bool) : ℕ → TypeContext → Ty → Ty → Option (TypeContext × Ty)
  | 0, _, _, _ => none
  | fuel + 1, ctx, a, b => do
    if ← a.eq same ctx.bound fuel b then return (ctx, a)
    else if a.kind = .never then return (ctx, b)
    else if b.kind = .never then return (ctx, a)
    else if a.kind = .voidable ∧ b.kind ≠ .voidable then
      let (ctx, t) ← join same fuel ctx a.inner b
      return ctx.typeVoidable granted t
    else if b.kind = .voidable ∧ a.kind ≠ .voidable then
      let (ctx, t) ← join same fuel ctx a b.inner
      return ctx.typeVoidable granted t
    else if a.kind ≠ b.kind then return ctx.typeVoid
    else ctx.unify granted same fuel a b

end TypeContext

end Seraph
