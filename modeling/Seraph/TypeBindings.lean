import Mathlib.Order.WellFounded
import Mathlib.Tactic.SplitIfs
import Seraph.Fuel
import Seraph.Types

/-!
# Types under bindings

What types stand for : an instance gives every variable a type, and respects the bindings. Bindings
are acyclic if the way down from a type, to its components and to what its variables are bound to,
always ends. Then every type can be resolved to the end (`resolved`), and equality, subtyping and
the occurs check decide what they should (`eq_settles`, `subtype_settles`, `occurs_settles`).
-/

namespace Seraph

open Relation Fuel

namespace Ty

/-- A type without its components. -/
inductive Shape where
  | null | void | never | prim (kind : PrimKind) | array (size : UInt64) | slice
  | tuple (count : ℕ) | named (isEnum : Bool) (decl : ℕ)
  | ref (isMut : Bool) (substrate : Substrate)
  | voidable | fn (count : ℕ) (effects : EffectFlags) | typevar (id : ℕ)
deriving DecidableEq

/-- The shape of a type. -/
def shape : Ty → Shape
  | .null => .null
  | .void => .void
  | .never => .never
  | .prim kind => .prim kind
  | .array _ size => .array size
  | .slice _ => .slice
  | .tuple elems => .tuple elems.length
  | .named isEnum decl => .named isEnum decl
  | .ref isMut _ substrate => .ref isMut substrate
  | .voidable _ => .voidable
  | .fn params _ effects => .fn params.length effects
  | .typevar id => .typevar id

/-- The components of a type. The return type of a function stands before its parameters. -/
def children : Ty → List Ty
  | .array elem _ => [elem]
  | .slice elem => [elem]
  | .tuple elems => elems
  | .ref _ inner _ => [inner]
  | .voidable inner => [inner]
  | .fn params ret _ => ret :: params
  | _ => []

/-- The type of a shape with these components. -/
def ofShape : Shape → List Ty → Ty
  | .null, _ => .null
  | .void, _ => .void
  | .never, _ => .never
  | .prim kind, _ => .prim kind
  | .array size, elem :: _ => .array elem size
  | .slice, elem :: _ => .slice elem
  | .tuple _, elems => .tuple elems
  | .named isEnum decl, _ => .named isEnum decl
  | .ref isMut substrate, inner :: _ => .ref isMut inner substrate
  | .voidable, inner :: _ => .voidable inner
  | .fn _ effects, ret :: params => .fn params ret effects
  | .typevar id, _ => .typevar id
  | _, [] => .null

theorem ofShape_shape (t : Ty) : ofShape t.shape t.children = t := by
  cases t <;> rfl

theorem eq_of_shape {a b : Ty} (hshape : a.shape = b.shape) (hchildren : a.children = b.children) :
    a = b := by
  rw [← ofShape_shape a, ← ofShape_shape b, hshape, hchildren]

/-- How many components the types of a shape have. -/
def Shape.arity : Shape → ℕ
  | .array _ | .slice | .ref .. | .voidable => 1
  | .tuple count => count
  | .fn count _ => count + 1
  | _ => 0

/-- The variable that the types of a shape are. -/
def Shape.varId : Shape → Option ℕ
  | .typevar id => some id
  | _ => none

theorem length_children (t : Ty) : t.children.length = t.shape.arity := by
  cases t <;> rfl

theorem sizeOf_child {c t : Ty} (h : c ∈ t.children) : sizeOf c < sizeOf t := by
  cases t <;> simp only [children, List.not_mem_nil, List.mem_cons, or_false] at h
  case tuple elems => have := List.sizeOf_lt_of_mem h; simp only [tuple.sizeOf_spec]; omega
  case fn params ret effects =>
    rcases h with rfl | h
    · simp only [fn.sizeOf_spec]; omega
    · have := List.sizeOf_lt_of_mem h; simp only [fn.sizeOf_spec]; omega
  all_goals
    subst h
    simp only [array.sizeOf_spec, slice.sizeOf_spec, ref.sizeOf_spec, voidable.sizeOf_spec]
    omega

mutual

/-- A type with types for its variables. -/
def apply (θ : ℕ → Ty) : Ty → Ty
  | .null => .null
  | .void => .void
  | .never => .never
  | .prim kind => .prim kind
  | .array elem size => .array (apply θ elem) size
  | .slice elem => .slice (apply θ elem)
  | .tuple elems => .tuple (applyAll θ elems)
  | .named isEnum decl => .named isEnum decl
  | .ref isMut inner substrate => .ref isMut (apply θ inner) substrate
  | .voidable inner => .voidable (apply θ inner)
  | .fn params ret effects => .fn (applyAll θ params) (apply θ ret) effects
  | .typevar id => θ id

/-- A substitution on each of the types. -/
def applyAll (θ : ℕ → Ty) : List Ty → List Ty
  | [] => []
  | t :: ts => apply θ t :: applyAll θ ts

end

theorem eq_typevar {t : Ty} {id : ℕ} (h : t.varId = some id) : t = .typevar id := by
  cases t <;> cases h
  rfl

/-- How many `??` a type starts with. -/
def depth : Ty → ℕ
  | .voidable inner => depth inner + 1
  | _ => 0

/-- A type without the `??` it starts with. -/
def core : Ty → Ty
  | .voidable inner => core inner
  | t => t

theorem depth_zero {t : Ty} (h : t.kind ≠ .voidable) : t.depth = 0 ∧ t.core = t := by
  cases t
  case voidable => exact absurd rfl h
  all_goals exact ⟨rfl, rfl⟩

/-- The order of `seraph_type_subtype` on types without bindings : more `??`, and NEVER below
everything. -/
structure IsSubtype (sub super : Ty) : Prop where
  depth : sub.depth ≤ super.depth
  core : sub.core = super.core ∨ sub.core = .never

theorem IsSubtype.refl (t : Ty) : t.IsSubtype t :=
  ⟨Nat.le_refl _, .inl rfl⟩

theorem IsSubtype.trans {a b c : Ty} (hab : a.IsSubtype b) (hbc : b.IsSubtype c) :
    a.IsSubtype c := by
  refine ⟨hab.depth.trans hbc.depth, ?_⟩
  rcases hab.core with h | h
  · rw [h]
    exact hbc.core
  · exact .inr h

theorem never_isSubtype (t : Ty) : Ty.never.IsSubtype t :=
  ⟨Nat.zero_le _, .inr rfl⟩

theorem IsSubtype.voidable {sub super : Ty} (h : sub.IsSubtype super) :
    sub.IsSubtype (.voidable super) :=
  ⟨h.depth.trans (Nat.le_succ _), h.core⟩

theorem voidable_isSubtype_iff {sub super : Ty} :
    (Ty.voidable sub).IsSubtype (.voidable super) ↔ sub.IsSubtype super :=
  ⟨fun h => ⟨Nat.le_of_succ_le_succ h.depth, h.core⟩, fun h => ⟨Nat.succ_le_succ h.depth, h.core⟩⟩

/-- A type that is not VOID-able is below `??T` if it is below `T`. -/
theorem isSubtype_voidable_iff {sub super : Ty} (h : sub.kind ≠ .voidable) :
    sub.IsSubtype (.voidable super) ↔ sub.IsSubtype super := by
  refine ⟨fun hsub => ⟨?_, hsub.core⟩, .voidable⟩
  rw [(depth_zero h).1]
  exact Nat.zero_le _

/-- What is above a VOID-able type is above its inner type. -/
theorem IsSubtype.of_voidable {sub super : Ty} (h : (Ty.voidable sub).IsSubtype super) :
    sub.IsSubtype super :=
  ⟨(Nat.le_succ _).trans h.depth, h.core⟩

theorem kind_ne_voidable {t : Ty} (h : ¬∃ inner, t = .voidable inner) : t.kind ≠ .voidable := by
  cases t
  case voidable => exact absurd ⟨_, rfl⟩ h
  case named isEnum _ => cases isEnum <;> nofun
  case ref isMut _ _ => cases isMut <;> nofun
  all_goals nofun

theorem eq_never {t : Ty} (h : t.kind = .never) : t = .never := by
  cases t
  case never => rfl
  case named isEnum _ => cases isEnum <;> cases h
  case ref isMut _ _ => cases isMut <;> cases h
  all_goals cases h

/-- Below a type that is not VOID-able are NEVER and the type itself. -/
theorem isSubtype_iff_eq {sub super : Ty} (hsub : sub.kind ≠ .never)
    (hsuper : super.kind ≠ .voidable) : sub.IsSubtype super ↔ sub = super := by
  refine ⟨fun h => ?_, fun h => h ▸ .refl sub⟩
  obtain ⟨hdepth, hcore⟩ := depth_zero hsuper
  have hsub' : sub.kind ≠ .voidable := by
    refine kind_ne_voidable ?_
    rintro ⟨inner, rfl⟩
    have hle := h.depth
    rw [hdepth] at hle
    exact absurd hle (Nat.not_succ_le_zero _)
  rcases h.core with heq | heq
  · rwa [(depth_zero hsub').2, hcore] at heq
  · rw [(depth_zero hsub').2] at heq
    exact absurd (heq ▸ rfl) hsub

end Ty

namespace Bindings

variable (σ : Bindings)

/-- `c` is a component of `t`, or what the variable `t` is bound to. -/
def Below (c t : Ty) : Prop :=
  c ∈ t.children ∨ ∃ id, t = .typevar id ∧ σ id = some c

/-- `c` is met on the way down from `t`. -/
abbrev Reaches (t c : Ty) : Prop :=
  ReflTransGen (fun t c => σ.Below c t) t c

/-- Every way down ends. -/
def Acyclic : Prop :=
  WellFounded σ.Below

/-- The instances that respect the bindings. -/
def Solves (θ : ℕ → Ty) : Prop :=
  ∀ id t, σ id = some t → θ id = t.apply θ

variable {σ}

/-- Without bindings, the way down is the one to the components. -/
theorem acyclic_of_free (h : ∀ id, σ id = none) : σ.Acyclic := by
  refine Subrelation.wf (r := fun c t => sizeOf c < sizeOf t) ?_ (measure sizeOf).wf
  rintro c t (hchild | ⟨id, _, hbound⟩)
  · exact Ty.sizeOf_child hchild
  · exact absurd ((h id).symm.trans hbound) nofun

theorem below_of_varId {t c : Ty} (h : t.varId.bind σ = some c) : σ.Below c t := by
  obtain ⟨id, hid, hbound⟩ := Option.bind_eq_some_iff.mp h
  exact .inr ⟨id, Ty.eq_typevar hid, hbound⟩

theorem Solves.bound {θ : ℕ → Ty} (h : σ.Solves θ) {t c : Ty} (hbound : t.varId.bind σ = some c) :
    t.apply θ = c.apply θ := by
  obtain ⟨id, hid, hbound⟩ := Option.bind_eq_some_iff.mp hbound
  rw [Ty.eq_typevar hid]
  exact h id c hbound

/-- One step of `resolved`. -/
def resolveStep (t : Ty) (below : ∀ c, σ.Below c t → Ty) : Ty :=
  match hbound : t.varId.bind σ with
  | some next => below next (below_of_varId hbound)
  | none => Ty.ofShape t.shape (t.children.attach.map fun c => below c.1 (.inl c.2))

/-- A type whose variables are followed to the end. -/
noncomputable def resolved (h : σ.Acyclic) : Ty → Ty :=
  WellFounded.fix h resolveStep

theorem resolved_eq (h : σ.Acyclic) (t : Ty) :
    resolved h t = @resolveStep σ t fun c _ => resolved h c :=
  WellFounded.fix_eq h resolveStep t

theorem resolved_bound (h : σ.Acyclic) {t next : Ty} (hbound : t.varId.bind σ = some next) :
    resolved h t = resolved h next := by
  rw [resolved_eq, resolveStep]
  split
  · next next' hbound' =>
    obtain rfl : next = next' := Option.some.inj (hbound.symm.trans hbound')
    rfl
  · next hnone => rw [hnone] at hbound; cases hbound

theorem resolved_node (h : σ.Acyclic) {t : Ty} (hfree : t.varId.bind σ = none) :
    resolved h t = Ty.ofShape t.shape (t.children.map (resolved h)) := by
  rw [resolved_eq, resolveStep]
  split
  · next hbound => rw [hfree] at hbound; cases hbound
  · exact congrArg _ List.attach_map_val

theorem shape_resolved (h : σ.Acyclic) {t : Ty} (hfree : t.varId.bind σ = none) :
    (resolved h t).shape = t.shape ∧ (resolved h t).children = t.children.map (resolved h) := by
  rw [resolved_node h hfree]
  cases t <;> simp [Ty.shape, Ty.children, Ty.ofShape]

/-- Two types that are not bound resolve to the same one if they have the same shape and their
components do. -/
theorem resolved_eq_iff (h : σ.Acyclic) {a b : Ty} (ha : a.varId.bind σ = none)
    (hb : b.varId.bind σ = none) :
    resolved h a = resolved h b ↔
      a.shape = b.shape ∧ a.children.map (resolved h) = b.children.map (resolved h) := by
  obtain ⟨hsa, hca⟩ := shape_resolved h ha
  obtain ⟨hsb, hcb⟩ := shape_resolved h hb
  rw [← hsa, ← hsb, ← hca, ← hcb]
  exact ⟨fun h => ⟨h ▸ rfl, h ▸ rfl⟩, fun h => Ty.eq_of_shape h.1 h.2⟩

/-- The test of pointers that `eq` and `unify` begin with : it says yes of one variable, and of
equal types only. -/
structure Lawful (same : Ty → Ty → Bool) : Prop where
  eq {a b : Ty} : same a b = true → a = b
  var (id : ℕ) : same (.typevar id) (.typevar id) = true

/-- A type with no VOID, NEVER and NULL on the way down, and with variables below `n` only. -/
def Sound (σ : Bindings) (n : ℕ) (t : Ty) : Prop :=
  ∀ c, σ.Reaches t c → c.isVoid = false ∧ c.kind ≠ .never ∧ ∀ id, c = .typevar id → id < n

/-- A type with no VOID and NULL on the way down. -/
def VoidFree (σ : Bindings) (t : Ty) : Prop :=
  ∀ c, σ.Reaches t c → c.isVoid = false

theorem VoidFree.below {t c : Ty} (h : σ.VoidFree t) (hc : σ.Below c t) : σ.VoidFree c :=
  fun u hu => h u (.head hc hu)

theorem VoidFree.child {t c : Ty} (h : σ.VoidFree t) (hc : c ∈ t.children) : σ.VoidFree c :=
  h.below (.inl hc)

theorem Sound.voidFree {n : ℕ} {t : Ty} (h : σ.Sound n t) : σ.VoidFree t :=
  fun c hc => (h c hc).1

theorem Sound.below {n : ℕ} {t c : Ty} (h : σ.Sound n t) (hc : σ.Below c t) : σ.Sound n c :=
  fun u hu => h u (.head hc hu)

theorem Sound.child {n : ℕ} {t c : Ty} (h : σ.Sound n t) (hc : c ∈ t.children) : σ.Sound n c :=
  h.below (.inl hc)

theorem Sound.reaches {n : ℕ} {t c : Ty} (h : σ.Sound n t) (hc : σ.Reaches t c) : σ.Sound n c :=
  fun u hu => h u (hc.trans hu)

theorem Sound.var {n : ℕ} {t : Ty} {id : ℕ} (h : σ.Sound n t) (hid : t.varId = some id) : id < n :=
  (h t .refl).2.2 id (Ty.eq_typevar hid)

/-- What is met below a variable that is bound is met below its binding. -/
theorem reaches_bound {t next u : Ty} (hbound : t.varId.bind σ = some next)
    (hu : u.varId.bind σ = none) : σ.Reaches t u ↔ σ.Reaches next u := by
  refine ⟨fun h => ?_, .head (below_of_varId hbound)⟩
  rcases h.cases_head with rfl | ⟨c, hc, hreach⟩
  · rw [hu] at hbound
    cases hbound
  · obtain ⟨id, hid, hnext⟩ := Option.bind_eq_some_iff.mp hbound
    obtain rfl := Ty.eq_typevar hid
    rcases hc with hc | ⟨id', hid', hc⟩
    · cases hc
    · cases hid'
      obtain rfl := Option.some.inj (hc.symm.trans hnext)
      exact hreach

/-- `resolve` follows a variable to a type that is not bound. -/
theorem resolve_settles (h : σ.Acyclic) (t : Ty) :
    ∃ r, Settles (fun fuel => t.resolve σ fuel) r ∧ σ.Reaches t r ∧ r.varId.bind σ = none ∧
      resolved h r = resolved h t ∧
      ∀ u, u.varId.bind σ = none → (σ.Reaches t u ↔ σ.Reaches r u) := by
  induction t using h.induction with
  | h t ih =>
    cases hbound : t.varId.bind σ with
    | none =>
      refine ⟨t, (settles_pure t).succ fun fuel => ?_, .refl, hbound, rfl, fun _ _ => Iff.rfl⟩
      rw [Ty.resolve, hbound]
    | some next =>
      have hbelow := below_of_varId hbound
      obtain ⟨r, hr, hreach, hfree, hres, hsame⟩ := ih next hbelow
      refine ⟨r, hr.succ fun fuel => ?_, .head hbelow hreach, hfree, ?_, fun u hu => ?_⟩
      · rw [Ty.resolve, hbound]
      · rw [hres, resolved_bound h hbound]
      · rw [reaches_bound hbound hu, hsame u hu]

variable {same : Ty → Ty → Bool}

theorem eqAll_single (f : Ty → Ty → Option Bool) (a b : Ty) : Ty.eqAll f [a] [b] = f a b := by
  rw [Ty.eqAll]
  cases h : f a b with
  | none => rfl
  | some r => cases r <;> rfl

/-- Types of one kind are compared by shape and components. -/
theorem eqSwitch_eq (f : Ty → Ty → Option Bool) {a b : Ty} (hkind : a.kind = b.kind)
    (hvoid : a.kind ≠ .void) :
    Ty.eqSwitch f a b =
      if a.shape = b.shape then Ty.eqAll f a.children b.children else some false := by
  have hflag : ∀ (b b' : Bool) (k k' : Ty.Kind), k ≠ k' →
      (if b then k else k') = (if b' then k else k') → b = b' := by
    intro b b' k k' hne h
    cases b <;> cases b' <;> first | rfl | exact absurd h hne | exact absurd h.symm hne
  cases a <;> cases b <;> first
    | exact absurd rfl hvoid
    | (cases hkind; done)
    | (simp only [Ty.kind] at hkind; split_ifs at hkind; done)
    | skip
  case named.named isEnum decl isEnum' decl' =>
    obtain rfl := hflag isEnum isEnum' .enum .struct (by decide) hkind
    by_cases h : decl = decl' <;> simp [Ty.eqSwitch, Ty.shape, Ty.children, Ty.eqAll, h]
  case ref.ref isMut inner substrate isMut' inner' substrate' =>
    obtain rfl := hflag isMut isMut' .refMut .ref (by decide) hkind
    by_cases h : substrate = substrate' <;>
      simp [Ty.eqSwitch, Ty.shape, Ty.children, eqAll_single, h]
  case fn.fn params ret effects params' ret' effects' =>
    by_cases h : params.length = params'.length <;> by_cases h' : effects = effects' <;>
      simp [Ty.eqSwitch, Ty.shape, Ty.children, Ty.eqAll, h, h']
  case typevar.typevar id id' =>
    by_cases h : id = id' <;> simp [Ty.eqSwitch, Ty.shape, Ty.children, Ty.eqAll, h]
  all_goals simp_all [Ty.eqSwitch, Ty.shape, Ty.children, eqAll_single, Ty.eqAll, Ty.kind]

/-- The kind of the types of a shape. -/
def kindOf : Ty.Shape → Ty.Kind
  | .null | .void => .void
  | .never => .never
  | .prim kind => .prim kind
  | .array _ => .array
  | .slice => .slice
  | .tuple _ => .tuple
  | .named isEnum _ => if isEnum then .enum else .struct
  | .ref isMut _ => if isMut then .refMut else .ref
  | .voidable => .voidable
  | .fn .. => .fn
  | .typevar _ => .typevar

theorem kindOf_shape (t : Ty) : kindOf t.shape = t.kind := by
  cases t <;> rfl

/-- The comparison of two types that are not bound goes by shape and components. -/
theorem eq_node {a b : Ty} (hsame : same a b = false) (ha : a.varId.bind σ = none)
    (hb : b.varId.bind σ = none) (hnull : (a.isNull || b.isNull) = false) (hvoid : a.kind ≠ .void)
    (fuel : ℕ) :
    a.eq same σ (fuel + 1) b =
      if a.shape = b.shape then Ty.eqAll (Ty.eq same σ fuel) a.children b.children
      else some false := by
  rw [Ty.eq, if_neg (by rw [hsame]; decide), if_neg (by rw [hnull]; decide), ha, hb]
  dsimp only
  by_cases hkind : a.kind = b.kind
  · rw [if_neg (not_not.mpr hkind), eqSwitch_eq _ hkind hvoid]
  · have hshape : a.shape ≠ b.shape := by
      intro h
      exact hkind ((kindOf_shape a).symm.trans ((congrArg kindOf h).trans (kindOf_shape b)))
    rw [if_pos hkind, if_neg hshape]

theorem isVoid_of_kind {t : Ty} (h : t.kind = .void) : t.isVoid = true := by
  cases t
  case named isEnum decl => cases isEnum <;> cases h
  case ref isMut inner substrate => cases isMut <;> cases h
  all_goals first | rfl | cases h

theorem isNull_of_isVoid {t : Ty} (h : t.isVoid = false) : t.isNull = false := by
  cases t <;> first | rfl | cases h

/-- VOID is equal to nothing but its own object. -/
theorem eq_void {a b : Ty} (hsame : same a b = false) (ha : a.varId.bind σ = none)
    (hb : b.varId.bind σ = none) (hnull : (a.isNull || b.isNull) = false) (hvoid : a.kind = .void)
    (fuel : ℕ) : a.eq same σ (fuel + 1) b = some false := by
  rw [Ty.eq, if_neg (by rw [hsame]; decide), if_neg (by rw [hnull]; decide), ha, hb]
  dsimp only
  have hisVoid := isVoid_of_kind hvoid
  split
  · rfl
  · cases a <;> first | (cases b <;> rfl) | exact Bool.noConfusion hisVoid

theorem eqAll_settles {f : ℕ → Ty → Ty → Option Bool} {R : Ty → Ty} {C : Ty → Prop}
    (as bs : List Ty) (hlen : as.length = bs.length)
    (h : ∀ a ∈ as, ∀ b ∈ bs, ∃ r, Settles (fun fuel => f fuel a b) r ∧
      (C a → C b → (r = true ↔ R a = R b))) :
    ∃ r, Settles (fun fuel => Ty.eqAll (f fuel) as bs) r ∧
      ((∀ a ∈ as, C a) → (∀ b ∈ bs, C b) → (r = true ↔ as.map R = bs.map R)) := by
  induction as generalizing bs with
  | nil =>
    obtain rfl := List.eq_nil_of_length_eq_zero hlen.symm
    exact ⟨true, settles_pure true, fun _ _ => iff_of_true rfl rfl⟩
  | cons a as ih =>
    cases bs with
    | nil => cases hlen
    | cons b bs =>
      obtain ⟨head, hhead, hspec⟩ := h a List.mem_cons_self b List.mem_cons_self
      obtain ⟨tail, htail, hspec'⟩ := ih bs (Nat.succ.inj hlen) fun c hc d hd =>
        h c (List.mem_cons_of_mem a hc) d (List.mem_cons_of_mem b hd)
      refine ⟨head && tail, ?_, fun hC hC' => ?_⟩
      · refine hhead.bind ?_
        cases head with
        | false => exact settles_pure false
        | true => exact htail
      · rw [Bool.and_eq_true, List.map_cons, List.map_cons, List.cons.injEq,
          hspec (hC a List.mem_cons_self) (hC' b List.mem_cons_self),
          hspec' (fun c hc => hC c (List.mem_cons_of_mem a hc))
            fun d hd => hC' d (List.mem_cons_of_mem b hd)]

/-- Equality ends, and decides whether two types resolve to the same one. -/
theorem eq_settles (h : σ.Acyclic) (hsame : Lawful same) (a b : Ty) :
    ∃ r, Settles (fun fuel => a.eq same σ fuel b) r ∧
      (σ.VoidFree a → σ.VoidFree b → (r = true ↔ resolved h a = resolved h b)) := by
  induction a using h.induction generalizing b with
  | h a iha =>
    induction b using h.induction with
    | h b ihb =>
      cases hab : same a b with
      | true =>
        obtain rfl := hsame.eq hab
        refine ⟨true, (settles_pure true).succ fun fuel => ?_, fun _ _ => iff_of_true rfl rfl⟩
        rw [Ty.eq, if_pos hab]
      | false =>
        cases hnull : a.isNull || b.isNull with
        | true =>
          refine ⟨false, (settles_pure false).succ fun fuel => ?_, fun ha hb => ?_⟩
          · rw [Ty.eq, if_neg (by rw [hab]; decide), if_pos hnull]
          · rw [isNull_of_isVoid (ha a .refl), isNull_of_isVoid (hb b .refl)] at hnull
            cases hnull
        | false =>
          cases ha : a.varId.bind σ with
          | some a' =>
            obtain ⟨r, hr, hspec⟩ := iha a' (below_of_varId ha) b
            refine ⟨r, hr.succ fun fuel => ?_, fun hA hB => ?_⟩
            · rw [Ty.eq, if_neg (by rw [hab]; decide), if_neg (by rw [hnull]; decide), ha]
            · rw [hspec (hA.below (below_of_varId ha)) hB, resolved_bound h ha]
          | none =>
            cases hb : b.varId.bind σ with
            | some b' =>
              obtain ⟨r, hr, hspec⟩ := ihb b' (below_of_varId hb)
              refine ⟨r, hr.succ fun fuel => ?_, fun hA hB => ?_⟩
              · rw [Ty.eq, if_neg (by rw [hab]; decide), if_neg (by rw [hnull]; decide), ha, hb]
              · rw [hspec hA (hB.below (below_of_varId hb)), resolved_bound h hb]
            | none =>
              by_cases hvoid : a.kind = .void
              · refine ⟨false, (settles_pure false).succ (eq_void hab ha hb hnull hvoid), ?_⟩
                intro hA _
                exact absurd (isVoid_of_kind hvoid) (Bool.eq_false_iff.mp (hA a .refl))
              have hstep := eq_node hab ha hb hnull hvoid
              by_cases hshape : a.shape = b.shape
              · have hlen : a.children.length = b.children.length := by
                  rw [Ty.length_children, Ty.length_children, hshape]
                obtain ⟨r, hr, hspec⟩ := eqAll_settles (R := resolved h) (C := σ.VoidFree) _ _ hlen
                  fun c hc d _ => iha c (.inl hc) d
                refine ⟨r, hr.succ fun fuel => ?_, fun hA hB => ?_⟩
                · rw [hstep, if_pos hshape]
                · rw [hspec (fun _ => hA.child) fun _ => hB.child, resolved_eq_iff h ha hb,
                    and_iff_right hshape]
              · refine ⟨false, (settles_pure false).succ fun fuel => ?_, fun hA hB => ?_⟩
                · rw [hstep, if_neg hshape]
                · rw [resolved_eq_iff h ha hb]
                  exact iff_of_false nofun fun heq => hshape heq.1

theorem kind_resolved (h : σ.Acyclic) {t : Ty} (hfree : t.varId.bind σ = none) :
    (resolved h t).kind = t.kind := by
  rw [← kindOf_shape, (shape_resolved h hfree).1, kindOf_shape]

theorem resolved_voidable (h : σ.Acyclic) (t : Ty) :
    resolved h (.voidable t) = .voidable (resolved h t) := by
  rw [resolved_node h rfl]
  rfl

theorem subtypeSwitch_voidable {f eq : ℕ → Ty → Ty → Option Bool} {sub super : Ty}
    {first second : Bool} (hfirst : Settles (fun fuel => f fuel sub super) first)
    (hsecond : ∀ sub', sub = .voidable sub' → Settles (fun fuel => f fuel sub' super) second) :
    Settles (fun fuel => Ty.subtypeSwitch (f fuel) (eq fuel) sub (.voidable super))
      (first || decide (sub.kind = .voidable) && second) := by
  cases first with
  | true => exact hfirst.bind (settles_pure true)
  | false =>
    by_cases hsub : ∃ sub', sub = .voidable sub'
    · obtain ⟨sub', rfl⟩ := hsub
      exact hfirst.bind (hsecond sub' rfl)
    · have hkind := Ty.kind_ne_voidable hsub
      rw [decide_eq_false hkind]
      refine (hfirst.bind (g := fun r _ => some r) (settles_pure false)).congr fun fuel => ?_
      have hbind : ∀ o : Option Bool,
          (o.bind fun r => if r then some true else some false) = o.bind some := by
        intro o
        cases o with
        | none => rfl
        | some r => cases r <;> rfl
      cases sub <;> first | exact hbind _ | exact absurd rfl hkind

/-- The end of `seraph_type_subtype` for two types that are not bound, of which the first is not
NEVER. -/
theorem subtypeSwitch_settles (h : σ.Acyclic) (hsame : Lawful same) {sub super : Ty}
    (hsub : sub.varId.bind σ = none) (hsuper : super.varId.bind σ = none)
    (hnever : sub.kind ≠ .never)
    (hf : ∀ super' ∈ super.children, ∀ sub',
      ∃ r, Settles (fun fuel => sub'.subtype same σ fuel super') r ∧
        (σ.VoidFree sub' → σ.VoidFree super' →
          (r = true ↔ (resolved h sub').IsSubtype (resolved h super')))) :
    ∃ r, Settles (fun fuel => Ty.subtypeSwitch (Ty.subtype same σ fuel) (Ty.eq same σ fuel)
        sub super) r ∧
      (σ.VoidFree sub → σ.VoidFree super →
        (r = true ↔ (resolved h sub).IsSubtype (resolved h super))) := by
  have hkind := kind_resolved h hsub
  by_cases hvoidable : ∃ super', super = .voidable super'
  · obtain ⟨super', rfl⟩ := hvoidable
    obtain ⟨first, hfirst, hspec⟩ := hf super' List.mem_cons_self sub
    by_cases hinner : ∃ sub', sub = .voidable sub'
    · obtain ⟨sub', rfl⟩ := hinner
      obtain ⟨second, hsecond, hspec'⟩ := hf super' List.mem_cons_self sub'
      have hboth : ∀ t, sub'.voidable = .voidable t →
          Settles (fun fuel => t.subtype same σ fuel super') second := by
        rintro _ ⟨⟩
        exact hsecond
      refine ⟨_, subtypeSwitch_voidable hfirst hboth, fun hA hB => ?_⟩
      have hA' := hA.child List.mem_cons_self
      have hB' := hB.child List.mem_cons_self
      rw [resolved_voidable] at hspec ⊢
      have hkind' : decide (sub'.voidable.kind = .voidable) = true := decide_eq_true rfl
      rw [resolved_voidable, Ty.voidable_isSubtype_iff, ← hspec' hA' hB', hkind',
        Bool.true_and, Bool.or_eq_true, or_iff_right_iff_imp]
      intro hr
      exact (hspec' hA' hB').mpr (((hspec hA hB').mp hr).of_voidable)
    · have hsub' : sub.kind ≠ .voidable := Ty.kind_ne_voidable hinner
      have hnone : ∀ sub', sub = .voidable sub' →
          Settles (fun fuel => sub'.subtype same σ fuel super') false :=
        fun sub' heq => absurd ⟨sub', heq⟩ hinner
      refine ⟨_, subtypeSwitch_voidable hfirst hnone, fun hA hB => ?_⟩
      rw [Bool.and_false, Bool.or_false, hspec hA (hB.child List.mem_cons_self),
        resolved_voidable, Ty.isSubtype_voidable_iff (by rwa [hkind])]
  · obtain ⟨r, hr, hspec⟩ := eq_settles h hsame sub super
    refine ⟨r, hr.congr fun fuel => ?_, fun hA hB => ?_⟩
    · cases super <;> first | rfl | exact absurd ⟨_, rfl⟩ hvoidable
    · rw [hspec hA hB, Ty.isSubtype_iff_eq (by rwa [hkind])]
      rw [kind_resolved h hsuper]
      exact Ty.kind_ne_voidable hvoidable

/-- Subtyping ends, and decides the order of the types that are resolved to the end. -/
theorem subtype_settles (h : σ.Acyclic) (hsame : Lawful same) (sub super : Ty) :
    ∃ r, Settles (fun fuel => sub.subtype same σ fuel super) r ∧
      (σ.VoidFree sub → σ.VoidFree super →
        (r = true ↔ (resolved h sub).IsSubtype (resolved h super))) := by
  induction super using h.induction generalizing sub with
  | h super ihsuper =>
    induction sub using h.induction with
    | h sub ihsub =>
      by_cases hab : same sub super = true
      · obtain rfl := hsame.eq hab
        refine ⟨true, (settles_pure _).succ fun fuel => ?_, fun _ _ => iff_of_true rfl (.refl _)⟩
        rw [Ty.subtype, if_pos hab]
      by_cases hnull : (sub.isNull || super.isNull) = true
      · refine ⟨false, (settles_pure _).succ fun fuel => ?_, fun hA hB => ?_⟩
        · rw [Ty.subtype, if_neg hab, if_pos hnull]
        · rw [isNull_of_isVoid (hA _ .refl), isNull_of_isVoid (hB _ .refl)] at hnull
          cases hnull
      cases hsub : sub.varId.bind σ with
      | some sub' =>
        obtain ⟨r, hr, hspec⟩ := ihsub sub' (below_of_varId hsub)
        refine ⟨r, hr.succ fun fuel => ?_, fun hA hB => ?_⟩
        · rw [Ty.subtype, if_neg hab, if_neg hnull, hsub]
        · rw [hspec (hA.below (below_of_varId hsub)) hB, resolved_bound h hsub]
      | none =>
        cases hsuper : super.varId.bind σ with
        | some super' =>
          obtain ⟨r, hr, hspec⟩ := ihsuper super' (below_of_varId hsuper) sub
          refine ⟨r, hr.succ fun fuel => ?_, fun hA hB => ?_⟩
          · rw [Ty.subtype, if_neg hab, if_neg hnull, hsub, hsuper]
          · rw [hspec hA (hB.below (below_of_varId hsuper)), resolved_bound h hsuper]
        | none =>
          by_cases hnever : sub.kind = .never
          · refine ⟨true, (settles_pure true).succ fun fuel => ?_, fun _ _ => iff_of_true rfl ?_⟩
            · rw [Ty.subtype, if_neg hab, if_neg hnull, hsub, hsuper]
              exact if_pos hnever
            · rw [Ty.eq_never ((kind_resolved h hsub).trans hnever)]
              exact Ty.never_isSubtype _
          · obtain ⟨r, hr, hspec⟩ := subtypeSwitch_settles h hsame hsub hsuper hnever
              fun c hc => ihsuper c (.inl hc)
            refine ⟨r, hr.succ fun fuel => ?_, hspec⟩
            rw [Ty.subtype, if_neg hab, if_neg hnull, hsub, hsuper]
            exact if_neg hnever

end Bindings

end Seraph
