import Seraph.Effects

/-!
# What effect inference finds

Inference returns the effects of the nodes that it visits (`infers`). It is sound for a
function if and only if it visits a node with each effect that occurs in the body, meets no method
call, and is less than 32 functions deep or lucky (`inference_sound_iff`).
-/

namespace Seraph

open Relation

namespace Effects

/-- The functions of the inference. -/
inductive Pass where
  | expr
  | stmt
  | block
deriving DecidableEq, Repr

/-- The body of an arm. -/
def armBody : Ast → Option Ast
  | .matchArm _ _ _ body => some body
  | _ => none

/-- The nodes that a function of the inference goes on with. -/
def visits : Pass × Ast → List (Pass × Ast)
  | (.expr, .binary _ _ left right) => [(.expr, left), (.expr, right)]
  | (.expr, .unary _ _ operand) => [(.expr, operand)]
  | (.expr, .voidProp _ operand _) => [(.expr, operand)]
  | (.expr, .voidAssert _ operand) => [(.expr, operand)]
  | (.expr, .call _ callee args) => (.expr, callee) :: args.map (Prod.mk .expr)
  | (.expr, .field _ object _) => [(.expr, object)]
  | (.expr, .index _ object i) => [(.expr, object), (.expr, i)]
  | (.expr, .block _ stmts expr) => stmts.map (Prod.mk .stmt) ++ [(.expr, expr)]
  | (.expr, .ifExpr _ cond thenBranch elseBranch) =>
    [(.expr, cond), (.block, thenBranch), (.block, elseBranch)]
  | (.expr, .matchExpr _ scrutinee arms) =>
    (.expr, scrutinee) :: (arms.filterMap armBody).map (Prod.mk .block)
  | (.expr, .range _ start stop _) => [(.expr, start), (.expr, stop)]
  | (.stmt, .exprStmt _ expr) => [(.expr, expr)]
  | (.stmt, .returnStmt _ expr) => [(.expr, expr)]
  | (.stmt, .whileStmt _ cond body) => [(.expr, cond), (.block, body)]
  | (.stmt, .forStmt _ _ iterable body) => [(.expr, iterable), (.block, body)]
  | (.stmt, .letDecl _ _ _ init _ _) | (.stmt, .constDecl _ _ _ init _ _) => [(.expr, init)]
  | (.block, .block _ stmts expr) => stmts.map (Prod.mk .stmt) ++ [(.expr, expr)]
  | _ => []

variable (types : Option (Ast → EffectFlags))

/-- What a node adds to the effects of those that are visited from it. -/
def own : Pass × Ast → EffectFlags
  | (.expr, .voidLit _) | (.expr, .voidProp ..) | (.expr, .voidAssert ..) | (.expr, .index ..) =>
    .void
  | (.expr, .binary _ op _ _) | (.expr, .unary _ op _) => .forOperator op
  | (.expr, .call _ callee _) => calleeEffects types callee
  | _ => .none

/-- A method call that is taken for an expression. -/
def isMethodCall : Pass × Ast → Bool
  | (.expr, .methodCall ..) => true
  | _ => false

/-- A node is visited from another one. -/
def Visited : Pass × Ast → Pass × Ast → Prop :=
  ReflTransGen fun q c => c ∈ visits q

/-- A node with a property is visited. -/
def Reaches (P : Pass × Ast → Prop) (q : Pass × Ast) : Prop :=
  ∃ c, Visited q c ∧ P c

/-- The function of the inference for a node. -/
def inferAt : Pass × Ast → EffectM EffectFlags
  | (.expr, node) => inferExpr types node
  | (.stmt, node) => inferStmt types node
  | (.block, node) => inferBlock types node

/-! ## Collecting effects -/

/-- Effects are returned and inferred, those in `A` before. -/
structure Collected (A S : ℕ → Prop) (ctx : EffectContext) (e : EffectFlags)
    (ctx' : EffectContext) : Prop where
  effects : ∀ b, e.getLsbD b = true ↔ A b ∨ S b
  inferred : ∀ b, ctx'.inferred.getLsbD b = true ↔ ctx.inferred.getLsbD b = true ∨ S b
  allowed : ctx'.allowed = ctx.allowed
  fnStack : ctx'.fnStack = ctx.fnStack

/-- With the effects in `A` inferred before, a program collects those in `S`, or is undefined if
`U` holds. -/
def Collects (A : ℕ → Prop) (U : Prop) (S : ℕ → Prop) (prog : EffectM EffectFlags) : Prop :=
  ∀ ctx : EffectContext, (∀ b, A b → ctx.inferred.getLsbD b = true) →
    (prog ctx = none ↔ U) ∧ ∀ e ctx', prog ctx = some (e, ctx') → Collected A S ctx e ctx'

variable {types} {A S S' T : ℕ → Prop} {U U' : Prop} {prog : EffectM EffectFlags}
  {next : EffectFlags → EffectM EffectFlags} {e : EffectFlags}

theorem Collects.congr (h : Collects A U S prog) (hU : U ↔ U') (hS : ∀ b, S b ↔ S' b) :
    Collects A U' S' prog := by
  have heq : S = S' := funext fun b => propext (hS b)
  rwa [← heq, ← propext hU]

theorem Collects.bind (h : Collects (fun _ => False) U S prog)
    (hnext : ∀ e : EffectFlags, (∀ b, e.getLsbD b = true ↔ S b) →
      Collects (fun b => A b ∨ S b) U' S' (next e)) :
    Collects A (U ∨ U') (fun b => S b ∨ S' b) (prog >>= next) := by
  intro ctx hA
  obtain ⟨hnone, hsome⟩ := h ctx fun _ hb => hb.elim
  have hrun : (prog >>= next) ctx = (prog ctx).bind fun r => next r.1 r.2 := rfl
  rw [hrun]
  cases hprog : prog ctx with
  | none => exact ⟨iff_of_true rfl (.inl (hnone.1 hprog)), fun _ _ hr => by cases hr⟩
  | some r =>
    obtain ⟨e, ctx₁⟩ := r
    obtain ⟨heff, hinf, hall, hstack⟩ := hsome e ctx₁ hprog
    have hU : ¬U := fun hU => by
      rw [hnone.2 hU] at hprog
      cases hprog
    obtain ⟨hnone', hsome'⟩ := hnext e (fun b => by rw [heff, false_or]) ctx₁
      fun b hb => (hinf b).2 (hb.imp_left (hA b))
    refine ⟨hnone'.trans (or_iff_right hU).symm, fun e' ctx' hr => ?_⟩
    obtain ⟨heff', hinf', hall', hstack'⟩ := hsome' e' ctx' hr
    exact ⟨fun b => (heff' b).trans or_assoc, fun b => by rw [hinf', hinf, or_assoc],
      hall'.trans hall, hstack'.trans hstack⟩

theorem collects_pure (h : ∀ b, e.getLsbD b = true ↔ A b) :
    Collects A False (fun _ => False) (pure e) := by
  refine fun ctx _ => ⟨iff_of_false (by intro h; cases h) id, fun e' ctx' hr => ?_⟩
  cases hr
  exact ⟨fun b => by rw [h, or_false], fun b => by rw [or_false], rfl, rfl⟩

theorem collects_conclude (loc : SourceLoc) (h : ∀ b, e.getLsbD b = true ↔ A b ∨ S b) :
    Collects A False S (conclude loc e) := by
  refine fun ctx hA => ⟨iff_of_false (by intro h; cases h) id, fun e' ctx' hr => ?_⟩
  have hor : ∀ b, (ctx.inferred ||| e).getLsbD b = true ↔ ctx.inferred.getLsbD b = true ∨ S b := by
    intro b
    rw [BitVec.getLsbD_or, Bool.or_eq_true, h]
    have := hA b
    tauto
  cases hr
  split_ifs
  · exact ⟨h, hor, rfl, rfl⟩
  · exact ⟨h, hor, rfl, rfl⟩

/-! ## The inference -/

theorem reaches_iff {P : Pass × Ast → Prop} (q : Pass × Ast) :
    Reaches P q ↔ P q ∨ ∃ c ∈ visits q, Reaches P c := by
  constructor
  · rintro ⟨c, hc, hP⟩
    rcases ReflTransGen.cases_head hc with rfl | ⟨d, hd, hdc⟩
    · exact .inl hP
    · exact .inr ⟨d, hd, c, hdc, hP⟩
  · rintro (hP | ⟨d, hd, c, hdc, hP⟩)
    · exact ⟨q, .refl, hP⟩
    · exact ⟨c, .head hd hdc, hP⟩

theorem sizeOf_visits {q c : Pass × Ast} (h : c ∈ visits q) : sizeOf c.2 < sizeOf q.2 := by
  obtain ⟨pass, node⟩ := q
  have hlist : ∀ l : List Ast, c.2 ∈ l → sizeOf c.2 < sizeOf l := fun l hl =>
    List.sizeOf_lt_of_mem hl
  have harms : ∀ arms : List Ast, c.2 ∈ arms.filterMap armBody → sizeOf c.2 < sizeOf arms := by
    intro arms hc
    obtain ⟨arm, harm, hbody⟩ := List.mem_filterMap.1 hc
    have hlt := List.sizeOf_lt_of_mem harm
    cases arm <;> simp only [armBody] at hbody <;> grind
  cases pass <;> cases node <;> simp only [visits] at h <;> grind

variable (types)

/-- A method call is visited. -/
def Undefined (q : Pass × Ast) : Prop :=
  Reaches (fun c => isMethodCall c = true) q

/-- The effects of the nodes that are visited. -/
def Visible (q : Pass × Ast) (b : ℕ) : Prop :=
  Reaches (fun c => (own types c).getLsbD b = true) q

/-- What inference does for a node. -/
def Infers (q : Pass × Ast) : Prop :=
  Collects (fun _ => False) (Undefined q) (Visible types q) (inferAt types q)

variable {types} {qs : List (Pass × Ast)} {q : Pass × Ast}

@[simp] theorem getLsbD_none (b : ℕ) : EffectFlags.none.getLsbD b = false :=
  BitVec.getLsbD_zero

@[simp] theorem none_or (e : EffectFlags) : .none ||| e = e :=
  BitVec.zero_or

@[simp] theorem or_none (e : EffectFlags) : e ||| .none = e :=
  BitVec.or_zero

variable (types)

/-- The effects of nodes, one after the other, united with `e`. -/
def unite (e : EffectFlags) : List (Pass × Ast) → EffectM EffectFlags
  | [] => pure e
  | q :: qs => do
    let effects := e ||| (← inferAt types q)
    unite effects qs

theorem inferExprs_eq (e : EffectFlags) (args : List Ast) :
    inferExprs types e args = unite types e (args.map (Prod.mk .expr)) := by
  induction args generalizing e with
  | nil => rfl
  | cons arg args ih => exact bind_congr fun a => ih (e ||| a)

theorem inferStmts_eq (e : EffectFlags) (stmts : List Ast) :
    inferStmts types e stmts = unite types e (stmts.map (Prod.mk .stmt)) := by
  induction stmts generalizing e with
  | nil => rfl
  | cons stmt stmts ih => exact bind_congr fun a => ih (e ||| a)

theorem inferArms_eq (e : EffectFlags) (arms : List Ast) :
    inferArms types e arms = unite types e ((arms.filterMap armBody).map (Prod.mk .block)) := by
  induction arms generalizing e with
  | nil => rfl
  | cons arm arms ih =>
    cases arm with
    | matchArm l pat guard body => exact bind_congr fun a => ih (e ||| a)
    | _ => exact ih e

theorem unite_or (e c : EffectFlags) (qs : List (Pass × Ast)) :
    unite types (e ||| c) qs = (· ||| c) <$> unite types e qs := by
  induction qs generalizing e with
  | nil => simp [unite]
  | cons q qs ih =>
    rw [unite, unite, map_bind]
    refine bind_congr fun a => ?_
    rw [← ih, BitVec.or_assoc, BitVec.or_comm c a, ← BitVec.or_assoc]

theorem unite_append (e : EffectFlags) (qs qs' : List (Pass × Ast)) :
    unite types e (qs ++ qs') = unite types e qs >>= fun e => unite types e qs' := by
  induction qs generalizing e with
  | nil => simp [unite]
  | cons q qs ih =>
    rw [List.cons_append, unite, unite, bind_assoc]
    exact bind_congr fun a => ih (e ||| a)

variable {types}

theorem collects_unite (h : ∀ q ∈ qs, Infers types q) (he : ∀ b, e.getLsbD b = true ↔ A b) :
    Collects A (∃ q ∈ qs, Undefined q) (fun b => ∃ q ∈ qs, Visible types q b)
      (unite types e qs) := by
  induction qs generalizing e A with
  | nil => exact (collects_pure he).congr (by simp) (by simp)
  | cons q qs ih =>
    refine ((h q List.mem_cons_self).bind fun a ha => ih
      (fun c hc => h c (List.mem_cons_of_mem q hc)) fun b => ?_).congr (by simp) (by simp)
    rw [BitVec.getLsbD_or, Bool.or_eq_true, he, ha]

/-- An expression adds its own effects to those of its children. -/
theorem infers_of_conclude (h : ∀ c ∈ visits q, Infers types c) (hmethod : isMethodCall q = false)
    (heq : inferAt types q = unite types .none (visits q) >>= fun e =>
      conclude q.2.loc (e ||| own types q)) : Infers types q := by
  have hunite := collects_unite (A := fun _ => False) (e := .none) h (by simp)
  have hown := hunite.bind (A := fun _ => False) fun e he => collects_conclude
    (e := e ||| own types q) (S := fun b => (own types q).getLsbD b = true) q.2.loc (by simp [he])
  rw [Infers, heq]
  refine hown.congr ?_ fun b => ?_
  · rw [Undefined, reaches_iff, hmethod]
    simp [Undefined]
  · rw [Visible, reaches_iff, or_comm]
    rfl

/-- Statements and blocks return the effects of their children. -/
theorem infers_of_unite (h : ∀ c ∈ visits q, Infers types c) (hmethod : isMethodCall q = false)
    (hown : own types q = .none) (heq : inferAt types q = unite types .none (visits q)) :
    Infers types q := by
  have hunite := collects_unite (A := fun _ => False) (e := .none) h (by simp)
  rw [Infers, heq]
  refine hunite.congr ?_ fun b => ?_
  · rw [Undefined, reaches_iff, hmethod]
    simp [Undefined]
  · rw [Visible, reaches_iff, hown]
    simp [Visible]

theorem infers_expr {node : Ast} (h : ∀ c ∈ visits (.expr, node), Infers types c) :
    Infers types (.expr, node) := by
  cases node with
  | null | void l => exact infers_of_unite h rfl rfl rfl
  | methodCall l receiver method args =>
    refine fun ctx _ => ⟨iff_of_true rfl ⟨_, .refl, rfl⟩, fun e ctx' hr => ?_⟩
    cases hr
  | call l callee args =>
    refine infers_of_conclude h rfl ?_
    simp only [inferAt, inferExpr, visits, unite, bind_assoc, inferExprs_eq, unite_or,
      bind_map_left, none_or, own]
    rfl
  | block l stmts expr =>
    refine infers_of_conclude h rfl ?_
    simp only [inferAt, inferExpr, visits, unite, bind_assoc, inferStmts_eq, unite_append,
      pure_bind, or_none, own]
    rfl
  | matchExpr l scrutinee arms =>
    refine infers_of_conclude h rfl ?_
    simp only [inferAt, inferExpr, visits, unite, bind_assoc, inferArms_eq, none_or, or_none, own]
    rfl
  | _ =>
    refine infers_of_conclude h rfl ?_
    simp only [inferAt, inferExpr, visits, unite, bind_assoc, pure_bind, none_or, or_none, own]
    try rfl

theorem infers_stmt {node : Ast} (h : ∀ c ∈ visits (.stmt, node), Infers types c) :
    Infers types (.stmt, node) := by
  refine infers_of_unite h rfl rfl ?_
  cases node with
  | _ => simp [inferAt, inferStmt, visits, unite]

theorem infers_block {node : Ast} (h : ∀ c ∈ visits (.block, node), Infers types c) :
    Infers types (.block, node) := by
  refine infers_of_unite h rfl rfl ?_
  cases node with
  | block l stmts expr =>
    simp only [inferAt, inferBlock, visits, unite, inferStmts_eq, unite_append]
  | _ => rfl

/-- Inference collects the effects of what it visits. -/
theorem infers (types : Option (Ast → EffectFlags)) (q : Pass × Ast) : Infers types q := by
  have h : ∀ c ∈ visits q, Infers types c := fun c _ => infers types c
  obtain ⟨pass, node⟩ := q
  cases pass with
  | expr => exact infers_expr h
  | stmt => exact infers_stmt h
  | block => exact infers_block h
termination_by sizeOf q.2
decreasing_by exact sizeOf_visits ‹_›

/-! ## Soundness -/

variable (types)

/-- The effects of a callee. What is not known may have all. -/
def callEffects (callee : Ast) : EffectFlags :=
  match types with
  | none => .all
  | some effects => effects callee

/-- The effects of a call, a division, a VOID operator, a `persist` and an `aether` construct. -/
def effectOf : Ast → EffectFlags
  | .call _ callee _ => callEffects types callee
  | .methodCall .. => .void
  | .binary _ op _ _ =>
    if op = .slash ∨ op = .percent ∨ op = .slashAssign ∨ op = .percentAssign then .void else .none
  | .voidProp .. | .voidAssert .. => .void
  | .persist .. => .persist
  | .aether .. => .network
  | _ => .none

/-- An effect occurs in a body. -/
def Occurs (body : Ast) (b : ℕ) : Prop :=
  ∃ x, body.Part x ∧ (effectOf types x).getLsbD b = true

/-- Inference returns all effects that occur in the body, and the check succeeds only if all of them
are declared. -/
structure Sound (ctx : EffectContext) (f body effects : Ast) (isPure : Bool) : Prop where
  inferred : ∃ e ctx', inferBlock types body ctx = some (e, ctx') ∧
    ∀ b, Occurs types body b → e.getLsbD b = true
  checked : ∀ ctx', checkFn types f ctx = some (.true, ctx') →
    ∀ b, Occurs types body b → (effectsFromAst effects isPure).getLsbD b = true

/-- No method call is visited, each effect that occurs is visited, and, where no function can be
entered any more, the effects allowed around include no effect that is not declared. -/
structure Exposed (ctx : EffectContext) (body effects : Ast) (isPure : Bool) : Prop where
  defined : ¬Undefined (.block, body)
  visible : ∀ b, Occurs types body b → Visible types (.block, body) b
  shallow : EffectContext.maxDepth ≤ ctx.fnStack.length →
    (∀ b, ctx.inferred.getLsbD b = true ∨ Visible types (.block, body) b →
      ctx.allowed.getLsbD b = true) →
    ∀ b, Occurs types body b → (effectsFromAst effects isPure).getLsbD b = true

variable {types} {ctx ctx' : EffectContext}

theorem subset_iff (e s : EffectFlags) :
    e.subset s = true ↔ ∀ b, e.getLsbD b = true → s.getLsbD b = true := by
  unfold EffectFlags.subset
  rw [decide_eq_true_iff]
  change e &&& ~~~s = 0#32 ↔ _
  constructor
  · intro h b hb
    have hbit := congrArg (BitVec.getLsbD · b) h
    have hlt : b < 32 := by
      by_contra hge
      rw [BitVec.getLsbD_of_ge e b (by omega)] at hb
      cases hb
    simpa [hb, hlt] using hbit
  · intro h
    refine BitVec.eq_of_getLsbD_eq fun b hb => ?_
    rw [BitVec.getLsbD_and, BitVec.getLsbD_not, BitVec.getLsbD_zero]
    cases he : e.getLsbD b with
    | false => rfl
    | true => simp [h b he]

theorem exitFn_true_iff : ctx.exitFn.1 = .true ↔
    ctx.fnStack ≠ [] ∧ ∀ b, ctx.inferred.getLsbD b = true → ctx.allowed.getLsbD b = true := by
  unfold EffectContext.exitFn
  cases hstack : ctx.fnStack with
  | nil => simp
  | cons frame rest =>
    rw [← subset_iff]
    simp

theorem enterFn_fnStack (ctx : EffectContext) (declared : EffectFlags) :
    (ctx.enterFn declared).fnStack ≠ [] := by
  unfold EffectContext.enterFn
  split_ifs with hdeep
  · exact List.ne_nil_of_length_pos (Nat.lt_of_lt_of_le (by decide) hdeep)
  · exact List.cons_ne_nil _ _

variable {l : SourceLoc} {name : String} {params : List Ast} {retType body effects : Ast}
  {isPure isMethod isForward : Bool}

/-- The check succeeds if the effects that are inferred are allowed. -/
theorem checkFn_true_iff (hdef : ¬Undefined (.block, body)) :
    (∃ ctx', checkFn types (.fnDecl l name params retType body effects isPure isMethod isForward)
      ctx = some (.true, ctx')) ↔
      ∀ b, (ctx.enterFn (effectsFromAst effects isPure)).inferred.getLsbD b = true ∨
        Visible types (.block, body) b →
        (ctx.enterFn (effectsFromAst effects isPure)).allowed.getLsbD b = true := by
  set entered := ctx.enterFn (effectsFromAst effects isPure) with hentered
  obtain ⟨hnone, hsome⟩ := infers types (.block, body) entered fun _ hb => hb.elim
  cases hrun : inferBlock types body entered with
  | none => exact absurd (hnone.1 hrun) hdef
  | some r =>
    obtain ⟨e, c⟩ := r
    obtain ⟨-, hinf, hall, hstack⟩ := hsome e c hrun
    have hexit : c.exitFn.1 = .true ↔ ∀ b, entered.inferred.getLsbD b = true ∨
        Visible types (.block, body) b → entered.allowed.getLsbD b = true := by
      rw [exitFn_true_iff, hstack, hall]
      simp only [hinf]
      exact and_iff_right (enterFn_fnStack ctx _)
    have hcheck : checkFn types
        (.fnDecl l name params retType body effects isPure isMethod isForward) ctx =
        some (c.exitFn.1, if c.exitFn.1 ≠ .true then c.exitFn.2.error l ("function '" ++ name ++
          "' declares " ++ (effectsFromAst effects isPure).print ++ " but has " ++
          c.exitFn.2.inferred.print) else c.exitFn.2) := by
      simp only [checkFn, bind, StateT.bind, modify, modifyGet, MonadStateOf.modifyGet,
        StateT.modifyGet, pure, ← hentered, hrun, Option.bind]
      split_ifs <;> rfl
    rw [← hexit, hcheck]
    simp

theorem sound_of_exposed (h : Exposed types ctx body effects isPure) :
    Sound types ctx (.fnDecl l name params retType body effects isPure isMethod isForward) body
      effects isPure := by
  obtain ⟨hnone, hsome⟩ := infers types (.block, body) ctx fun _ hb => hb.elim
  refine ⟨?_, fun ctx' hcheck b hb => ?_⟩
  · cases hrun : inferBlock types body ctx with
    | none => exact absurd (hnone.1 hrun) h.defined
    | some r =>
      obtain ⟨e, c⟩ := r
      exact ⟨e, c, rfl, fun b hb => ((hsome e c hrun).effects b).2 (.inr (h.visible b hb))⟩
  · have hallowed := (checkFn_true_iff h.defined).1 ⟨ctx', hcheck⟩
    unfold EffectContext.enterFn at hallowed
    split_ifs at hallowed with hdeep
    · exact h.shallow hdeep hallowed b hb
    · exact hallowed b (.inr (h.visible b hb))

theorem exposed_of_sound (h : Sound types ctx
    (.fnDecl l name params retType body effects isPure isMethod isForward) body effects isPure) :
    Exposed types ctx body effects isPure := by
  obtain ⟨hnone, hsome⟩ := infers types (.block, body) ctx fun _ hb => hb.elim
  obtain ⟨e, c, hrun, hall⟩ := h.inferred
  have hdef : ¬Undefined (.block, body) := fun hU => by
    have hstuck : inferBlock types body ctx = none := hnone.2 hU
    rw [hrun] at hstuck
    cases hstuck
  refine ⟨hdef, fun b hb => ?_, fun hdeep hallowed => ?_⟩
  · exact (((hsome e c hrun).effects b).1 (hall b hb)).resolve_left id
  · obtain ⟨ctx', hcheck⟩ : ∃ ctx', checkFn types
        (.fnDecl l name params retType body effects isPure isMethod isForward) ctx =
          some (.true, ctx') := by
      rw [checkFn_true_iff hdef, EffectContext.enterFn, if_pos hdeep]
      exact hallowed
    exact h.checked ctx' hcheck

/-- Inference and check are sound for a function exactly where each effect in its body is exposed
to them. -/
theorem inference_sound_iff : Sound types ctx
    (.fnDecl l name params retType body effects isPure isMethod isForward) body effects isPure ↔
      Exposed types ctx body effects isPure :=
  ⟨exposed_of_sound, sound_of_exposed⟩

/-- `{ (a / b) as i32 }`. -/
def castDivision : Ast :=
  .block .zero [] (.cast .zero (.binary .zero .slash (.ident .zero "a") (.ident .zero "b"))
    (.primType .zero .i32))

/-- A function that is declared pure and divides. -/
theorem not_sound_castDivision : ¬Sound (some fun _ => .none) .init
    (.fnDecl .zero "f" [] .null castDivision .null true false false) castDivision .null true := by
  intro h
  obtain ⟨e, ctx', hrun, hall⟩ := h.inferred
  have hnone :
      (inferBlock (some fun _ => .none) castDivision .init).map Prod.fst = some .none := rfl
  rw [hrun] at hnone
  cases hnone
  have hbit := hall 0 ⟨_, .head List.mem_cons_self (.single List.mem_cons_self), rfl⟩
  cases hbit

end Effects

end Seraph
