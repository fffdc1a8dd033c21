import Mathlib.Tactic.SplitIfs
import Seraph.ProofTable

/-!
# The obligations that are generated

A pass adds the obligations of exactly the nodes that it visits (`adds_generate`). Every expression
that needs an obligation has got one if and only if the pass visits it and takes it for what it is
(`obligations_complete_iff`), as long as the arena has room for what the pass asks of it.
-/

namespace Seraph

open Relation

namespace ProofTable

/-- The two functions of the pass. -/
inductive Pass where
  | expr
  | stmt
deriving DecidableEq, Repr

/-- The body of an arm. -/
def armBody : Ast → Option Ast
  | .matchArm _ _ _ body => some body
  | _ => none

/-- The nodes that a function of the pass goes on with. -/
def visits : Pass × Ast → List (Pass × Ast)
  | (.expr, .index _ object i) => [(.expr, object), (.expr, i)]
  | (.expr, .voidProp _ operand _) => [(.expr, operand)]
  | (.expr, .voidAssert _ operand) => [(.expr, operand)]
  | (.expr, .binary _ _ left right) => [(.expr, left), (.expr, right)]
  | (.expr, .call _ callee args) => (.expr, callee) :: args.map (Prod.mk .expr)
  | (.expr, .block _ stmts expr) => stmts.map (Prod.mk .stmt) ++ [(.expr, expr)]
  | (.expr, .ifExpr _ cond thenBranch elseBranch) =>
    [(.expr, cond), (.expr, thenBranch), (.expr, elseBranch)]
  | (.expr, .matchExpr _ scrutinee arms) =>
    (.expr, scrutinee) :: (arms.filterMap armBody).map (Prod.mk .expr)
  | (.expr, .unary _ _ operand) => [(.expr, operand)]
  | (.expr, .field _ object _) => [(.expr, object)]
  | (.stmt, .exprStmt _ expr) => [(.expr, expr)]
  | (.stmt, .returnStmt _ expr) => [(.expr, expr)]
  | (.stmt, .whileStmt _ cond body) => [(.expr, cond), (.stmt, body)]
  | (.stmt, .forStmt _ _ iterable body) => [(.expr, iterable), (.stmt, body)]
  | (.stmt, .letDecl _ _ _ init _ _) | (.stmt, .constDecl _ _ _ init _ _) => [(.expr, init)]
  | (.stmt, .block _ stmts expr) => stmts.map (Prod.mk .stmt) ++ [(.expr, expr)]
  | (.stmt, .persist _ body) | (.stmt, .aether _ body) => [(.stmt, body)]
  | (.stmt, .recover _ tryBody elseBody) => [(.stmt, tryBody), (.stmt, elseBody)]
  | _ => []

/-- The obligation that a function of the pass adds for a node. -/
def emits : Pass × Ast → Option ProofKind
  | (.expr, .index ..) => some .bounds
  | (.expr, .voidProp ..) | (.expr, .voidAssert ..) => some .void
  | (.expr, .binary _ op _ _) => if op = .slash ∨ op = .percent then some .void else none
  | (.stmt, .letDecl ..) | (.stmt, .constDecl ..) => some .type
  | (.stmt, .persist ..) | (.stmt, .aether ..) => some .substrate
  | (.stmt, .recover ..) => some .void
  | _ => none

/-- A node is visited from another one. -/
def Visited : Pass × Ast → Pass × Ast → Prop :=
  ReflTransGen fun q c => c ∈ visits q

/-- The counters are the numbers of proofs with each status. -/
structure Counted (t : ProofTable) : Prop where
  count : t.count = t.proofs.length
  proven : t.provenCount = t.proofs.countP (·.status = .proven)
  runtime : t.runtimeCount = t.proofs.countP (·.status = .runtime)
  failed : t.failedCount = t.proofs.countP (·.status = .failed)

variable {fits : ℕ → Bool}

/-- A table gets the obligations that `S` holds of, as far as there is room. -/
structure Adds (fits : ℕ → Bool) (S : ProofKind → SourceLoc → Prop) (t t' : ProofTable) : Prop where
  requests : t.requests ≤ t'.requests
  kept : ∀ p ∈ t.proofs, p ∈ t'.proofs
  new : ∀ p ∈ t'.proofs, p ∈ t.proofs ∨ S p.kind p.loc
  all : (∀ n, t.requests ≤ n → n < t'.requests → fits n = true) →
    ∀ k l, S k l → ∃ p ∈ t'.proofs, p.kind = k ∧ p.loc = l
  counted : t.Counted → t'.Counted

variable {S S' : ProofKind → SourceLoc → Prop} {t t' t'' : ProofTable} {proof : Proof}

/-- Nothing is added where nothing has to be. -/
theorem Adds.refl (h : ∀ k l, ¬S k l) : Adds fits S t t :=
  ⟨Nat.le_refl _, fun _ hp => hp, fun _ hp => .inl hp, fun _ k l hS => absurd hS (h k l),
    fun hc => hc⟩

/-- What two passes add one after the other. -/
theorem Adds.trans (h : Adds fits S t t') (h' : Adds fits S' t' t'') :
    Adds fits (fun k l => S k l ∨ S' k l) t t'' where
  requests := Nat.le_trans h.requests h'.requests
  kept p hp := h'.kept p (h.kept p hp)
  new p hp := by
    rcases h'.new p hp with hp | hS
    · exact (h.new p hp).imp_right .inl
    · exact .inr (.inr hS)
  all hfits k l hS := by
    rcases hS with hS | hS
    · obtain ⟨p, hp, heq⟩ := h.all
        (fun n hle hlt => hfits n hle (Nat.lt_of_lt_of_le hlt h'.requests)) k l hS
      exact ⟨p, h'.kept p hp, heq⟩
    · exact h'.all (fun n hle hlt => hfits n (Nat.le_trans h.requests hle) hlt) k l hS
  counted hc := h'.counted (h.counted hc)

theorem Adds.congr (h : Adds fits S t t') (hS : ∀ k l, S k l ↔ S' k l) : Adds fits S' t t' where
  requests := h.requests
  kept := h.kept
  new p hp := (h.new p hp).imp_right (hS _ _).1
  all hfits k l hkl := h.all hfits k l ((hS k l).2 hkl)
  counted := h.counted

/-! ## One obligation -/

/-- The counters are right after a proof is added. -/
theorem counted_add (h : t.Counted) (proof : Proof) : (t.add fits proof).Counted := by
  have hcons : ∀ s : ProofStatus, (if proof.status = s then t.proofs.countP (·.status = s) + 1
      else t.proofs.countP (·.status = s)) = (proof :: t.proofs).countP (·.status = s) := by
    intro s
    rw [List.countP_cons]
    by_cases hs : proof.status = s <;> simp [hs]
  unfold add
  dsimp only
  by_cases hfits : fits t.requests = true
  · rw [if_pos hfits, h.count, h.proven, h.runtime, h.failed, hcons, hcons, hcons]
    exact ⟨rfl, rfl, rfl, rfl⟩
  · rw [if_neg hfits]
    exact ⟨h.count, h.proven, h.runtime, h.failed⟩

/-- A proof is added at the front, if the arena has room. -/
theorem proofs_add (t : ProofTable) (proof : Proof) : (t.add fits proof).proofs =
    if fits t.requests then proof :: t.proofs else t.proofs := by
  unfold add
  dsimp only
  by_cases hfits : fits t.requests = true
  · rw [if_pos hfits, if_pos hfits]
  · rw [if_neg hfits, if_neg hfits]

/-- Every proof is one request to the arena. -/
theorem requests_add (t : ProofTable) (proof : Proof) :
    (t.add fits proof).requests = t.requests + 1 := by
  unfold add
  dsimp only
  split_ifs <;> rfl

/-- Adding a proof adds its kind at its location. -/
theorem adds_add (fits : ℕ → Bool) (t : ProofTable) (proof : Proof) :
    Adds fits (fun k l => k = proof.kind ∧ l = proof.loc) t (t.add fits proof) where
  requests := by
    rw [requests_add]
    exact Nat.le_succ _
  kept p hp := by
    rw [proofs_add]
    split_ifs
    · exact List.mem_cons_of_mem _ hp
    · exact hp
  new p hp := by
    rw [proofs_add] at hp
    split_ifs at hp
    · rcases List.mem_cons.1 hp with rfl | hp
      · exact .inr ⟨rfl, rfl⟩
      · exact .inl hp
    · exact .inl hp
  all := by
    rintro hfits k l ⟨rfl, rfl⟩
    have hlt : t.requests < (t.add fits proof).requests := by
      rw [requests_add]
      exact Nat.lt_succ_self _
    rw [proofs_add, if_pos (hfits _ (Nat.le_refl _) hlt)]
    exact ⟨proof, List.mem_cons_self, rfl, rfl⟩
  counted h := counted_add h proof

/-- So does adding a proof with a text of its own. -/
theorem adds_addDescribed (fits : ℕ → Bool) (t : ProofTable) (proof : Proof) (desc : String) :
    Adds fits (fun k l => k = proof.kind ∧ l = proof.loc) t (t.addDescribed fits proof desc) := by
  have h := adds_add fits { t with requests := t.requests + 1 }
    { proof with description := if fits t.requests then some desc else none }
  exact ⟨Nat.le_trans (Nat.le_succ _) h.requests, h.kept, h.new,
    fun hfits => h.all fun n hle => hfits n (Nat.le_trans (Nat.le_succ _) hle),
    fun hc => h.counted ⟨hc.count, hc.proven, hc.runtime, hc.failed⟩⟩

/-! ## The pass -/

/-- The function of the pass for a node. -/
def generateAt (fits : ℕ → Bool) (t : ProofTable) : Pass × Ast → ProofTable
  | (.expr, expr) => t.generateExpr fits expr
  | (.stmt, stmt) => t.generateStmt fits stmt

/-- The pass goes down the tree. -/
theorem sizeOf_visits {q c : Pass × Ast} (h : c ∈ visits q) : sizeOf c.2 < sizeOf q.2 := by
  obtain ⟨pass, node⟩ := q
  have hlist : ∀ l : List Ast, c.2 ∈ l → sizeOf c.2 < sizeOf l := fun l hl =>
    List.sizeOf_lt_of_mem hl
  have harms : ∀ arms : List Ast, c.2 ∈ arms.filterMap armBody → sizeOf c.2 < sizeOf arms := by
    intro arms hc
    obtain ⟨arm, harm, hbody⟩ := List.mem_filterMap.1 hc
    have hlt := List.sizeOf_lt_of_mem harm
    cases arm <;> simp only [armBody] at hbody <;> grind
  cases pass <;> cases node <;> simp only [visits] at h <;> grind

/-- The loop over expressions is a fold of the pass. -/
theorem generateExprs_eq (t : ProofTable) (args : List Ast) :
    t.generateExprs fits args = (args.map (Prod.mk .expr)).foldl (generateAt fits) t := by
  induction args generalizing t with
  | nil => rfl
  | cons arg args ih => exact ih (t.generateExpr fits arg)

/-- The loop over statements is a fold of the pass. -/
theorem generateStmts_eq (t : ProofTable) (stmts : List Ast) :
    t.generateStmts fits stmts = (stmts.map (Prod.mk .stmt)).foldl (generateAt fits) t := by
  induction stmts generalizing t with
  | nil => rfl
  | cons stmt stmts ih => exact ih (t.generateStmt fits stmt)

/-- The loop over arms is a fold of the pass over their bodies. -/
theorem generateArms_eq (t : ProofTable) (arms : List Ast) :
    t.generateArms fits arms =
      ((arms.filterMap armBody).map (Prod.mk .expr)).foldl (generateAt fits) t := by
  induction arms generalizing t with
  | nil => rfl
  | cons arm arms ih =>
    cases arm with
    | matchArm l pat guard body => exact ih (t.generateExpr fits body)
    | _ => exact ih t

theorem adds_emit {q : Pass × Ast} (hkind : emits q = some proof.kind) (hloc : q.2.loc = proof.loc)
    (h : Adds fits (fun k l => k = proof.kind ∧ l = proof.loc) t t') :
    Adds fits (fun k l => emits q = some k ∧ q.2.loc = l) t t' := by
  refine h.congr fun k l => ?_
  rw [hkind, hloc, Option.some_inj]
  exact and_congr eq_comm eq_comm

/-- A node without an obligation adds nothing itself. -/
theorem adds_none {q : Pass × Ast} (h : emits q = none) (t : ProofTable) :
    Adds fits (fun k l => emits q = some k ∧ q.2.loc = l) t t := by
  refine .refl fun k l hS => ?_
  rw [h] at hS
  cases hS.1

/-- A node gets its obligation before or after those that are visited from it. -/
def Stepwise (fits : ℕ → Bool) (q : Pass × Ast) (t t' : ProofTable) : Prop :=
  ∃ e : ProofTable → ProofTable,
    (∀ t, Adds fits (fun k l => emits q = some k ∧ q.2.loc = l) t (e t)) ∧
      (t' = (visits q).foldl (generateAt fits) (e t) ∨
        t' = e ((visits q).foldl (generateAt fits) t))

/-- An expression adds its own obligation, and then those of the nodes it visits. -/
theorem stepwise_expr (t : ProofTable) (node : Ast) :
    Stepwise fits (.expr, node) t (t.generateExpr fits node) := by
  cases node with
  | index l object i =>
    exact ⟨fun t => t.addBounds fits l 0 0 0xFFFFFFFFFFFFFFFF .runtime,
      fun t => adds_emit rfl rfl (adds_addDescribed ..), .inl rfl⟩
  | voidProp l operand defaultVal =>
    exact ⟨fun t => t.addVoid fits l _ .proven,
      fun t => adds_emit rfl rfl (adds_addDescribed ..), .inl rfl⟩
  | voidAssert l operand =>
    exact ⟨fun t => t.addVoid fits l _ .runtime,
      fun t => adds_emit rfl rfl (adds_addDescribed ..), .inl rfl⟩
  | binary l op left right =>
    refine ⟨fun t => if op = .slash ∨ op = .percent then t.addVoid fits l _ .runtime else t,
      fun t => ?_, .inl rfl⟩
    dsimp only
    by_cases hop : op = .slash ∨ op = .percent
    · rw [if_pos hop]
      refine adds_emit ?_ rfl (adds_addDescribed ..)
      exact if_pos hop
    · rw [if_neg hop]
      refine adds_none ?_ t
      exact if_neg hop
  | call l callee args =>
    exact ⟨id, adds_none rfl, .inl (generateExprs_eq _ args)⟩
  | block l stmts expr =>
    refine ⟨id, adds_none rfl, .inl ?_⟩
    rw [visits, List.foldl_append, ← generateStmts_eq]
    rfl
  | matchExpr l scrutinee arms =>
    exact ⟨id, adds_none rfl, .inl (generateArms_eq _ arms)⟩
  | _ => exact ⟨id, adds_none rfl, .inl rfl⟩

/-- A statement does so too. -/
theorem stepwise_stmt (t : ProofTable) (node : Ast) :
    Stepwise fits (.stmt, node) t (t.generateStmt fits node) := by
  cases node with
  | letDecl l name type init isMut isConst | constDecl l name type init isMut isConst =>
    exact ⟨fun t => t.addType fits l _ .proven,
      fun t => adds_emit rfl rfl (adds_addDescribed ..), .inr rfl⟩
  | block l stmts expr =>
    refine ⟨id, adds_none rfl, .inl ?_⟩
    rw [visits, List.foldl_append, ← generateStmts_eq]
    rfl
  | persist l body | aether l body =>
    exact ⟨fun t => t.add fits _, fun t => adds_emit rfl rfl (adds_add ..), .inl rfl⟩
  | recover l tryBody elseBody =>
    exact ⟨fun t => t.addVoid fits l _ .proven,
      fun t => adds_emit rfl rfl (adds_addDescribed ..), .inl rfl⟩
  | _ => exact ⟨id, adds_none rfl, .inl rfl⟩

theorem stepwise (fits : ℕ → Bool) (q : Pass × Ast) (t : ProofTable) :
    Stepwise fits q t (t.generateAt fits q) := by
  obtain ⟨pass, node⟩ := q
  cases pass with
  | expr => exact stepwise_expr t node
  | stmt => exact stepwise_stmt t node

/-- The obligations of the nodes that are visited. -/
def Emitted (q : Pass × Ast) (k : ProofKind) (l : SourceLoc) : Prop :=
  ∃ c, Visited q c ∧ emits c = some k ∧ c.2.loc = l

/-- An obligation below a node is its own or is below a node that it visits. -/
theorem emitted_iff (q : Pass × Ast) (k : ProofKind) (l : SourceLoc) :
    Emitted q k l ↔ (emits q = some k ∧ q.2.loc = l) ∨ ∃ c ∈ visits q, Emitted c k l := by
  constructor
  · rintro ⟨c, hc, hemit⟩
    rcases ReflTransGen.cases_head hc with rfl | ⟨d, hd, hdc⟩
    · exact .inl hemit
    · exact .inr ⟨d, hd, c, hdc, hemit⟩
  · rintro (hemit | ⟨d, hd, c, hdc, hemit⟩)
    · exact ⟨q, .refl, hemit⟩
    · exact ⟨c, .head hd hdc, hemit⟩

/-- A loop adds what its rounds add. -/
theorem adds_foldl {qs : List (Pass × Ast)}
    (h : ∀ q ∈ qs, ∀ t, Adds fits (Emitted q) t (generateAt fits t q)) (t : ProofTable) :
    Adds fits (fun k l => ∃ q ∈ qs, Emitted q k l) t (qs.foldl (generateAt fits) t) := by
  induction qs generalizing t with
  | nil => exact .refl fun k l ⟨q, hq, _⟩ => absurd hq List.not_mem_nil
  | cons q qs ih =>
    have hrest := ih (fun c hc => h c (List.mem_cons_of_mem q hc)) (generateAt fits t q)
    refine ((h q List.mem_cons_self t).trans hrest).congr fun k l => ?_
    simp only [List.mem_cons, exists_eq_or_imp]

/-- From a node, the obligations of all that is visited are added. -/
theorem adds_generateAt (fits : ℕ → Bool) (q : Pass × Ast) (t : ProofTable) :
    Adds fits (Emitted q) t (t.generateAt fits q) := by
  obtain ⟨e, he, heq⟩ := stepwise fits q t
  have hfold := adds_foldl fun c (_ : c ∈ visits q) t => adds_generateAt fits c t
  rcases heq with heq | heq
  · rw [heq]
    exact ((he t).trans (hfold (e t))).congr fun k l => (emitted_iff q k l).symm
  · rw [heq]
    refine ((hfold t).trans (he _)).congr fun k l => ?_
    rw [emitted_iff, or_comm]
termination_by sizeOf q.2
decreasing_by exact sizeOf_visits ‹_›

/-! ## Modules -/

/-- The body of a function. -/
def fnBody : Ast → Option Ast
  | .fnDecl _ _ _ _ body _ _ _ _ => some body
  | _ => none

/-- The declarations of a module. -/
def moduleDecls : Ast → List Ast
  | .module _ decls => decls
  | _ => []

/-- A node is visited for a module. -/
def VisitedIn (m : Ast) (q : Pass × Ast) : Prop :=
  ∃ f ∈ moduleDecls m, ∃ body, fnBody f = some body ∧ Visited (.stmt, body) q

theorem adds_fnBody {f body : Ast} (h : fnBody f = some body) (t : ProofTable) :
    Adds fits (fun k l => (k = .effect ∧ l = f.loc) ∨ Emitted (.stmt, body) k l) t
      (t.generateFn fits f) := by
  cases f with
  | fnDecl l name params retType b effects isPure isMethod isForward =>
    cases h
    have heffect := adds_add fits t ⟨.effect, .proven, l, some (if (0 : BitVec 32) &&&
      ~~~(if isPure then 0 else 0xFF) = 0 then "effects within allowed set"
      else "effect violation detected"), .effects 0 (if isPure then 0 else 0xFF)⟩
    exact heffect.trans (adds_generateAt fits (.stmt, body) _)
  | _ => cases h

/-- The obligations of a function. -/
def EmittedFn (f : Ast) (k : ProofKind) (l : SourceLoc) : Prop :=
  ∃ body, fnBody f = some body ∧ ((k = .effect ∧ l = f.loc) ∨ Emitted (.stmt, body) k l)

/-- What the pass adds for a function. -/
theorem adds_generateFn (f : Ast) (t : ProofTable) :
    Adds fits (EmittedFn f) t (t.generateFn fits f) := by
  cases h : fnBody f with
  | none =>
    have heq : t.generateFn fits f = t := by
      cases f <;> first | rfl | cases h
    rw [heq]
    refine .refl fun k l ⟨body, hbody, _⟩ => ?_
    rw [h] at hbody
    cases hbody
  | some body =>
    refine (adds_fnBody h t).congr fun k l => ?_
    exact ⟨fun hS => ⟨body, h, hS⟩, fun ⟨b, hb, hS⟩ => by
      rw [h] at hb
      cases hb
      exact hS⟩

theorem adds_generateFns (fs : List Ast) (t : ProofTable) :
    Adds fits (fun k l => ∃ f ∈ fs, EmittedFn f k l) t
      (fs.foldl (fun t f => t.generateFn fits f) t) := by
  induction fs generalizing t with
  | nil => exact .refl fun k l ⟨f, hf, _⟩ => absurd hf List.not_mem_nil
  | cons f fs ih =>
    refine ((adds_generateFn f t).trans (ih _)).congr fun k l => ?_
    simp only [List.mem_cons, exists_eq_or_imp]

/-- What the pass adds for a module. -/
theorem adds_generate (fits : ℕ → Bool) (m : Ast) (t : ProofTable) :
    Adds fits (fun k l => ∃ f ∈ moduleDecls m, EmittedFn f k l) t (t.generate fits m) := by
  cases m with
  | module l decls => exact adds_generateFns decls t
  | _ => exact .refl fun k l ⟨f, hf, _⟩ => absurd hf List.not_mem_nil

/-! ## Complete obligations -/

/-- The obligation that a node needs. -/
def needs : Ast → Option ProofKind
  | .index .. => some .bounds
  | .binary _ op _ _ =>
    if op = .slash ∨ op = .percent ∨ op = .slashAssign ∨ op = .percentAssign then some .void
    else none
  | .voidAssert .. => some .void
  | .persist .. | .aether .. => some .substrate
  | _ => none

/-- A node is part of the body of a function in the module. -/
def InBody (m x : Ast) : Prop :=
  ∃ f body, m.Part f ∧ fnBody f = some body ∧ body.Part x

/-- What needs an obligation has got one, and the counters are right. -/
structure Complete (fits : ℕ → Bool) (m : Ast) : Prop where
  obligation : ∀ x k, InBody m x → needs x = some k →
    ∃ p ∈ (init.generate fits m).proofs, p.kind = k ∧ p.loc = x.loc
  add : ∀ t proof, Counted t → Counted (t.add fits proof)
  counted : (init.generate fits m).Counted

/-- The arena has room for every request that the pass makes. -/
def HasRoom (fits : ℕ → Bool) (m : Ast) : Prop :=
  ∀ n < (init.generate fits m).requests, fits n = true

/-- What needs an obligation is visited, by the function of the pass that adds it. -/
def Covered (m : Ast) : Prop :=
  ∀ x k, InBody m x → needs x = some k → ∃ pass, VisitedIn m (pass, x) ∧ emits (pass, x) = some k

/-- Where a node needs an obligation, no other one with such an obligation is visited. -/
def Apart (m : Ast) : Prop :=
  ∀ x k q, InBody m x → needs x = some k → VisitedIn m q → emits q = some k → q.2.loc = x.loc →
    q.2 = x

variable {m : Ast}

/-- An empty table is counted. -/
theorem counted_init : init.Counted :=
  ⟨rfl, rfl, rfl, rfl⟩

/-- Where locations differ and no proof is missing, all nodes with an obligation are reached. -/
theorem covered_of_complete (hapart : Apart m) (h : Complete fits m) : Covered m := by
  intro x k hx hk
  obtain ⟨p, hp, rfl, hloc⟩ := h.obligation x k hx hk
  rcases (adds_generate fits m init).new p hp with hp | ⟨f, hf, body, hbody, hemitted⟩
  · cases hp
  · rcases hemitted with ⟨heff, -⟩ | ⟨q, hq, hemit, hql⟩
    · rw [heff] at hk
      cases x <;> simp only [needs, reduceCtorEq, Option.some_inj] at hk
      split at hk <;> cases hk
    · have hvisit : VisitedIn m q := ⟨f, hf, body, hbody, hq⟩
      obtain rfl := hapart x _ q hx hk hvisit hemit (hql.trans hloc)
      exact ⟨q.1, hvisit, hemit⟩

/-- Every expression that needs an obligation gets one where the pass visits all of them. Where no
two obligations of a kind have one location, it visits them all if they get one. -/
theorem obligations_complete_iff (m : Ast) :
    (Apart m → Complete fits m → Covered m) ∧
      (HasRoom fits m → Covered m → Complete fits m) := by
  refine ⟨covered_of_complete, fun hroom hcov => ⟨fun x k hx hk => ?_, fun t proof h =>
    counted_add h proof, (adds_generate fits m init).counted counted_init⟩⟩
  obtain ⟨pass, ⟨f, hf, body, hbody, hvisit⟩, hemit⟩ := hcov x k hx hk
  exact (adds_generate fits m init).all (fun n _ hlt => hroom n hlt) k x.loc
    ⟨f, hf, body, hbody, .inr ⟨(pass, x), hvisit, hemit, rfl⟩⟩

/-- `fn f() { x.m(a[0]) }`. -/
def indexArgument : Ast :=
  .module .zero [.fnDecl .zero "f" [] .null
    (.block .zero [] (.methodCall .zero (.ident .zero "x") "m"
      [.index .zero (.ident .zero "a") (.intLit .zero 0 .none)])) .null false false false]

/-- An index expression among the arguments of a method call is not reached. -/
theorem not_complete_indexArgument : ¬Complete (fun _ => true) indexArgument := by
  intro h
  have hbody : InBody indexArgument (.index .zero (.ident .zero "a") (.intLit .zero 0 .none)) :=
    ⟨_, _, .single List.mem_cons_self, rfl,
      .head (List.mem_cons_self) (.single (List.mem_cons_of_mem _ List.mem_cons_self))⟩
  obtain ⟨p, hp, hkind, -⟩ := h.obligation _ .bounds hbody rfl
  have hnone : ∀ p ∈ (init.generate (fun _ => true) indexArgument).proofs, p.kind ≠ .bounds := by
    decide
  exact hnone p hp hkind

end ProofTable

end Seraph
