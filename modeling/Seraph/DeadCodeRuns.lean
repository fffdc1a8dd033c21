import Seraph.DeadCode

/-!
# Executions without the dead code

The pass removes nothing that an essential instruction is or depends on only if each such
instruction counts as one with side effects or is needed by one. If so, and if the needed values
have room in the live set, every execution is the same before and after (`eliminates_dead_iff`).
-/

namespace Seraph

open Relation

namespace CirModule

variable (m : CirModule) (fn : CirFunction)

/-- The links of the lists put an instruction into one function. -/
def Owned : Prop :=
  m.functions.Pairwise fun f g => ∀ i ∈ f.instrs, i ∉ g.instrs

/-- The pass has removed an instruction. -/
def Removed (d : InstrPtr) : Prop :=
  d ∈ fn.instrs ∧ (m.instrs d).opcode ≠ .nop ∧ (m.eliminateDeadCode.instrs d).opcode = .nop

/-- An instruction has an operand that another one defines. -/
def Uses (i d : InstrPtr) : Prop :=
  d ∈ fn.instrs ∧ (m.instrs d).opcode ≠ .nop ∧ ∃ v, (m.instrs d).result = some v ∧
    some v ∈ (m.instrs i).operands ∧ (m.values v).kind ≠ .const

/-- What is removed is not essential, no essential instruction depends on it, and no execution sees
the difference. -/
structure EliminatesDead : Prop where
  inessential : ∀ d, m.Removed fn d → (m.instrs d).opcode.isEssential = false
  unused : ∀ d, m.Removed fn d → ∀ i ∈ fn.instrs, (m.instrs i).opcode ≠ .nop →
    (m.instrs i).opcode.isEssential = true → ¬TransGen (m.Uses fn) i d
  same : ∀ {V M : Type} (meaning : Meaning V M), ∀ b ∈ fn.blocks, ∀ previous memory env n,
    (m.runFor fn meaning n (enter fn b.id previous memory env)).seen =
      (m.eliminateDeadCode.runFor fn meaning n (enter fn b.id previous memory env)).seen

/-- An instruction has side effects, or an instruction with side effects needs its result. -/
def Required (d : InstrPtr) : Prop :=
  m.hasSideEffects d = true ∨ ∀ v, (m.instrs d).result = some v → m.Needed fn v

/-- The essential instructions are required, and so is what they use. -/
def Covered : Prop :=
  ∀ i ∈ fn.instrs, (m.instrs i).opcode ≠ .nop → (m.instrs i).opcode.isEssential = true →
    m.Required fn i ∧ ∀ d, m.Uses fn i d → m.Required fn d

variable {m fn} {i d : InstrPtr} {v : ValuePtr}

/-! ## What is removed -/

theorem eliminateDeadCode_instrs (howned : m.Owned) (hfn : fn ∈ m.functions) (hi : i ∈ fn.instrs) :
    (m.Removable (m.liveSet fn) i →
      m.eliminateDeadCode.instrs i = { m.instrs i with opcode := .nop }) ∧
    (¬m.Removable (m.liveSet fn) i → m.eliminateDeadCode.instrs i = m.instrs i) :=
  (foldl_eliminateFunction howned m).2.2 fn hfn i hi

theorem removed_iff (howned : m.Owned) (hfn : fn ∈ m.functions) :
    m.Removed fn d ↔ d ∈ fn.instrs ∧ m.Removable (m.liveSet fn) d := by
  refine and_congr_right fun hd => ?_
  obtain ⟨hgone, hkept⟩ := eliminateDeadCode_instrs howned hfn hd
  refine ⟨fun ⟨hnop, hnop'⟩ => ?_, fun hrem => ⟨hrem.1, by rw [hgone hrem]⟩⟩
  by_contra hrem
  rw [hkept hrem] at hnop'
  exact hnop hnop'

theorem removable_of_not_required (hnop : (m.instrs d).opcode ≠ .nop) (h : ¬m.Required fn d) :
    m.Removable (m.liveSet fn) d := by
  unfold Required at h
  push Not at h
  obtain ⟨heffect, v, hv, hneed⟩ := h
  exact ⟨hnop, Bool.eq_false_iff.2 heffect, v, hv,
    fun hmem => hneed ((live_liveSet m fn).1.needed v hmem)⟩

theorem not_removable_of_required (hfit : m.NeededFit fn) (h : m.Required fn d) :
    ¬m.Removable (m.liveSet fn) d := by
  rintro ⟨-, heffect, v, hv, hmem⟩
  rcases h with h | h
  · rw [heffect] at h
    cases h
  · exact hmem ((mem_liveSet_iff hfit).2 (h v hv))

/-- What a required instruction uses is required, where it has side effects or a result. -/
theorem Required.uses (h : m.Required fn i) (hi : i ∈ fn.instrs)
    (hnop : (m.instrs i).opcode ≠ .nop)
    (hshown : m.hasSideEffects i = true ∨ ∃ v, (m.instrs i).result = some v)
    (huses : m.Uses fn i d) : m.Required fn d := by
  obtain ⟨-, -, w, hw, hmem, hconst⟩ := huses
  refine .inr fun w' hw' => ?_
  obtain rfl : w = w' := Option.some.inj (hw.symm.trans hw')
  rcases h with heffect | hneed
  · exact .effect hi hnop heffect hmem hconst
  · rcases hshown with heffect | ⟨v, hv⟩
    · exact .effect hi hnop heffect hmem hconst
    · exact .result hi hnop hv (hneed v hv) hmem hconst

theorem required_of_not_removable (hnop : (m.instrs i).opcode ≠ .nop)
    (h : ¬m.Removable (m.liveSet fn) i) : m.Required fn i := by
  by_contra hreq
  exact h (removable_of_not_required hnop hreq)

theorem Covered.required (h : m.Covered fn) (hi : i ∈ fn.instrs)
    (hnop : (m.instrs i).opcode ≠ .nop) (hess : (m.instrs i).opcode.isEssential = true)
    (huses : TransGen (m.Uses fn) i d) : m.Required fn d := by
  induction huses with
  | single huses => exact (h i hi hnop hess).2 _ huses
  | tail hpath huses ih =>
    obtain ⟨-, -, hmem, hnop, v, hv, -⟩ := TransGen.tail'_iff.1 hpath
    exact ih.uses hmem hnop (.inr ⟨v, hv⟩) huses

/-! ## One instruction -/

/-- No removed instruction defines the value. -/
def Intact (m : CirModule) (fn : CirFunction) (v : ValuePtr) : Prop :=
  ∀ d ∈ fn.instrs, m.Removable (m.liveSet fn) d → (m.instrs d).result ≠ some v

/-- Two executions are at the same place, with the same memory and the same intact values. -/
structure Agree {V M : Type*} (m : CirModule) (fn : CirFunction) (p q : Point V M) : Prop where
  block : q.block = p.block
  rest : q.rest = p.rest
  previous : q.previous = p.previous
  memory : q.memory = p.memory
  inside : ∀ i ∈ p.rest, i ∈ fn.instrs
  env : ∀ v, m.Intact fn v → q.env v = p.env v

/-- Two executions go on together, or have both ended in the same way. -/
inductive AgreeAt {V M : Type*} (m : CirModule) (fn : CirFunction) :
    Progress V M → Progress V M → Prop
  | running {p q : Point V M} (h : Agree m fn p q) : AgreeAt m fn (.running p) (.running q)
  | left (value : V) (memory : M) : AgreeAt m fn (.left value memory) (.left value memory)
  | stuck (memory : M) : AgreeAt m fn (.stuck memory) (.stuck memory)

section Simulation

variable {V M : Type*} {meaning : Meaning V M} {p q : Point V M} {memory : M}
  {block previous : BlockPtr} {env env' : ValuePtr → V} {rest : List InstrPtr} {value : V}

theorem agreeAt_enter (h : ∀ v, m.Intact fn v → env' v = env v) :
    AgreeAt m fn (enter fn block previous memory env) (enter fn block previous memory env') := by
  unfold enter
  cases hfind : fn.blocks.find? fun b => b.id == block with
  | none => exact .stuck memory
  | some b =>
    refine .running ⟨rfl, rfl, rfl, rfl, fun i hi => ?_, h⟩
    exact List.mem_flatMap.2 ⟨b, List.mem_of_find?_eq_some hfind, hi⟩

theorem define_of_ne (h : (m.instrs i).result ≠ some v) :
    define env (m.instrs i).result value v = env v := by
  unfold define
  cases hr : (m.instrs i).result with
  | none => rfl
  | some w =>
    have hne : v ≠ w := by
      rintro rfl
      exact h hr
    exact Function.update_of_ne hne value env

theorem define_congr (h : ∀ v, m.Intact fn v → env' v = env v) (hv : m.Intact fn v)
    (result : Option ValuePtr) : define env' result value v = define env result value v := by
  unfold define
  cases result with
  | none => exact h v hv
  | some w =>
    rcases eq_or_ne v w with rfl | hne
    · dsimp only
      rw [Function.update_self, Function.update_self]
    · dsimp only
      rw [Function.update_of_ne hne, Function.update_of_ne hne, h v hv]

/-- The operands of an instruction have the same values, where no removed one defines them. -/
theorem operandValues_congr {m' : CirModule} (hvalues : m'.values = m.values)
    (hinstr : m'.instrs i = m.instrs i) (h : ∀ v, m.Intact fn v → env' v = env v)
    (hops : ∀ v, some v ∈ (m.instrs i).operands → (m.values v).kind ≠ .const → m.Intact fn v) :
    m'.operandValues meaning env' i = m.operandValues meaning env i := by
  unfold operandValues
  rw [hinstr]
  refine List.map_congr_left fun o ho => ?_
  cases o with
  | none => rfl
  | some v =>
    refine congrArg some ?_
    unfold operandValue
    rw [hvalues]
    split_ifs with hconst
    · rfl
    · exact h v (hops v ho hconst)

/-- What a required instruction uses is intact. -/
theorem intact_of_required (hfit : m.NeededFit fn) (hreq : ∀ d, m.Uses fn i d → m.Required fn d)
    (hv : some v ∈ (m.instrs i).operands) (hconst : (m.values v).kind ≠ .const) :
    m.Intact fn v := fun d hd hrem hdef =>
  not_removable_of_required hfit (hreq d ⟨hd, hrem.1, v, hdef, hv, hconst⟩) hrem

/-- An instruction that the pass removes changes nothing but its result. -/
theorem step_removed (meaning : Meaning V M)
    (h : Agree m fn p q) (hess : (m.instrs i).opcode.isEssential = false)
    (hrest : p.rest = i :: rest) (hi : i ∈ fn.instrs) (hrem : m.Removable (m.liveSet fn) i) :
    ∃ p', m.step fn meaning p = .running p' ∧ Agree m fn p' { q with rest := rest } := by
  obtain ⟨value, hexec⟩ := meaning.plain (m.instrs i) (m.operandValues meaning p.env i) p.previous
    p.memory hess
  have hinside : ∀ j ∈ rest, j ∈ fn.instrs := fun j hj =>
    h.inside j (hrest ▸ List.mem_cons_of_mem i hj)
  unfold step
  rw [hrest]
  dsimp only
  rw [if_neg hrem.1, hexec]
  refine ⟨_, rfl, h.block, rfl, h.previous, h.memory, hinside, fun v hv => ?_⟩
  dsimp only
  rw [define_of_ne (hv i hi hrem)]
  exact h.env v hv

/-- An instruction that is kept does the same. -/
theorem step_kept {m' : CirModule} (h : Agree m fn p q) (hrest : p.rest = i :: rest)
    (hinstr : m'.instrs i = m.instrs i)
    (hops : (m.instrs i).opcode ≠ .nop →
      m'.operandValues meaning q.env i = m.operandValues meaning p.env i ∨
        (m.instrs i).opcode.isEssential = false ∧ (m.instrs i).result = none) :
    AgreeAt m fn (m.step fn meaning p) (m'.step fn meaning q) := by
  have hinside : ∀ j ∈ rest, j ∈ fn.instrs := fun j hj =>
    h.inside j (hrest ▸ List.mem_cons_of_mem i hj)
  unfold step
  rw [h.rest, hrest]
  dsimp only
  rw [hinstr, h.memory, h.previous, h.block]
  split_ifs with hnop
  · exact .running ⟨rfl, rfl, rfl, rfl, hinside, h.env⟩
  rcases hops hnop with hops | ⟨hess, hnone⟩
  · rw [hops]
    split
    · exact .running ⟨rfl, rfl, rfl, rfl, hinside, fun v hv => define_congr h.env hv _⟩
    · exact agreeAt_enter h.env
    · exact .left ..
  · -- without a result, it does nothing
    obtain ⟨a, ha⟩ := meaning.plain (m.instrs i) (m.operandValues meaning p.env i) p.previous
      p.memory hess
    obtain ⟨b, hb⟩ := meaning.plain (m.instrs i) (m'.operandValues meaning q.env i) p.previous
      p.memory hess
    rw [ha, hb, hnone]
    exact .running ⟨rfl, rfl, rfl, rfl, hinside, h.env⟩

theorem AgreeAt.step (howned : m.Owned) (hfn : fn ∈ m.functions) (hfit : m.NeededFit fn)
    (hcov : m.Covered fn) (h : Agree m fn p q) :
    AgreeAt m fn (m.step fn meaning p) (m.eliminateDeadCode.step fn meaning q) := by
  cases hrest : p.rest with
  | nil =>
    unfold CirModule.step
    rw [h.rest, hrest, h.memory]
    exact .stuck p.memory
  | cons i rest =>
    have hi : i ∈ fn.instrs := h.inside i (hrest ▸ List.mem_cons_self)
    obtain ⟨hgone, hkept⟩ := eliminateDeadCode_instrs howned hfn hi
    by_cases hrem : m.Removable (m.liveSet fn) i
    · have hess : (m.instrs i).opcode.isEssential = false := by
        by_contra hess
        rw [Bool.not_eq_false] at hess
        exact not_removable_of_required hfit (hcov i hi hrem.1 hess).1 hrem
      obtain ⟨p', hp', hagree⟩ := step_removed meaning h hess hrest hi hrem
      have hskip : m.eliminateDeadCode.step fn meaning q = .running { q with rest := rest } := by
        unfold CirModule.step
        rw [h.rest, hrest]
        dsimp only
        rw [hgone hrem]
        exact if_pos rfl
      rw [hp', hskip]
      exact .running hagree
    · refine step_kept h hrest (hkept hrem) fun hnop => ?_
      have hvalues := (foldl_eliminateFunction howned m).1
      by_cases hshown : m.hasSideEffects i = true ∨ ∃ v, (m.instrs i).result = some v
      · have hreq := required_of_not_removable hnop hrem
        exact .inl (operandValues_congr hvalues (hkept hrem) h.env fun v hv hconst =>
          intact_of_required hfit (fun d => hreq.uses hi hnop hshown) hv hconst)
      · rw [not_or, not_exists] at hshown
        cases hess : (m.instrs i).opcode.isEssential with
        | true =>
          exact .inl (operandValues_congr hvalues (hkept hrem) h.env fun v hv hconst =>
            intact_of_required hfit (hcov i hi hnop hess).2 hv hconst)
        | false => exact .inr ⟨rfl, Option.eq_none_iff_forall_ne_some.2 hshown.2⟩

/-! ## Executions -/

theorem AgreeAt.runFor (howned : m.Owned) (hfn : fn ∈ m.functions) (hfit : m.NeededFit fn)
    (hcov : m.Covered fn) (n : ℕ) {r r' : Progress V M} (h : AgreeAt m fn r r') :
    AgreeAt m fn (m.runFor fn meaning n r) (m.eliminateDeadCode.runFor fn meaning n r') := by
  induction n generalizing r r' with
  | zero => exact h
  | succ n ih =>
    cases h with
    | running h => exact ih (AgreeAt.step howned hfn hfit hcov h)
    | left value memory => exact .left value memory
    | stuck memory => exact .stuck memory

theorem AgreeAt.seen {r r' : Progress V M} (h : AgreeAt m fn r r') : r.seen = r'.seen := by
  cases h with
  | running h => simp only [Progress.seen, h.block, h.rest, h.memory]
  | left value memory => rfl
  | stuck memory => rfl

end Simulation

theorem covered_of_eliminatesDead (howned : m.Owned) (hfn : fn ∈ m.functions)
    (h : m.EliminatesDead fn) : m.Covered fn := by
  intro i hi hnop hess
  constructor
  · by_contra hreq
    have hremoved := (removed_iff howned hfn).2 ⟨hi, removable_of_not_required hnop hreq⟩
    rw [h.inessential i hremoved] at hess
    cases hess
  · intro d huses
    by_contra hreq
    have hremoved := (removed_iff howned hfn).2
      ⟨huses.1, removable_of_not_required huses.2.1 hreq⟩
    exact h.unused d hremoved i hi hnop hess (.single huses)

theorem eliminatesDead_of_covered (howned : m.Owned) (hfn : fn ∈ m.functions)
    (hfit : m.NeededFit fn) (hcov : m.Covered fn) : m.EliminatesDead fn where
  inessential d hd := by
    obtain ⟨hmem, hrem⟩ := (removed_iff howned hfn).1 hd
    by_contra hess
    rw [Bool.not_eq_false] at hess
    exact not_removable_of_required hfit (hcov d hmem hrem.1 hess).1 hrem
  unused d hd i hi hnop hess huses :=
    not_removable_of_required hfit (hcov.required hi hnop hess huses)
      ((removed_iff howned hfn).1 hd).2
  same meaning b hb previous memory env n :=
    (AgreeAt.runFor howned hfn hfit hcov n (agreeAt_enter fun _ _ => rfl)).seen

/-- The pass is sound only where what essential instructions are and use is required, and it is
sound there, as long as the needed values have room. -/
theorem eliminates_dead_iff (howned : m.Owned) (hfn : fn ∈ m.functions) :
    (m.EliminatesDead fn → m.Covered fn) ∧
      (m.NeededFit fn → m.Covered fn → m.EliminatesDead fn) :=
  ⟨covered_of_eliminatesDead howned hfn, eliminatesDead_of_covered howned hfn⟩

end CirModule

/-- A `switch` on a sum. -/
def switchOnSum : CirModule where
  functions := [⟨[⟨1, [1, 2]⟩], 0⟩]
  values := fun _ => ⟨.vreg, .i64, 0, none⟩
  instrs := fun i =>
    if i = 1 then ⟨.add, some 3, [some 1, some 2], none, none, none, 0⟩
    else ⟨.switch, none, [some 3], none, none, none, 0⟩

/-- A sum that is returned, and a product of the same values that nothing uses. -/
def sumReturned : CirModule where
  functions := [⟨[⟨1, [1, 2, 3]⟩], 0⟩]
  values := fun _ => ⟨.vreg, .i64, 0, none⟩
  instrs := fun i =>
    if i = 1 then ⟨.add, some 3, [some 1, some 2], none, none, none, 0⟩
    else if i = 2 then ⟨.mul, some 4, [some 1, some 2], none, none, none, 0⟩
    else ⟨.ret, none, [some 3], none, none, none, 0⟩

namespace CirModule

/-- The product is removed, the sum is not, and no execution sees the difference. -/
theorem eliminatesDead_sumReturned :
    sumReturned.Removed ⟨[⟨1, [1, 2, 3]⟩], 0⟩ 2 ∧ ¬sumReturned.Removed ⟨[⟨1, [1, 2, 3]⟩], 0⟩ 1 ∧
      sumReturned.EliminatesDead ⟨[⟨1, [1, 2, 3]⟩], 0⟩ := by
  refine ⟨⟨by decide, by decide, by decide⟩, fun h => absurd h.2.2 (by decide), ?_⟩
  have hinstrs : ∀ i ∈ (⟨[⟨1, [1, 2, 3]⟩], 0⟩ : CirFunction).instrs, i = 1 ∨ i = 2 ∨ i = 3 := by
    intro i hi
    simpa [CirFunction.instrs] using hi
  have howned : sumReturned.Owned := List.pairwise_singleton _ _
  refine (eliminates_dead_iff howned List.mem_cons_self).2
    ⟨[1, 2, 3], by decide, fun v hv => ?_⟩ fun i hi _ hess => ?_
  · have hoperand : ∀ i ∈ (⟨[⟨1, [1, 2, 3]⟩], 0⟩ : CirFunction).instrs,
        some v ∈ (sumReturned.instrs i).operands → v ∈ [1, 2, 3] := by
      intro i hi hv
      have hoperands : v = 1 ∨ v = 2 ∨ v = 3 := by
        rcases hinstrs i hi with rfl | rfl | rfl
        · exact (show v = 1 ∨ v = 2 by simpa [sumReturned] using hv).imp_right .inl
        · exact (show v = 1 ∨ v = 2 by simpa [sumReturned] using hv).imp_right .inl
        · exact .inr (.inr (by simpa [sumReturned] using hv))
      simpa using hoperands
    cases hv with
    | effect hi _ _ hv _ => exact hoperand _ hi hv
    | result hi _ _ _ hv _ => exact hoperand _ hi hv
  · obtain rfl : i = 3 := by
      rcases hinstrs i hi with rfl | rfl | rfl
      · cases hess
      · cases hess
      · rfl
    refine ⟨.inl rfl, ?_⟩
    rintro d ⟨hd, -, v, hv, hmem, hconst⟩
    obtain rfl : v = 3 := by simpa [sumReturned] using hmem
    refine .inr fun w hw => ?_
    obtain rfl := Option.some.inj (hv.symm.trans hw)
    exact .effect hi (by decide) rfl hmem hconst

theorem not_eliminatesDead_switchOnSum : ¬switchOnSum.EliminatesDead ⟨[⟨1, [1, 2]⟩], 0⟩ := by
  intro h
  refine h.unused 1 ⟨by decide, by decide, by decide⟩ 2 (by decide) (by decide) (by decide)
    (.single ⟨by decide, by decide, 3, by decide⟩)

end CirModule

end Seraph
