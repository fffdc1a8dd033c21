import Seraph.ConstantFolding

/-!
# The constant folding pass

An instruction that the pass replaces keeps its type and its meaning exactly where its operands are
safe (`preserved_iff`). Where all of them are, every constant at the end is one that the module
computes without the pass (`foldConstants_preserves_iff`).
-/

namespace Seraph

open Runs

/-- A value of a module is this constant, or an instruction computes it from such values. -/
inductive Computes (m : CirModule) : ValuePtr → BitVec 64 → Prop
  | const {v : ValuePtr} : (m.values v).kind = .const → Computes m v (m.values v).constant
  | binary {i : InstrPtr} {v a b : ValuePtr} {l r w : BitVec 64} :
    i ∈ m.instrList → (m.instrs i).result = some v → (m.instrs i).operands = [some a, some b] →
    Computes m a l → Computes m b r →
    (m.instrs i).opcode.meaning (m.values a).type (m.values v).type l r = some w → Computes m v w
  | unary {i : InstrPtr} {v a : ValuePtr} {l w : BitVec 64} :
    i ∈ m.instrList → (m.instrs i).result = some v → (m.instrs i).operands = [some a] →
    Computes m a l →
    (m.instrs i).opcode.meaning (m.values a).type (m.values v).type l 0 = some w → Computes m v w

namespace CirModule

variable (m : CirModule) (i : InstrPtr)

/-- The type of the first operand, and the constants of both. -/
def operandWords : TypeKind × BitVec 64 × BitVec 64 :=
  match (m.instrs i).operands with
  | [some a, some b] => ((m.values a).type, (m.values a).constant, (m.values b).constant)
  | [some a] => ((m.values a).type, (m.values a).constant, 0)
  | _ => (.void, 0, 0)

/-- What an instruction computes from constants for this result. -/
def meaning (v : ValuePtr) : Option (BitVec 64) :=
  (m.instrs i).opcode.meaning (m.operandWords i).1 (m.values v).type (m.operandWords i).2.1
    (m.operandWords i).2.2

/-- The instruction is kept, or its result is the constant that it computes, and of its type. -/
def Preserved : Prop :=
  match (m.foldInstruction i).2 with
  | .kept => True
  | .undefined => False
  | .replaced =>
    ∃ v, (m.instrs i).result = some v ∧
      ((m.foldInstruction i).1.values v).kind = .const ∧
      ((m.foldInstruction i).1.values v).type = (m.values v).type ∧
      m.meaning i v = some ((m.foldInstruction i).1.values v).constant

/-- The operands and the result of an instruction are those with which it can be folded. -/
def FoldSafe : Prop :=
  ∀ v, (m.instrs i).result = some v →
    (m.instrs i).opcode.FoldSafe (m.operandWords i).1 (m.values v).type (m.operandWords i).2.1
      (m.operandWords i).2.2

variable {m i} {v a b : ValuePtr}

theorem constantOf_eq_some {x : CirValue} {v : Option ValuePtr} (h : m.constantOf v = some x) :
    ∃ a, v = some a ∧ x = m.values a ∧ (m.values a).kind = .const := by
  unfold constantOf at h
  split at h
  · next a =>
    split at h
    · next hkind => exact ⟨a, rfl, (Option.some.inj h).symm, hkind⟩
    · cases h
  · cases h

/-- A new constant is folded from two, or from one. -/
theorem folded_cases (h : m.folded i ≠ .none) :
    (∃ a b, (m.instrs i).operands = [some a, some b] ∧ (m.values a).kind = .const ∧
      (m.values b).kind = .const ∧ m.folded i =
        foldInts (m.instrs i).opcode (m.values a).constant (m.values b).constant) ∨
      ∃ a, (m.instrs i).operands = [some a] ∧ (m.values a).kind = .const ∧
        m.folded i = foldInt (m.instrs i).opcode (m.values a).constant := by
  unfold folded at h ⊢
  split
  · next left right heq =>
    rw [heq] at h
    dsimp only at h
    unfold tryFoldBinary at h ⊢
    split at h
    · next x y hx hy =>
      obtain ⟨a, rfl, rfl, ha⟩ := constantOf_eq_some hx
      obtain ⟨b, rfl, rfl, hb⟩ := constantOf_eq_some hy
      split at h
      · next hints =>
        exact .inl ⟨a, b, heq, ha, hb, if_pos hints⟩
      · exact absurd rfl h
    · exact absurd rfl h
  · next operand heq =>
    rw [heq] at h
    dsimp only at h
    unfold tryFoldUnary at h ⊢
    split at h
    · next x hx =>
      obtain ⟨a, rfl, rfl, ha⟩ := constantOf_eq_some hx
      exact .inr ⟨a, heq, ha, rfl⟩
    · exact absurd rfl h
  · next hbinary hunary =>
    split at h
    · next left right heq => exact absurd heq (hbinary left right)
    · next operand heq => exact absurd heq (hunary operand)
    · exact absurd rfl h

/-- What is folded is sound exactly where the operands are safe. -/
theorem folded_sound_iff (h : m.folded i ≠ .none) (v : ValuePtr) :
    (m.folded i).Sound (m.values v).type (m.meaning i v) ↔
      (m.instrs i).opcode.FoldSafe (m.operandWords i).1 (m.values v).type (m.operandWords i).2.1
        (m.operandWords i).2.2 := by
  rcases folded_cases h with ⟨a, b, hops, -, -, hfold⟩ | ⟨a, hops, -, hfold⟩
  · have hwords : m.operandWords i =
        ((m.values a).type, (m.values a).constant, (m.values b).constant) := by
      rw [operandWords, hops]
    rw [hfold] at h ⊢
    rw [meaning, hwords]
    exact foldInts_sound_iff _ _ _ _ _ h
  · have hwords : m.operandWords i = ((m.values a).type, (m.values a).constant, 0) := by
      rw [operandWords, hops]
    rw [hfold] at h ⊢
    rw [meaning, hwords]
    exact foldInt_sound_iff _ _ _ _ _ h

theorem foldInstruction_undefined (hv : (m.instrs i).result = some v)
    (h : m.folded i = .undefined) : m.foldInstruction i = (m, .undefined) := by
  rw [foldInstruction, hv]
  dsimp only
  rw [h]

theorem foldInstruction_const {type : TypeKind} {w : BitVec 64}
    (hv : (m.instrs i).result = some v) (h : m.folded i = .const type w) :
    m.foldInstruction i = ((m.setConstant v type w).setOpcode i .nop, .replaced) := by
  rw [foldInstruction, hv]
  dsimp only
  rw [h]

theorem result_of_not_kept (h : (m.foldInstruction i).2 ≠ .kept) :
    ∃ v, (m.instrs i).result = some v ∧ m.folded i ≠ .none := by
  cases hv : (m.instrs i).result with
  | none =>
    rw [foldInstruction, hv] at h
    exact absurd rfl h
  | some v =>
    refine ⟨v, rfl, fun hnone => ?_⟩
    rw [foldInstruction, hv] at h
    dsimp only at h
    rw [hnone] at h
    exact absurd rfl h

/-- The new constant of a value. -/
theorem values_setConstant {type : TypeKind} {w : BitVec 64} :
    (m.setConstant v type w).values v =
      { m.values v with kind := .const, type := type, constant := w } :=
  Function.update_self ..

/-- An instruction that is replaced keeps its type and its meaning exactly where its operands are
safe. -/
theorem preserved_iff (h : (m.foldInstruction i).2 ≠ .kept) : m.Preserved i ↔ m.FoldSafe i := by
  obtain ⟨v, hv, hfold⟩ := result_of_not_kept h
  have hsound := folded_sound_iff hfold v
  have hsafe : m.FoldSafe i ↔ (m.folded i).Sound (m.values v).type (m.meaning i v) := by
    rw [hsound]
    refine ⟨fun h => h v hv, fun h v' hv' => ?_⟩
    cases hv.symm.trans hv'
    exact h
  rw [hsafe]
  cases hf : m.folded i with
  | none => exact absurd hf hfold
  | undefined =>
    rw [Preserved, foldInstruction_undefined hv hf]
    exact Iff.rfl
  | const type w =>
    have hvalue : ((m.setConstant v type w).setOpcode i .nop).values v =
        { m.values v with kind := .const, type := type, constant := w } := values_setConstant
    rw [Preserved, foldInstruction_const hv hf]
    dsimp only
    constructor
    · rintro ⟨v', hv', -, htype, hmeaning⟩
      cases hv.symm.trans hv'
      rw [hvalue] at htype hmeaning
      exact ⟨htype, hmeaning⟩
    · rintro ⟨htype, hmeaning⟩
      refine ⟨v, hv, ?_, ?_, ?_⟩
      all_goals rw [hvalue]
      · exact htype
      · exact hmeaning

/-! ## The whole pass -/

/-- What the module `o` has become : types and the meaning of constants are those of `o`, and the
instructions that are left are its own. -/
structure FoldsTo (o m : CirModule) : Prop where
  type : ∀ v, (m.values v).type = (o.values v).type
  const : ∀ v, (m.values v).kind = .const → Computes o v (m.values v).constant
  instrs : ∀ i, m.instrs i = o.instrs i ∨ (m.instrs i).opcode = .nop

theorem FoldsTo.refl (o : CirModule) : FoldsTo o o :=
  ⟨fun _ => rfl, fun _ hv => .const hv, fun _ => .inl rfl⟩

theorem foldInstruction_kept (h : (m.foldInstruction i).2 = .kept) :
    (m.foldInstruction i).1 = m := by
  unfold foldInstruction at h ⊢
  split at h
  · rfl
  · split at h
    · rfl
    · rfl
    · cases h

theorem setConstant_of_ne {type : TypeKind} {w : BitVec 64} (h : a ≠ v) :
    (m.setConstant v type w).values a = m.values a :=
  Function.update_of_ne h ..

/-- An instruction that is folded is the one of the module, and computes the new constant. -/
theorem FoldsTo.computes {o : CirModule} {w : BitVec 64} (h : FoldsTo o m) (hi : i ∈ o.instrList)
    (hv : (m.instrs i).result = some v) (hfold : m.folded i ≠ .none)
    (hw : m.meaning i v = some w) : Computes o v w := by
  have hsame : m.instrs i = o.instrs i := by
    refine (h.instrs i).resolve_right fun hnop => ?_
    rcases folded_cases hfold with ⟨a, b, -, -, -, heq⟩ | ⟨a, -, -, heq⟩
    all_goals
      rw [hnop] at heq
      exact hfold heq
  rcases folded_cases hfold with ⟨a, b, hops, ha, hb, -⟩ | ⟨a, hops, ha, -⟩
  · rw [meaning, operandWords, hops] at hw
    dsimp only at hw
    rw [hsame, h.type a, h.type v] at hw
    rw [hsame] at hv hops
    exact .binary hi hv hops (h.const a ha) (h.const b hb) hw
  · rw [meaning, operandWords, hops] at hw
    dsimp only at hw
    rw [hsame, h.type a, h.type v] at hw
    rw [hsame] at hv hops
    exact .unary hi hv hops (h.const a ha) hw

theorem FoldsTo.step {o : CirModule} (h : FoldsTo o m) (hi : i ∈ o.instrList)
    (hsafe : (m.foldInstruction i).2 ≠ .kept → m.FoldSafe i) :
    FoldsTo o (m.foldInstruction i).1 := by
  by_cases hkept : (m.foldInstruction i).2 = .kept
  · rw [foldInstruction_kept hkept]
    exact h
  · obtain ⟨v, hv, hfold⟩ := result_of_not_kept hkept
    have hsound := (folded_sound_iff hfold v).2 (hsafe hkept v hv)
    cases hf : m.folded i with
    | none => exact absurd hf hfold
    | undefined =>
      rw [hf] at hsound
      exact hsound.elim
    | const type w =>
      rw [hf] at hsound
      obtain ⟨htype, hmeaning⟩ := hsound
      rw [foldInstruction_const hv hf]
      refine ⟨fun a => ?_, fun a ha => ?_, fun j => ?_⟩
      · change ((m.setConstant v type w).values a).type = _
        by_cases hav : a = v
        · rw [hav, values_setConstant, ← h.type v]
          exact htype
        · rw [setConstant_of_ne hav]
          exact h.type a
      · change ((m.setConstant v type w).values a).kind = .const at ha
        change Computes o a ((m.setConstant v type w).values a).constant
        by_cases hav : a = v
        · rw [hav, values_setConstant]
          exact h.computes hi hv hfold hmeaning
        · rw [setConstant_of_ne hav] at ha ⊢
          exact h.const a ha
      · by_cases hji : j = i
        · rw [hji, setOpcode_self]
          exact .inr rfl
        · rw [setOpcode_of_ne hji]
          exact h.instrs j

theorem FoldsTo.run {o : CirModule} {is : List InstrPtr} (h : FoldsTo o m)
    (his : ∀ i ∈ is, i ∈ o.instrList)
    (hsafe : ∀ c ∈ calls foldInstruction m is, c.result ≠ .kept → c.before.FoldSafe c.op) :
    FoldsTo o (run foldInstruction m is) := by
  induction is generalizing m with
  | nil => exact h
  | cons i is ih =>
    obtain ⟨hi, his⟩ := List.forall_mem_cons.1 his
    obtain ⟨hcall, hcalls⟩ := List.forall_mem_cons.1 hsafe
    exact ih (h.step hi hcall) his hcalls

variable (m)

/-- Each instruction that the pass replaces keeps its type and its meaning exactly where its
operands are safe. Where all are, the types are kept and all constants are computed by the module
without the pass. -/
theorem foldConstants_preserves_iff :
    (∀ c ∈ calls foldInstruction m m.instrList, c.result ≠ .kept →
      (c.before.Preserved c.op ↔ c.before.FoldSafe c.op)) ∧
    ((∀ c ∈ calls foldInstruction m m.instrList, c.result ≠ .kept → c.before.FoldSafe c.op) →
      ∀ v, (m.foldConstants.values v).type = (m.values v).type ∧
        ((m.foldConstants.values v).kind = .const →
          Computes m v (m.foldConstants.values v).constant)) := by
  refine ⟨fun c hc hrep => ?_, fun hsafe v => ?_⟩
  · exact preserved_iff (result_of_mem_calls hc ▸ hrep)
  · have hfolds := (FoldsTo.refl m).run (fun _ hi => hi) hsafe
    exact ⟨hfolds.type v, hfolds.const v⟩

end CirModule

/-- `40 + 2`, and the double of it. -/
def chainedSum : CirModule where
  functions := [⟨[⟨1, [1, 2]⟩], 0⟩]
  values := fun v =>
    if v = 1 then ⟨.const, .i64, 40, none⟩
    else if v = 2 then ⟨.const, .i64, 2, none⟩
    else ⟨.vreg, .i64, 0, some (v - 2)⟩
  instrs := fun i =>
    if i = 1 then ⟨.add, some 3, [some 1, some 2], none, none, none, 0⟩
    else ⟨.mul, some 4, [some 3, some 2], none, none, none, 0⟩

/-- The product is folded with the sum that has become a constant, and both are safe. -/
theorem foldConstants_preserves_chainedSum :
    (CirModule.foldConstants chainedSum).values 4 = ⟨.const, .i64, 84, some 2⟩ ∧
      Computes chainedSum 4 84 := by
  have hsum : chainedSum.FoldSafe 1 := by
    intro v hv
    cases hv
    exact ⟨rfl, by decide⟩
  have hproduct : (chainedSum.foldInstruction 1).1.FoldSafe 2 := by
    intro v hv
    cases hv
    exact ⟨rfl, by decide⟩
  obtain ⟨-, hpass⟩ := CirModule.foldConstants_preserves_iff chainedSum
  refine ⟨by decide, (hpass (fun c hc _ => ?_) 4).2 (by decide)⟩
  rcases List.mem_cons.1 hc with rfl | hc
  · exact hsum
  · obtain rfl := List.mem_singleton.1 hc
    exact hproduct

/-- `100 + 100` on signed integers of 8 bits. -/
def narrowSum : CirModule where
  functions := [⟨[⟨1, [1]⟩], 0⟩]
  values := fun v => if v = 3 then ⟨.vreg, .i8, 0, some 1⟩ else ⟨.const, .i8, 100, none⟩
  instrs := fun _ => ⟨.add, some 3, [some 1, some 2], none, none, none, 0⟩

/-- The sum becomes the constant 200 of 64 bits, where the instruction computes VOID. -/
theorem not_preserved_narrowSum :
    (CirModule.foldConstants narrowSum).values 3 = ⟨.const, .i64, 200, some 1⟩ ∧
      narrowSum.meaning 1 3 = none ∧
      ∃ c ∈ calls CirModule.foldInstruction narrowSum narrowSum.instrList,
        c.result = .replaced ∧ ¬c.before.Preserved c.op := by
  refine ⟨by decide, by decide, _, List.mem_cons_self, by decide, fun h => ?_⟩
  have hsafe := (CirModule.preserved_iff (by decide)).1 h 3 rfl
  exact absurd hsafe.1 (by decide)

end Seraph
