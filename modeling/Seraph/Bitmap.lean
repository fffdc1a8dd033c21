import Mathlib.Algebra.GroupWithZero.Nat
import Mathlib.Data.Finset.Card
import Mathlib.Data.Finset.Range
import Mathlib.Logic.Function.Basic

/-!
# Bitmaps

A bitmap is a table of `w`-bit words; bit `i` of the bitmap is bit `i % w` of the word `i / w`.
`set`, `clear` and `test` work on the word with a mask of one bit, and `test_set`, `test_clear`
say what they do to the bits. `clearBits m n` are the clear bits below `n` : `set` takes one
out and `clear` puts one in. `firstClear` finds the lowest clear bit of a word by counting
trailing zeros.
-/

namespace Bitmap

/-- A word at every index. -/
abbrev Words (w : ℕ) := ℕ → BitVec w

variable {w : ℕ}

/-- The mask of bit `i` in its word. -/
def mask (w i : ℕ) : BitVec w :=
  1#w <<< (i % w)

/-- Bit `i` is set. -/
def test (m : Words w) (i : ℕ) : Bool :=
  decide (m (i / w) &&& mask w i ≠ 0#w)

/-- Set bit `i`. -/
def set (m : Words w) (i : ℕ) : Words w :=
  Function.update m (i / w) (m (i / w) ||| mask w i)

/-- Clear bit `i`. -/
def clear (m : Words w) (i : ℕ) : Words w :=
  Function.update m (i / w) (m (i / w) &&& ~~~mask w i)

/-- The clear bits below `n`. -/
def clearBits (m : Words w) (n : ℕ) : Finset ℕ :=
  (Finset.range n).filter fun i => test m i = false

/-- The lowest clear bit of a word, `w` if there is none. -/
def firstClear (x : BitVec w) : ℕ :=
  if ~~~x = 0#w then w else (~~~x).ctz.toNat

theorem getLsbD_mask [NeZero w] (i k : ℕ) : (mask w i).getLsbD k = decide (k = i % w) := by
  have hlt : i % w < w := Nat.mod_lt i (Nat.pos_of_neZero w)
  rw [mask, BitVec.getLsbD_shiftLeft, BitVec.getLsbD_one]
  rcases lt_trichotomy k (i % w) with h | rfl | h
  · simp [h, h.ne]
  · simp [Nat.pos_of_neZero w, hlt]
  · have hne : k - i % w ≠ 0 := by omega
    simp [h.ne', hne]

theorem test_eq_getLsbD [NeZero w] (m : Words w) (i : ℕ) :
    test m i = (m (i / w)).getLsbD (i % w) := by
  rw [test, Bool.eq_iff_iff, decide_eq_true_iff]
  constructor
  · intro hne
    by_contra hbit
    refine hne (BitVec.eq_of_getLsbD_eq fun k hk => ?_)
    rw [BitVec.getLsbD_and, getLsbD_mask, BitVec.getLsbD_zero]
    rcases eq_or_ne k (i % w) with rfl | h
    · rw [Bool.eq_false_of_not_eq_true hbit, Bool.false_and]
    · rw [decide_eq_false h, Bool.and_false]
  · intro hbit hzero
    have h := congrArg (fun x => x.getLsbD (i % w)) hzero
    simp [getLsbD_mask, hbit] at h

/-- Two bits of one word are the same bit if they have the same place in it. -/
theorem eq_of_div_mod {i j : ℕ} (hdiv : j / w = i / w) (hmod : j % w = i % w) : j = i := by
  rw [← Nat.div_add_mod j w, ← Nat.div_add_mod i w, hdiv, hmod]

theorem test_set [NeZero w] (m : Words w) (i j : ℕ) :
    test (set m i) j = (decide (j = i) || test m j) := by
  rw [test_eq_getLsbD, test_eq_getLsbD, set]
  by_cases hdiv : j / w = i / w
  · rw [hdiv, Function.update_self, BitVec.getLsbD_or, getLsbD_mask, Bool.or_comm]
    congr 1
    exact decide_eq_decide.2 ⟨eq_of_div_mod hdiv, fun h => by rw [h]⟩
  · have hne : j ≠ i := fun h => hdiv (by rw [h])
    rw [Function.update_of_ne hdiv, decide_eq_false hne, Bool.false_or]

theorem test_clear [NeZero w] (m : Words w) (i j : ℕ) :
    test (clear m i) j = (!decide (j = i) && test m j) := by
  rw [test_eq_getLsbD, test_eq_getLsbD, clear]
  by_cases hdiv : j / w = i / w
  · have hlt : j % w < w := Nat.mod_lt j (Nat.pos_of_neZero w)
    rw [hdiv, Function.update_self, BitVec.getLsbD_and, BitVec.getLsbD_not, getLsbD_mask,
      decide_eq_true hlt, Bool.true_and, Bool.and_comm]
    congr 2
    exact decide_eq_decide.2 ⟨eq_of_div_mod hdiv, fun h => by rw [h]⟩
  · have hne : j ≠ i := fun h => hdiv (by rw [h])
    rw [Function.update_of_ne hdiv, decide_eq_false hne, Bool.not_false, Bool.true_and]

@[simp] theorem mem_clearBits {m : Words w} {n i : ℕ} :
    i ∈ clearBits m n ↔ i < n ∧ test m i = false := by
  simp [clearBits]

theorem clearBits_set [NeZero w] (m : Words w) (n i : ℕ) :
    clearBits (set m i) n = (clearBits m n).erase i := by
  ext j
  rw [mem_clearBits, Finset.mem_erase, mem_clearBits, test_set]
  by_cases h : j = i <;> simp [h]

theorem clearBits_clear [NeZero w] (m : Words w) {n i : ℕ} (hi : i < n) :
    clearBits (clear m i) n = insert i (clearBits m n) := by
  ext j
  rw [mem_clearBits, Finset.mem_insert, mem_clearBits, test_clear]
  by_cases h : j = i <;> simp [h, hi]

/-- Setting a clear bit. -/
theorem card_clearBits_set [NeZero w] {m : Words w} {n i : ℕ} (hi : i < n)
    (h : test m i = false) : (clearBits (set m i) n).card + 1 = (clearBits m n).card := by
  rw [clearBits_set]
  exact Finset.card_erase_add_one (mem_clearBits.2 ⟨hi, h⟩)

/-- Clearing a bit that is set. -/
theorem card_clearBits_clear [NeZero w] {m : Words w} {n i : ℕ} (hi : i < n)
    (h : test m i = true) : (clearBits (clear m i) n).card = (clearBits m n).card + 1 := by
  rw [clearBits_clear m hi, Finset.card_insert_of_notMem]
  simp [h]

/-- A word with a clear bit has a lowest one. -/
theorem firstClear_spec {x : BitVec w} {k : ℕ} (hk : k < w) (hclear : x.getLsbD k = false) :
    firstClear x ≤ k ∧ x.getLsbD (firstClear x) = false := by
  have hnot : (~~~x).getLsbD k = true := by
    rw [BitVec.getLsbD_not, decide_eq_true hk, hclear, Bool.not_false, Bool.and_self]
  have hne : ~~~x ≠ 0#w := by
    intro hzero
    rw [hzero, BitVec.getLsbD_zero] at hnot
    cases hnot
  rw [firstClear, if_neg hne]
  have hle : (~~~x).ctz.toNat ≤ k := by
    by_contra hlt
    rw [BitVec.getLsbD_false_of_lt_ctz (not_le.1 hlt)] at hnot
    cases hnot
  have hbit := BitVec.getLsbD_true_ctz_of_ne_zero hne
  rw [BitVec.getLsbD_not, Bool.and_eq_true, Bool.not_eq_true'] at hbit
  exact ⟨hle, hbit.2⟩

/-- A word with a clear bit is not the word of ones. -/
theorem exists_clear_of_ne_allOnes {x : BitVec w} (h : x ≠ BitVec.allOnes w) :
    ∃ k < w, x.getLsbD k = false := by
  by_contra hall
  push Not at hall
  refine h (BitVec.eq_of_getLsbD_eq fun k hk => ?_)
  rw [BitVec.getLsbD_allOnes, decide_eq_true hk]
  exact Bool.eq_true_of_not_eq_false (hall k hk)

end Bitmap
