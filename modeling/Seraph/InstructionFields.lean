import Mathlib.Data.Int.Notation
import Mathlib.Data.Nat.Notation
import Mathlib.Tactic.NormNum
import Mathlib.Tactic.Positivity

/-!
# Fields of instruction words

An encoder masks each operand, shifts it to its place and joins the parts (`field`). A decoder cuts
the places out again. A place gives the operand that was put there (`extract_field_same`) and zero
for all others (`extract_field_apart`), so that the join gives back all of them. The number in a
signed field of `w` bits is the operand brought into the signed range (`toInt_extract`).
-/

namespace InstrField

variable {n m : ℕ}

/-- The low `w` bits of `x`, from bit `lo` on. -/
def field (w lo : ℕ) (x : BitVec n) : BitVec n :=
  (x &&& BitVec.ofNat n (2 ^ w - 1)) <<< lo

/-- The `w` bits of a word from bit `lo` on. -/
abbrev extract (w lo : ℕ) (word : BitVec n) : BitVec w :=
  word.extractLsb' lo w

theorem getLsbD_field (w lo : ℕ) (x : BitVec n) (i : ℕ) :
    (field w lo x).getLsbD i =
      (decide (i < n) && !decide (i < lo) && (x.getLsbD (i - lo) && decide (i - lo < w))) := by
  unfold field
  rw [BitVec.getLsbD_shiftLeft, BitVec.getLsbD_and, BitVec.getLsbD_ofNat,
    Nat.testBit_two_pow_sub_one]
  by_cases hn : i < n
  · simp [show i - lo < n by omega]
  · simp [hn]

theorem extract_field_same {w lo : ℕ} (x : BitVec n) (h : lo + w ≤ n) :
    extract w lo (field w lo x) = x.setWidth w := by
  apply BitVec.eq_of_getLsbD_eq
  intro i hi
  rw [BitVec.getLsbD_extractLsb', getLsbD_field, BitVec.getLsbD_setWidth, Nat.add_sub_cancel_left]
  simp [hi, show lo + i < n by omega]

theorem extract_field_apart {w lo w' lo' : ℕ} (x : BitVec n)
    (h : lo + w ≤ lo' ∨ lo' + w' ≤ lo) : extract w lo (field w' lo' x) = 0#w := by
  apply BitVec.eq_of_getLsbD_eq
  intro i hi
  rw [BitVec.getLsbD_extractLsb', getLsbD_field, BitVec.getLsbD_zero]
  rcases h with h | h
  · simp [show lo + i < lo' by omega]
  · simp [show ¬ lo + i - lo' < w' by omega]

theorem extract_or {w lo : ℕ} (x y : BitVec n) :
    extract w lo (x ||| y) = extract w lo x ||| extract w lo y :=
  BitVec.extractLsb'_or

/-- A shift before the mask. -/
theorem setWidth_sshiftRight {w k : ℕ} (x : BitVec n) (h : k + w ≤ n) :
    (x.sshiftRight k).setWidth w = extract w k x := by
  apply BitVec.eq_of_getLsbD_eq
  intro i hi
  rw [BitVec.getLsbD_setWidth, BitVec.getLsbD_sshiftRight, BitVec.getLsbD_extractLsb']
  simp [hi, show k + i < n by omega, show i < n by omega]

theorem extract_signExtend {w k : ℕ} (x : BitVec n) (h : k + w ≤ n) (hm : k + w ≤ m) :
    extract w k (x.signExtend m) = extract w k x := by
  apply BitVec.eq_of_getLsbD_eq
  intro i hi
  rw [BitVec.getLsbD_extractLsb', BitVec.getLsbD_extractLsb', BitVec.getLsbD_signExtend]
  simp [hi, show k + i < n by omega, show k + i < m by omega]

/-- A field of two parts. -/
theorem extract_append {w v k l : ℕ} (x : BitVec n) (h : l = k + v) :
    extract w l x ++ extract v k x = extract (w + v) k x :=
  BitVec.extractLsb'_append_extractLsb'_eq_extractLsb' h

theorem toNat_eq_toInt_add (x : BitVec n) : ∃ c : ℤ, (x.toNat : ℤ) = x.toInt + c * 2 ^ n := by
  rw [BitVec.toInt_eq_toNat_cond]
  split
  · exact ⟨0, by simp⟩
  · exact ⟨1, by push_cast; omega⟩

/-- The low bits of a number. -/
theorem toNat_low {k : ℕ} (x : BitVec n) (h : k ≤ n) :
    ((x &&& BitVec.ofNat n (2 ^ k - 1)).toNat : ℤ) = x.toInt % 2 ^ k := by
  obtain ⟨c, hc⟩ := toNat_eq_toInt_add x
  have hlt : 2 ^ k - 1 < 2 ^ n := by
    have := Nat.pow_le_pow_right (by decide : 0 < 2) h
    have := Nat.two_pow_pos k
    omega
  have hpow : (2 : ℤ) ^ n = 2 ^ (n - k) * 2 ^ k := by
    rw [← pow_add, Nat.sub_add_cancel h]
  rw [BitVec.toNat_and, BitVec.toNat_ofNat, Nat.mod_eq_of_lt hlt, Nat.and_two_pow_sub_one_eq_mod]
  push_cast
  rw [hc, hpow, ← mul_assoc, Int.add_mul_emod_self_right]

/-- The number in a signed field. -/
theorem toInt_extract {w k : ℕ} (x : BitVec n) (h : k + w ≤ n) :
    (extract w k x).toInt = Int.bmod (x.toInt / 2 ^ k) (2 ^ w) := by
  have hnat : (extract w k x).toNat = x.toNat / 2 ^ k % 2 ^ w := by
    rw [BitVec.extractLsb'_toNat, Nat.shiftRight_eq_div_pow]
  obtain ⟨c, hc⟩ := toNat_eq_toInt_add x
  have hdiv : ((x.toNat / 2 ^ k : ℕ) : ℤ) =
      x.toInt / 2 ^ k + c * 2 ^ (n - k - w) * (2 ^ w : ℕ) := by
    have hsplit : (2 : ℤ) ^ n = 2 ^ (n - k - w) * 2 ^ w * 2 ^ k := by
      rw [← pow_add, ← pow_add]
      congr 1
      omega
    push_cast
    rw [hc, hsplit, ← mul_assoc, ← mul_assoc, Int.add_mul_ediv_right _ _ (by positivity)]
  rw [BitVec.toInt_eq_toNat_bmod, hnat, Int.natCast_mod, Int.emod_bmod, hdiv,
    Int.add_mul_bmod_self_right]

end InstrField
