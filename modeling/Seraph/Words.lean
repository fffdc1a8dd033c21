import Mathlib.Data.Nat.Bitwise
import Mathlib.Data.Nat.Notation
import Mathlib.Tactic.NormNum
import Mathlib.Tactic.Ring

/-!
# Machine words and three-valued results

A C `uint32_t` or `uint64_t` is a natural number, reduced by `u32` or `u64` wherever the
C arithmetic can wrap. `alignUp` is the bit expression of `align_up`; for a power of two
it is rounding up to a multiple (`alignUp_two_pow`).
-/

namespace Seraph

/-- `(uint16_t) n`. -/
def u16 (n : ℕ) : ℕ :=
  n % 2 ^ 16

/-- `(uint32_t) n`. -/
def u32 (n : ℕ) : ℕ :=
  n % 2 ^ 32

/-- `(uint64_t) n`. -/
def u64 (n : ℕ) : ℕ :=
  n % 2 ^ 64

/-- `SERAPH_VOID_U8`. -/
def voidU8 : ℕ :=
  2 ^ 8 - 1

/-- `SERAPH_VOID_U16`. -/
def voidU16 : ℕ :=
  2 ^ 16 - 1

/-- `SERAPH_VOID_U32`. -/
def voidU32 : ℕ :=
  2 ^ 32 - 1

/-- `SERAPH_VOID_U64`. -/
def voidU64 : ℕ :=
  2 ^ 64 - 1

/-- `(uint8_t) ~n`. -/
def notU8 (n : ℕ) : ℕ :=
  (~~~BitVec.ofNat 8 n).toNat

/-- `Seraph_Vbit` : FALSE, TRUE or VOID. -/
inductive Vbit where
  | false
  | true
  | void
deriving DecidableEq, Repr

/-- `align_up` : `(value + alignment - 1) & ~(alignment - 1)` on 64 bits. -/
def alignUp (value alignment : ℕ) : ℕ :=
  u64 (value + alignment - 1) &&& (2 ^ 64 - 1 - (alignment - 1))

theorem u64_lt (n : ℕ) : u64 n < 2 ^ 64 :=
  Nat.mod_lt _ (by norm_num)

theorem u64_of_lt {n : ℕ} (h : n < 2 ^ 64) : u64 n = n :=
  Nat.mod_eq_of_lt h

theorem u16_of_lt {n : ℕ} (h : n < 2 ^ 16) : u16 n = n :=
  Nat.mod_eq_of_lt h

theorem u32_of_lt {n : ℕ} (h : n < 2 ^ 32) : u32 n = n :=
  Nat.mod_eq_of_lt h

/-- Decrementing a `uint32_t` that is not zero. -/
theorem u32_pred {n : ℕ} (hpos : 0 < n) (hlt : n < 2 ^ 32) : u32 (n + 2 ^ 32 - 1) = n - 1 := by
  have hsum : n + 2 ^ 32 - 1 = n - 1 + 2 ^ 32 := by omega
  rw [u32, hsum, Nat.add_mod_right, Nat.mod_eq_of_lt (by omega)]

theorem testBit_notU8 (n i : ℕ) : (notU8 n).testBit i = (decide (i < 8) && !n.testBit i) := by
  unfold notU8
  rw [BitVec.testBit_toNat, BitVec.getLsbD_not, BitVec.getLsbD_ofNat]
  by_cases h : i < 8 <;> simp [h]

/-- The bits of a mask that are in `a` are in what contains `a`. -/
theorem and_eq_of_subset {a b mask : ℕ} (h : a &&& b = a) (ha : a &&& mask = mask) :
    b &&& mask = mask := by
  calc b &&& mask = a &&& b &&& mask := by rw [Nat.and_comm a, Nat.and_assoc, ha]
    _ = mask := by rw [h, ha]

/-- Nothing of `a` lies outside a mask that contains it. -/
theorem and_notU8_eq_zero {a b : ℕ} (h : a &&& b = a) : a &&& notU8 b = 0 := by
  refine Nat.eq_of_testBit_eq fun i => ?_
  rw [← h]
  simp only [Nat.testBit_and, testBit_notU8, Nat.zero_testBit]
  cases b.testBit i <;> simp

/-- Clearing the low `k` bits of a `w`-bit word rounds it down to a multiple of `2 ^ k`. -/
theorem and_clear_low {x k w : ℕ} (hx : x < 2 ^ w) (hk : k ≤ w) :
    x &&& (2 ^ w - 1 - (2 ^ k - 1)) = x / 2 ^ k * 2 ^ k := by
  have hmask : 2 ^ w - 1 - (2 ^ k - 1) = 2 ^ k * (2 ^ (w - k) - 1) := by
    have hpow : 2 ^ w = 2 ^ k * 2 ^ (w - k) := by
      rw [← pow_add, Nat.add_sub_cancel' hk]
    have := Nat.one_le_two_pow (n := k)
    rw [Nat.mul_sub, ← hpow]
    omega
  rw [hmask, Nat.mul_comm (x / 2 ^ k)]
  refine Nat.eq_of_testBit_eq fun i => ?_
  rw [Nat.testBit_and, Nat.testBit_two_pow_mul, Nat.testBit_two_pow_mul,
    Nat.testBit_two_pow_sub_one, Nat.testBit_div_two_pow]
  by_cases hi : k ≤ i
  · have hik : i - k + k = i := by omega
    by_cases hw : i < w
    · have hlt : i - k < w - k := by omega
      simp [hi, hlt, hik]
    · have hbit : x.testBit i = false :=
        Nat.testBit_lt_two_pow (hx.trans_le (Nat.pow_le_pow_right (by omega) (by omega)))
      simp [hbit, hik]
  · simp [hi]

/-- For a power of two, `align_up` rounds the wrapped sum down to a multiple of it. -/
theorem alignUp_two_pow (value : ℕ) {k : ℕ} (hk : k ≤ 64) :
    alignUp value (2 ^ k) = u64 (value + 2 ^ k - 1) / 2 ^ k * 2 ^ k :=
  and_clear_low (u64_lt _) hk

theorem alignUp_lt (value : ℕ) {k : ℕ} (hk : k ≤ 64) : alignUp value (2 ^ k) < 2 ^ 64 := by
  rw [alignUp_two_pow value hk]
  exact (Nat.div_mul_le_self _ _).trans_lt (u64_lt _)

/-- `align_up` with alignment 8. -/
theorem alignUp_eight (value : ℕ) :
    alignUp value 8 = (value + 7) % 2 ^ 64 / 8 * 8 := by
  simpa [u64] using alignUp_two_pow value (k := 3) (by omega)

/-- `align_up` with alignment 4096. -/
theorem alignUp_page (value : ℕ) :
    alignUp value 4096 = (value + 4095) % 2 ^ 64 / 4096 * 4096 := by
  simpa [u64] using alignUp_two_pow value (k := 12) (by omega)

end Seraph
