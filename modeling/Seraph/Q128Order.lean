import Mathlib.Algebra.Order.Group.Int
import Mathlib.Order.Lattice
import Seraph.FlaggedRun
import Seraph.Q128
import Seraph.Words

/-!
# Comparisons and checked arithmetic on Q64.64 numbers

The comparisons from `q128.h`, which are those of the values (`lt_eq`, `Num.min`, `Num.max`), and
the operations together with whether their exact results are numbers. Where they are, the operations
yield them (`Num.addC` and so on).
-/

namespace Seraph

namespace Q128

/-- `SERAPH_Q128_ONE`. -/
def one : Q128 := ⟨1, 0⟩

/-- `Q128_HALF`. -/
def half : Q128 := ⟨0, 0x8000000000000000⟩

/-- `seraph_q128_from_i64(2)`. -/
def two : Q128 := ⟨2, 0⟩

/-- `seraph_q128_is_zero`. -/
def isZero (x : Q128) : Bool :=
  x.hi == 0 && x.lo == 0

/-- `seraph_q128_lt`. -/
def lt (a b : Q128) : Vbit :=
  if a.isVoid || b.isVoid then .void
  else if a.hi ≠ b.hi then (if a.hi.slt b.hi then .true else .false)
  else if a.lo < b.lo then .true else .false

/-- `seraph_q128_gt`. -/
def gt (a b : Q128) : Vbit :=
  lt b a

/-- `seraph_q128_min`. -/
def min (a b : Q128) : Q128 :=
  if a.isVoid then b else if b.isVoid then a else if lt a b = .true then a else b

/-- `seraph_q128_max`. -/
def max (a b : Q128) : Q128 :=
  if a.isVoid then b else if b.isVoid then a else if gt a b = .true then a else b

/-- `seraph_q128_clamp`. -/
def clamp (x lo hi : Q128) : Q128 :=
  if x.isVoid then void else if lo.isVoid || hi.isVoid then void else min (max x lo) hi

/-- A Vbit as the condition of an `if` : VOID is not 0. -/
def truthy (v : Vbit) : Bool :=
  v ≠ .false

instance (v : ℤ) : Decidable (Representable v) :=
  inferInstanceAs (Decidable ((-2 ^ 127 ≤ v ∧ v < 2 ^ 127) ∧ v ≠ -1))

/-! ## Checked operations -/

/-- `seraph_q128_add`, with whether the sum is a number. -/
def addC (a b : Q128) : Flagged Q128 :=
  .check (Representable (a.value + b.value)) (add a b)

/-- `seraph_q128_sub`, with whether the difference is a number. -/
def subC (a b : Q128) : Flagged Q128 :=
  .check (Representable (a.value - b.value)) (sub a b)

/-- `seraph_q128_mul`, with whether the product is a number. -/
def mulC (a b : Q128) : Flagged Q128 :=
  .check (Representable (truncatedProduct a b)) (mul a b)

/-- `seraph_q128_neg`, with whether the negation is a number. -/
def negC (a : Q128) : Flagged Q128 :=
  .check (Representable (-a.value)) (neg a)

/-- `seraph_q128_lerp`. -/
def lerpC (a b t : Q128) : Flagged Q128 := do
  let diff ← subC b a
  let scaled ← mulC t diff
  addC a scaled

/-! ## Numbers -/

/-- A Q64.64 number that is not VOID has a value. -/
structure Num (x : Q128) (v : ℤ) : Prop where
  ne_void : x ≠ void
  value : x.value = v

/-- A number is not VOID. -/
theorem Num.isVoid {x : Q128} {v : ℤ} (h : Num x v) : x.isVoid = false := by
  rw [← Bool.not_eq_true, isVoid_eq_true]
  exact h.ne_void

/-- The value of a number fits. -/
theorem Num.representable {x : Q128} {v : ℤ} (h : Num x v) : Representable v := by
  have hval := value_eq x
  have hlt := x.bits_lt
  have hvoid : x.bits ≠ 2 ^ 128 - 1 := fun hbits => h.ne_void (bits_injective hbits)
  rw [h.value] at hval
  unfold Representable Fits
  split at hval <;> omega

/-- Numbers with the same value are the same. -/
theorem Num.unique {x y : Q128} {v : ℤ} (hx : Num x v) (hy : Num y v) : x = y := by
  have hvx := value_eq x
  have hvy := value_eq y
  have hltx := x.bits_lt
  have hlty := y.bits_lt
  rw [hx.value] at hvx
  rw [hy.value] at hvy
  refine bits_injective ?_
  split at hvx <;> split at hvy <;> omega

/-- An exact result that fits is a number. -/
theorem num_of_exact {x : Q128} {v : ℤ} (h : Exact v x) (hv : Representable v) : Num x v :=
  ⟨(h.1 hv).1, (h.1 hv).2⟩

theorem num_zero : Num zero 0 :=
  ⟨by decide, rfl⟩

theorem num_one : Num one (2 ^ 64) :=
  ⟨by decide, rfl⟩

theorem num_half : Num half (2 ^ 63) :=
  ⟨by decide, rfl⟩

theorem num_two : Num two (2 ^ 65) :=
  ⟨by decide, rfl⟩

section

variable {a b : Q128} {v w : ℤ} (ha : Num a v) (hb : Num b w)

include ha hb

/-- Checked addition gives the sum. -/
theorem Num.addC (hok : (addC a b).ok = true) : Num (addC a b).val (v + w) := by
  rw [Q128.addC, Flagged.ok_check, ha.value, hb.value] at hok
  have hexact := exact_add ha.isVoid hb.isVoid
  rw [ha.value, hb.value] at hexact
  exact num_of_exact hexact hok

/-- Checked subtraction gives the difference. -/
theorem Num.subC (hok : (subC a b).ok = true) : Num (subC a b).val (v - w) := by
  rw [Q128.subC, Flagged.ok_check, ha.value, hb.value] at hok
  have hexact := (exact_sub_iff ha.isVoid hb.isVoid).mpr
    (Or.inl (by rw [ha.value, hb.value]; exact hok.1))
  rw [ha.value, hb.value] at hexact
  exact num_of_exact hexact hok

/-- Checked multiplication gives the product, cut to 64 bits behind the point. -/
theorem Num.mulC (hok : (mulC a b).ok = true) : Num (mulC a b).val ((v * w).tdiv (2 ^ 64)) := by
  rw [Q128.mulC, Flagged.ok_check] at hok
  have hexact := (exact_mul_iff ha.isVoid hb.isVoid).mpr (Or.inl hok.1)
  have hnum := num_of_exact hexact hok
  rwa [truncatedProduct, ha.value, hb.value] at hnum

omit hb in
/-- Checked negation gives the opposite. -/
theorem Num.negC (hok : (negC a).ok = true) : Num (negC a).val (-v) := by
  rw [Q128.negC, Flagged.ok_check, ha.value] at hok
  have hexact := (exact_neg_iff ha.isVoid).mpr (by rw [ha.value]; intro h; have := hok.1.2; omega)
  rw [ha.value] at hexact
  exact num_of_exact hexact hok

/-- `<` of two numbers compares their values. -/
theorem lt_eq : lt a b = if v < w then .true else .false := by
  have hva : a.hi.toInt * 2 ^ 64 + a.lo.toNat = v := ha.value
  have hvb : b.hi.toInt * 2 ^ 64 + b.lo.toNat = w := hb.value
  have hla := a.lo.isLt
  have hlb := b.lo.isLt
  rw [lt, ha.isVoid, hb.isVoid, if_neg (by decide)]
  by_cases hhi : a.hi = b.hi
  · rw [if_neg (not_not_intro hhi)]
    rw [hhi] at hva
    exact if_congr (by rw [BitVec.lt_def]; omega) rfl rfl
  · have hne : a.hi.toInt ≠ b.hi.toInt := fun h => hhi (BitVec.eq_of_toInt_eq h)
    rw [if_pos hhi]
    exact if_congr (by rw [BitVec.slt_iff_toInt_lt]; omega) rfl rfl

theorem truthy_lt : truthy (lt a b) = decide (v < w) := by
  rw [lt_eq ha hb]
  by_cases h : v < w
  · rw [if_pos h, decide_eq_true h]
    rfl
  · rw [if_neg h, decide_eq_false h]
    rfl

/-- The smaller number has the smaller value. -/
theorem Num.min : Num (min a b) (Min.min v w) := by
  rw [Q128.min, ha.isVoid, hb.isVoid, if_neg (by decide), if_neg (by decide), lt_eq ha hb]
  by_cases h : v < w
  · rw [if_pos h, if_pos rfl, min_eq_left h.le]
    exact ha
  · rw [if_neg h, if_neg (by decide), min_eq_right (not_lt.mp h)]
    exact hb

/-- The larger number has the larger value. -/
theorem Num.max : Num (max a b) (Max.max v w) := by
  rw [Q128.max, gt, ha.isVoid, hb.isVoid, if_neg (by decide), if_neg (by decide), lt_eq hb ha]
  by_cases h : w < v
  · rw [if_pos h, if_pos rfl, max_eq_left h.le]
    exact ha
  · rw [if_neg h, if_neg (by decide), max_eq_right (not_lt.mp h)]
    exact hb

omit hb in
/-- A number that is clamped between 0 and 1. -/
theorem Num.clamp : Num (clamp a zero one) (Min.min (Max.max v 0) (2 ^ 64)) := by
  rw [Q128.clamp, ha.isVoid, if_neg (by decide), if_neg (by decide)]
  exact (ha.max num_zero).min num_one

/-- Checked interpolation starts from the first value. -/
theorem Num.lerpC {t : Q128} {u : ℤ} (ht : Num t u) (hok : (lerpC a b t).ok = true) :
    Num (lerpC a b t).val (v + (u * (w - v)).tdiv (2 ^ 64)) := by
  rw [Q128.lerpC, Flagged.ok_bind, Flagged.ok_bind] at hok
  obtain ⟨hdiff, hscaled, hsum⟩ := hok
  exact ha.addC (ht.mulC (hb.subC ha hdiff) hscaled) hsum

end

end Q128

end Seraph
