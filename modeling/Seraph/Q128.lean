import Mathlib.Algebra.Group.Int.Defs
import Mathlib.Algebra.Group.Nat.Defs
import Mathlib.Data.Int.Notation
import Mathlib.Tactic.Ring

/-!
# Q64.64 numbers

A `Q128` is a signed number of 64 bits before the point and 64 behind it, and all ones are VOID. The
operations have no branches : they compute masks, and select a result with them. `bits` is the number
as the 128 bits that it is, in which the operations are addition, subtraction, negation and
multiplication modulo `2 ^ 128` (`bits_sum`, `bits_diff`, `bits_opposite`, `bits_mulAbs`). Addition
sees when the result does not fit; the others do not look (`q128_exact_iff`). Signed arithmetic that
overflows, as in `-INT64_MIN`, is taken in two's complement.
-/

namespace Seraph

/-- `Seraph_Q128`. `hi` is signed. -/
structure Q128 where
  hi : BitVec 64
  lo : BitVec 64
deriving DecidableEq, Repr

/-- `U128`. -/
structure U128 where
  lo : BitVec 64
  hi : BitVec 64
deriving DecidableEq, Repr

/-- `u64_mul_wide`, with 128-bit integers. -/
def u64MulWide (a b : BitVec 64) : U128 :=
  let r := a.setWidth 128 * b.setWidth 128
  ⟨r.setWidth 64, (r >>> 64).setWidth 64⟩

/-- `u64_mul_wide`, without them. -/
def u64MulWidePortable (a b : BitVec 64) : U128 :=
  let aLo := a &&& 0xFFFFFFFF
  let aHi := a >>> 32
  let bLo := b &&& 0xFFFFFFFF
  let bHi := b >>> 32
  let p0 := aLo * bLo
  let p1 := aLo * bHi
  let p2 := aHi * bLo
  let p3 := aHi * bHi
  let carry := ((p0 >>> 32) + (p1 &&& 0xFFFFFFFF) + (p2 &&& 0xFFFFFFFF)) >>> 32
  ⟨p0 + (p1 <<< 32) + (p2 <<< 32), p3 + (p1 >>> 32) + (p2 >>> 32) + carry⟩

namespace Q128

/-- `SERAPH_Q128_VOID`. -/
def void : Q128 :=
  ⟨-1, BitVec.allOnes 64⟩

/-- `SERAPH_Q128_ZERO`. -/
def zero : Q128 :=
  ⟨0, 0⟩

/-- `-(int64_t)c`, the mask of a condition. -/
def mask (c : Bool) : BitVec 64 :=
  -(if c then 1 else 0)

/-- Both words of a mask. -/
def maskOf (c : Bool) : Q128 :=
  ⟨mask c, mask c⟩

/-- `seraph_q128_is_void`. -/
def isVoid (x : Q128) : Bool :=
  x.hi == -1 && x.lo == BitVec.allOnes 64

/-- `seraph_q128_void_mask`. -/
def voidMask (x : Q128) : Q128 :=
  maskOf (x.hi == -1 && x.lo == BitVec.allOnes 64)

/-- `seraph_q128_void_mask2`. -/
def voidMask2 (a b : Q128) : Q128 :=
  maskOf ((a.hi == -1 && a.lo == BitVec.allOnes 64) || (b.hi == -1 && b.lo == BitVec.allOnes 64))

/-- `seraph_q128_select`. -/
def select (ifVoid ifValid mask : Q128) : Q128 :=
  ⟨(ifVoid.hi &&& mask.hi) ||| (ifValid.hi &&& ~~~mask.hi),
    (ifVoid.lo &&& mask.lo) ||| (ifValid.lo &&& ~~~mask.lo)⟩

/-- `x >= 0`, of a signed word. -/
def nonneg (x : BitVec 64) : Bool :=
  BitVec.sle 0 x

/-- `x < 0`, of a signed word. -/
def isNeg (x : BitVec 64) : Bool :=
  BitVec.slt x 0

/-- `seraph_q128_add`. -/
def add (a b : Q128) : Q128 :=
  let void_mask := voidMask2 a b
  let lo := a.lo + b.lo
  let carry : BitVec 64 := if lo < a.lo then 1 else 0
  let hi := a.hi + b.hi + carry
  let same_sign := mask (nonneg a.hi == nonneg b.hi)
  let result_diff := mask (nonneg a.hi != nonneg hi)
  let overflow := same_sign &&& result_diff
  select void ⟨hi, lo⟩ ⟨void_mask.hi ||| overflow, void_mask.lo ||| overflow⟩

/-- `seraph_q128_sub`. -/
def sub (a b : Q128) : Q128 :=
  let borrow : BitVec 64 := if a.lo < b.lo then 1 else 0
  select void ⟨a.hi - b.hi - borrow, a.lo - b.lo⟩ (voidMask2 a b)

/-- `seraph_q128_neg`. -/
def neg (x : Q128) : Q128 :=
  let result := select ⟨-x.hi, 0⟩ ⟨~~~x.hi, ~~~x.lo + 1⟩ (maskOf (x.lo == 0))
  select void result (voidMask x)

/-- `seraph_q128_abs`. -/
def abs (x : Q128) : Q128 :=
  let result := select (neg x) x (maskOf (isNeg x.hi))
  select void result (voidMask x)

/-- The middle 128 bits of the product of two absolute values. -/
def mulAbs (a b : Q128) : Q128 :=
  let p00 := u64MulWide a.lo b.lo
  let p01 := u64MulWide a.lo b.hi
  let p10 := u64MulWide a.hi b.lo
  let p11 := u64MulWide a.hi b.hi
  let resultLo := p00.hi
  let resultHi := p11.lo
  let carry1 : BitVec 64 := if resultLo + p01.lo < resultLo then 1 else 0
  let resultLo := resultLo + p01.lo
  let resultHi := resultHi + (p01.hi + carry1)
  let carry2 : BitVec 64 := if resultLo + p10.lo < resultLo then 1 else 0
  let resultLo := resultLo + p10.lo
  let resultHi := resultHi + (p10.hi + carry2)
  ⟨resultHi, resultLo⟩

/-- `seraph_q128_mul`. -/
def mul (a b : Q128) : Q128 :=
  let negative := maskOf (isNeg a.hi != isNeg b.hi)
  let result := mulAbs (abs a) (abs b)
  let result := select (neg result) result negative
  select void result (voidMask2 a b)

/-! ## The bits of a number -/

/-- The 128 bits of a number. -/
def bits (x : Q128) : ℕ :=
  x.hi.toNat * 2 ^ 64 + x.lo.toNat

/-- The number, in units of `2 ^ -64`. -/
def value (x : Q128) : ℤ :=
  x.hi.toInt * 2 ^ 64 + x.lo.toNat

theorem bits_lt (x : Q128) : x.bits < 2 ^ 128 := by
  have hhi := x.hi.isLt
  have hlo := x.lo.isLt
  unfold bits
  omega

theorem bits_injective {x y : Q128} (h : x.bits = y.bits) : x = y := by
  have hx := x.lo.isLt
  have hy := y.lo.isLt
  unfold bits at h
  obtain ⟨hi, lo⟩ := x
  obtain ⟨hi', lo'⟩ := y
  rw [mk.injEq]
  constructor <;> apply BitVec.eq_of_toNat_eq <;> simp only at h hx hy <;> omega

theorem bits_void : void.bits = 2 ^ 128 - 1 :=
  rfl

theorem isVoid_iff {x : Q128} : x.isVoid = true ↔ x.bits = 2 ^ 128 - 1 := by
  have hhi := x.hi.isLt
  have hlo := x.lo.isLt
  have hones : (-1 : BitVec 64).toNat = 2 ^ 64 - 1 := rfl
  have hall : (BitVec.allOnes 64).toNat = 2 ^ 64 - 1 := rfl
  rw [isVoid, Bool.and_eq_true, beq_iff_eq, beq_iff_eq, ← BitVec.toNat_inj, ← BitVec.toNat_inj,
    hones, hall]
  unfold bits
  omega

/-- The number is read off its bits. -/
theorem value_eq (x : Q128) :
    x.value = if x.bits < 2 ^ 127 then (x.bits : ℤ) else (x.bits : ℤ) - 2 ^ 128 := by
  have hhi := x.hi.isLt
  have hlo := x.lo.isLt
  unfold value bits
  rw [BitVec.toInt_eq_toNat_cond]
  split <;> split <;> omega

theorem nonneg_iff {x : Q128} : nonneg x.hi = true ↔ x.bits < 2 ^ 127 := by
  have hhi := x.hi.isLt
  have hlo := x.lo.isLt
  rw [nonneg, BitVec.sle_iff_toInt_le, BitVec.toInt_eq_toNat_cond, BitVec.toInt_eq_toNat_cond]
  unfold bits
  simp only [BitVec.ofNat_eq_ofNat, BitVec.toNat_ofNat]
  split <;> split <;> omega

theorem isNeg_iff {x : Q128} : isNeg x.hi = true ↔ 2 ^ 127 ≤ x.bits := by
  have hopposite : isNeg x.hi = !nonneg x.hi := by
    rw [isNeg, nonneg, BitVec.sle_eq_not_slt, Bool.not_not]
  rw [hopposite, Bool.not_eq_true', ← Bool.not_eq_true, nonneg_iff, Nat.not_lt]

/-! ## Masks -/

theorem select_mask (v x : Q128) (c : Bool) : select v x (maskOf c) = if c then v else x := by
  have hones : mask true = BitVec.allOnes 64 := by decide
  have hzeros : mask false = 0#64 := by decide
  cases c
  · simp only [select, maskOf, hzeros, BitVec.and_zero, BitVec.not_zero, BitVec.and_allOnes,
      BitVec.zero_or]
    rfl
  · simp only [select, maskOf, hones, BitVec.not_allOnes, BitVec.and_zero, BitVec.and_allOnes,
      BitVec.or_zero]
    rfl

theorem mask_and (c d : Bool) : mask c &&& mask d = mask (c && d) := by
  cases c <;> cases d <;> decide

theorem mask_or (c d : Bool) : mask c ||| mask d = mask (c || d) := by
  cases c <;> cases d <;> decide

theorem voidMask_eq (x : Q128) : voidMask x = maskOf x.isVoid :=
  rfl

theorem voidMask2_eq (a b : Q128) : voidMask2 a b = maskOf (a.isVoid || b.isVoid) :=
  rfl

/-! ## The operations on bits -/

/-- The sum, whether it fits or not. -/
def sum (a b : Q128) : Q128 :=
  ⟨a.hi + b.hi + (if a.lo + b.lo < a.lo then 1 else 0), a.lo + b.lo⟩

theorem bits_sum (a b : Q128) : (sum a b).bits = (a.bits + b.bits) % 2 ^ 128 := by
  have hahi := a.hi.isLt
  have halo := a.lo.isLt
  have hbhi := b.hi.isLt
  have hblo := b.lo.isLt
  unfold sum bits
  split
  · next hcarry =>
    rw [BitVec.lt_def, BitVec.toNat_add] at hcarry
    simp only [BitVec.toNat_add, BitVec.ofNat_eq_ofNat, BitVec.toNat_ofNat]
    omega
  · next hcarry =>
    rw [BitVec.lt_def, BitVec.toNat_add] at hcarry
    simp only [BitVec.toNat_add, BitVec.ofNat_eq_ofNat, BitVec.toNat_ofNat]
    omega

/-- The difference, whether it fits or not. -/
def diff (a b : Q128) : Q128 :=
  ⟨a.hi - b.hi - (if a.lo < b.lo then 1 else 0), a.lo - b.lo⟩

theorem bits_diff (a b : Q128) : (diff a b).bits = (a.bits + 2 ^ 128 - b.bits) % 2 ^ 128 := by
  have hahi := a.hi.isLt
  have halo := a.lo.isLt
  have hbhi := b.hi.isLt
  have hblo := b.lo.isLt
  unfold diff bits
  split
  · next hborrow =>
    rw [BitVec.lt_def] at hborrow
    simp only [BitVec.toNat_sub, BitVec.ofNat_eq_ofNat, BitVec.toNat_ofNat]
    omega
  · next hborrow =>
    rw [BitVec.lt_def] at hborrow
    simp only [BitVec.toNat_sub, BitVec.ofNat_eq_ofNat, BitVec.toNat_ofNat]
    omega

/-- The negation, whether it fits or not. -/
def opposite (x : Q128) : Q128 :=
  if x.lo == 0 then ⟨-x.hi, 0⟩ else ⟨~~~x.hi, ~~~x.lo + 1⟩

theorem bits_opposite (x : Q128) : (opposite x).bits = (2 ^ 128 - x.bits) % 2 ^ 128 := by
  have hhi := x.hi.isLt
  have hlo := x.lo.isLt
  unfold opposite
  split
  · next hzero =>
    rw [beq_iff_eq, ← BitVec.toNat_inj] at hzero
    simp only [BitVec.ofNat_eq_ofNat, BitVec.toNat_ofNat] at hzero
    simp only [bits, BitVec.toNat_neg, BitVec.ofNat_eq_ofNat, BitVec.toNat_ofNat]
    omega
  · next hne =>
    rw [beq_iff_eq, ← BitVec.toNat_inj] at hne
    simp only [BitVec.ofNat_eq_ofNat, BitVec.toNat_ofNat] at hne
    simp only [bits, BitVec.toNat_not, BitVec.toNat_add, BitVec.ofNat_eq_ofNat, BitVec.toNat_ofNat]
    omega

/-- The two words of a product. -/
theorem u64MulWide_eq (a b : BitVec 64) :
    (u64MulWide a b).hi.toNat * 2 ^ 64 + (u64MulWide a b).lo.toNat = a.toNat * b.toNat := by
  have hlt : a.toNat * b.toNat < 2 ^ 128 :=
    (Nat.mul_lt_mul'' a.isLt b.isLt).trans_eq (by norm_num)
  have ha : a.toNat % 2 ^ 128 = a.toNat := Nat.mod_eq_of_lt (a.isLt.trans (by decide))
  have hb : b.toNat % 2 ^ 128 = b.toNat := Nat.mod_eq_of_lt (b.isLt.trans (by decide))
  simp only [u64MulWide, BitVec.toNat_setWidth, BitVec.toNat_mul, BitVec.toNat_ushiftRight, ha, hb,
    Nat.shiftRight_eq_div_pow, Nat.mod_eq_of_lt hlt]
  omega

/-- The four products of half words give the same two words. -/
theorem u64MulWidePortable_eq (a b : BitVec 64) : u64MulWidePortable a b = u64MulWide a b := by
  have hwords : ∀ x y : U128, x.hi.toNat * 2 ^ 64 + x.lo.toNat = y.hi.toNat * 2 ^ 64 + y.lo.toNat →
      x = y := by
    rintro ⟨xlo, xhi⟩ ⟨ylo, yhi⟩ h
    have hx := xlo.isLt
    have hy := ylo.isLt
    dsimp only at h
    rw [BitVec.eq_of_toNat_eq (x := xlo) (y := ylo) (by omega),
      BitVec.eq_of_toNat_eq (x := xhi) (y := yhi) (by omega)]
  apply hwords
  rw [u64MulWide_eq]
  have hand : ∀ x : ℕ, x &&& 0xFFFFFFFF = x % 2 ^ 32 := fun x => Nat.and_two_pow_sub_one_eq_mod x 32
  have ha := a.isLt
  have hb := b.isLt
  have hhalf : ∀ x y : ℕ, x < 2 ^ 32 → y < 2 ^ 32 → x * y ≤ (2 ^ 32 - 1) * (2 ^ 32 - 1) :=
    fun x y hx hy => Nat.mul_le_mul (by omega) (by omega)
  have hproduct : a.toNat * b.toNat = a.toNat / 2 ^ 32 * (b.toNat / 2 ^ 32) * 2 ^ 64 +
      (a.toNat % 2 ^ 32 * (b.toNat / 2 ^ 32) + a.toNat / 2 ^ 32 * (b.toNat % 2 ^ 32)) * 2 ^ 32 +
      a.toNat % 2 ^ 32 * (b.toNat % 2 ^ 32) := by
    conv_lhs => rw [← Nat.div_add_mod a.toNat (2 ^ 32), ← Nat.div_add_mod b.toNat (2 ^ 32)]
    ring
  have h00 := hhalf (a.toNat % 2 ^ 32) (b.toNat % 2 ^ 32) (by omega) (by omega)
  have h01 := hhalf (a.toNat % 2 ^ 32) (b.toNat / 2 ^ 32) (by omega) (by omega)
  have h10 := hhalf (a.toNat / 2 ^ 32) (b.toNat % 2 ^ 32) (by omega) (by omega)
  have h11 := hhalf (a.toNat / 2 ^ 32) (b.toNat / 2 ^ 32) (by omega) (by omega)
  rw [hproduct]
  simp only [u64MulWidePortable, BitVec.toNat_add, BitVec.toNat_mul, BitVec.toNat_and,
    BitVec.toNat_ushiftRight, BitVec.toNat_shiftLeft, BitVec.ofNat_eq_ofNat, BitVec.toNat_ofNat,
    Nat.shiftRight_eq_div_pow, Nat.shiftLeft_eq, hand]
  generalize a.toNat % 2 ^ 32 * (b.toNat % 2 ^ 32) = p0 at *
  generalize a.toNat % 2 ^ 32 * (b.toNat / 2 ^ 32) = p1 at *
  generalize a.toNat / 2 ^ 32 * (b.toNat % 2 ^ 32) = p2 at *
  generalize a.toNat / 2 ^ 32 * (b.toNat / 2 ^ 32) = p3 at *
  clear hproduct hhalf hwords hand ha hb
  omega

/-- The partial products are added up. -/
theorem mulAbs_eq (a b : Q128) : mulAbs a b =
    sum (sum ⟨(u64MulWide a.hi b.hi).lo, (u64MulWide a.lo b.lo).hi⟩
      ⟨(u64MulWide a.lo b.hi).hi, (u64MulWide a.lo b.hi).lo⟩)
      ⟨(u64MulWide a.hi b.lo).hi, (u64MulWide a.hi b.lo).lo⟩ := by
  simp only [mulAbs, sum, BitVec.add_assoc]

/-- The middle of the product of two numbers without signs. -/
theorem bits_mulAbs (a b : Q128) :
    (mulAbs a b).bits = a.bits * b.bits / 2 ^ 64 % 2 ^ 128 := by
  have h00 := u64MulWide_eq a.lo b.lo
  have h01 := u64MulWide_eq a.lo b.hi
  have h10 := u64MulWide_eq a.hi b.lo
  have h11 := u64MulWide_eq a.hi b.hi
  have hproduct : a.bits * b.bits = a.hi.toNat * b.hi.toNat * 2 ^ 128 +
      (a.lo.toNat * b.hi.toNat + a.hi.toNat * b.lo.toNat) * 2 ^ 64 + a.lo.toNat * b.lo.toNat := by
    unfold bits
    ring
  have hlow := (u64MulWide a.lo b.lo).lo.isLt
  rw [mulAbs_eq, bits_sum, bits_sum, hproduct, ← h00, ← h01, ← h10, ← h11]
  unfold bits
  dsimp only
  omega

/-! ## Exactness -/

/-- A number of units of `2 ^ -64` that 128 bits can hold. -/
def Fits (v : ℤ) : Prop :=
  -2 ^ 127 ≤ v ∧ v < 2 ^ 127

/-- A number that is not VOID can stand for it : VOID has the bits of `-2 ^ -64`. -/
def Representable (v : ℤ) : Prop :=
  Fits v ∧ v ≠ -1

/-- A result is exact or VOID : VOID just where there is no number for it. -/
def Exact (v : ℤ) (r : Q128) : Prop :=
  (Representable v → r ≠ void ∧ r.value = v) ∧ (¬Representable v → r = void)

theorem value_void : void.value = -1 :=
  rfl

theorem exact_void {v : ℤ} : Exact v void ↔ ¬Representable v :=
  ⟨fun h hv => (h.1 hv).1 rfl, fun hv => ⟨fun h => absurd h hv, fun _ => rfl⟩⟩

/-- A result that has the right bits, as far as they go. -/
theorem exact_of_bits {v : ℤ} {r : Q128} (h : (r.bits : ℤ) = v % 2 ^ 128) :
    Exact v r ↔ Fits v ∨ v % 2 ^ 128 = 2 ^ 128 - 1 := by
  have hlt := r.bits_lt
  have hvoid : r = void ↔ r.bits = 2 ^ 128 - 1 :=
    ⟨fun h => h ▸ bits_void, fun h => bits_injective h⟩
  have hvalue := value_eq r
  unfold Exact Representable Fits
  rw [Ne, Ne, hvoid]
  constructor
  · rintro ⟨-, hnone⟩
    by_cases hfits : -2 ^ 127 ≤ v ∧ v < 2 ^ 127
    · exact Or.inl hfits
    · have := hnone fun h => hfits h.1
      omega
  · intro hor
    constructor
    · rintro ⟨⟨hlow, hhigh⟩, hne⟩
      rcases lt_or_ge v 0 with hneg | hpos
      · have hshort : v % 2 ^ 128 = v + 2 ^ 128 := by omega
        rw [if_neg (by omega)] at hvalue
        exact ⟨by omega, by omega⟩
      · have hshort : v % 2 ^ 128 = v := by omega
        rw [if_pos (by omega)] at hvalue
        exact ⟨by omega, by omega⟩
    · intro hnone
      omega

/-- A result that has the right bits, and is VOID instead where that does not fit. -/
theorem exact_ite {v : ℤ} {r : Q128} {c : Bool} (h : (r.bits : ℤ) = v % 2 ^ 128)
    (hc : c = true ↔ ¬Fits v) : Exact v (if c then void else r) := by
  by_cases hfits : Fits v
  · rw [if_neg fun h => hc.1 h hfits]
    exact (exact_of_bits h).2 (Or.inl hfits)
  · rw [if_pos (hc.2 hfits)]
    exact exact_void.2 fun h => hfits h.1

variable {a b : Q128}

/-- The test for an overflow, from the signs of the operands and of the sum. -/
def overflows (a b : Q128) : Bool :=
  (nonneg a.hi == nonneg b.hi) && (nonneg a.hi != nonneg (sum a b).hi)

theorem add_eq_select (a b : Q128) :
    add a b = select void (sum a b) (maskOf ((a.isVoid || b.isVoid) || overflows a b)) := by
  have hmask : mask ((a.isVoid || b.isVoid) || overflows a b) =
      mask (a.isVoid || b.isVoid) ||| (mask (nonneg a.hi == nonneg b.hi) &&&
        mask (nonneg a.hi != nonneg (sum a b).hi)) := by
    rw [mask_and, mask_or, overflows]
  rw [maskOf, hmask]
  rfl

theorem add_eq (ha : a.isVoid = false) (hb : b.isVoid = false) :
    add a b = if overflows a b then void else sum a b := by
  rw [add_eq_select, ha, hb, select_mask]
  rfl

/-- The sum is exact or VOID. -/
theorem exact_add (ha : a.isVoid = false) (hb : b.isVoid = false) :
    Exact (a.value + b.value) (add a b) := by
  have halt := a.bits_lt
  have hblt := b.bits_lt
  have hva := value_eq a
  have hvb := value_eq b
  have hbits := bits_sum a b
  rw [add_eq ha hb]
  refine exact_ite ?_ ?_
  · split at hva <;> split at hvb <;> omega
  · have hnonneg : ∀ x : Q128, nonneg x.hi = decide (x.bits < 2 ^ 127) := fun x => by
      rw [Bool.eq_iff_iff, nonneg_iff, decide_eq_true_iff]
    rw [overflows, hnonneg, hnonneg, hnonneg, Bool.and_eq_true, beq_iff_eq, bne_iff_ne, ne_eq,
      decide_eq_decide, decide_eq_decide, Fits]
    split at hva <;> split at hvb <;> omega

theorem sub_eq (ha : a.isVoid = false) (hb : b.isVoid = false) : sub a b = diff a b := by
  have hsub : sub a b = select void (diff a b) (voidMask2 a b) := rfl
  rw [hsub, voidMask2_eq, ha, hb, select_mask]
  rfl

/-- The difference is exact or VOID just where it fits, or has the bits of VOID. -/
theorem exact_sub_iff (ha : a.isVoid = false) (hb : b.isVoid = false) :
    Exact (a.value - b.value) (sub a b) ↔
      Fits (a.value - b.value) ∨ (a.value - b.value) % 2 ^ 128 = 2 ^ 128 - 1 := by
  have halt := a.bits_lt
  have hblt := b.bits_lt
  have hva := value_eq a
  have hvb := value_eq b
  have hbits := bits_diff a b
  rw [sub_eq ha hb]
  refine exact_of_bits ?_
  split at hva <;> split at hvb <;> omega

theorem neg_eq (ha : a.isVoid = false) : neg a = opposite a := by
  have hneg : neg a = select void (select ⟨-a.hi, 0⟩ ⟨~~~a.hi, ~~~a.lo + 1⟩ (maskOf (a.lo == 0)))
      (voidMask a) := rfl
  rw [hneg, voidMask_eq, ha, select_mask, select_mask]
  rfl

theorem neg_void (ha : a.isVoid = true) : neg a = void := by
  have hneg : neg a = select void (select ⟨-a.hi, 0⟩ ⟨~~~a.hi, ~~~a.lo + 1⟩ (maskOf (a.lo == 0)))
      (voidMask a) := rfl
  rw [hneg, voidMask_eq, ha, select_mask]
  rfl

/-- The negation is exact or VOID, but for that of the least number. -/
theorem exact_neg_iff (ha : a.isVoid = false) :
    Exact (-a.value) (neg a) ↔ a.value ≠ -2 ^ 127 := by
  have halt := a.bits_lt
  have hva := value_eq a
  have hbits := bits_opposite a
  rw [neg_eq ha, exact_of_bits (by split at hva <;> omega), Fits]
  split at hva <;> omega

/-- The absolute value has the bits of the number without its sign. -/
theorem bits_abs (ha : a.isVoid = false) : (abs a).bits = a.value.natAbs := by
  have halt := a.bits_lt
  have hva := value_eq a
  have habs : abs a = select void (select (neg a) a (maskOf (isNeg a.hi))) (voidMask a) := rfl
  rw [habs, voidMask_eq, ha, select_mask, select_mask, neg_eq ha]
  by_cases hneg : isNeg a.hi = true
  · rw [if_neg (by decide), if_pos hneg, bits_opposite]
    rw [isNeg_iff] at hneg
    split at hva <;> omega
  · rw [if_neg (by decide), if_neg hneg]
    rw [isNeg_iff] at hneg
    split at hva <;> omega

theorem isNeg_iff_value : isNeg a.hi = true ↔ a.value < 0 := by
  have halt := a.bits_lt
  have hva := value_eq a
  rw [isNeg_iff]
  split at hva <;> omega

/-- The product of the absolute values, in units of `2 ^ -64` and rounded down. -/
def absProduct (a b : Q128) : ℕ :=
  a.value.natAbs * b.value.natAbs / 2 ^ 64

/-- The product, in units of `2 ^ -64` and truncated toward zero. -/
def truncatedProduct (a b : Q128) : ℤ :=
  (a.value * b.value).tdiv (2 ^ 64)

theorem truncatedProduct_eq (a b : Q128) : truncatedProduct a b =
    if isNeg a.hi != isNeg b.hi then -(absProduct a b : ℤ) else absProduct a b := by
  have hsign : ∀ x : Q128, x.value = if isNeg x.hi then -(x.value.natAbs : ℤ)
      else x.value.natAbs := by
    intro x
    by_cases hneg : isNeg x.hi = true
    · rw [if_pos hneg]
      have := isNeg_iff_value.1 hneg
      omega
    · rw [if_neg hneg]
      have := mt isNeg_iff_value.2 hneg
      omega
  have hcast : ((a.value.natAbs : ℤ) * b.value.natAbs).tdiv (2 ^ 64) = absProduct a b :=
    (Int.ofNat_tdiv _ _).symm
  have ha := hsign a
  have hb := hsign b
  unfold truncatedProduct
  cases hna : isNeg a.hi <;> cases hnb : isNeg b.hi <;>
    simp only [hna, hnb, if_true, if_false, Bool.false_eq_true] at ha hb <;> rw [ha, hb]
  · rw [hcast]
    rfl
  · rw [Int.mul_neg, Int.neg_tdiv, hcast]
    rfl
  · rw [Int.neg_mul, Int.neg_tdiv, hcast]
    rfl
  · rw [Int.neg_mul_neg, hcast]
    rfl

theorem mul_eq (ha : a.isVoid = false) (hb : b.isVoid = false) : mul a b =
    if isNeg a.hi != isNeg b.hi then neg (mulAbs (abs a) (abs b)) else mulAbs (abs a) (abs b) := by
  have hmul : mul a b = select void (select (neg (mulAbs (abs a) (abs b)))
      (mulAbs (abs a) (abs b)) (maskOf (isNeg a.hi != isNeg b.hi))) (voidMask2 a b) := rfl
  rw [hmul, voidMask2_eq, ha, hb, select_mask, select_mask]
  rfl

/-- The product is exact or VOID just where it fits, or the 128 bits that are left of it are those of
VOID, before or after they are negated. -/
theorem exact_mul_iff (ha : a.isVoid = false) (hb : b.isVoid = false) :
    Exact (truncatedProduct a b) (mul a b) ↔
      Fits (truncatedProduct a b) ∨ truncatedProduct a b % 2 ^ 128 = 2 ^ 128 - 1 ∨
        truncatedProduct a b < 0 ∧ truncatedProduct a b % 2 ^ 128 = 1 := by
  have hm : (mulAbs (abs a) (abs b)).bits = absProduct a b % 2 ^ 128 := by
    rw [bits_mulAbs, bits_abs ha, bits_abs hb]
    rfl
  rw [truncatedProduct_eq, mul_eq ha hb]
  generalize mulAbs (abs a) (abs b) = m at hm ⊢
  generalize absProduct a b = p at hm ⊢
  by_cases hsign : (isNeg a.hi != isNeg b.hi) = true
  · rw [if_pos hsign, if_pos hsign]
    by_cases hvoid : m.isVoid = true
    · rw [neg_void hvoid, exact_void, Representable, Fits]
      rw [isVoid_iff] at hvoid
      omega
    · have hbits := bits_opposite m
      rw [neg_eq (by simpa using hvoid), exact_of_bits (by omega), Fits]
      rw [isVoid_iff] at hvoid
      omega
  · rw [if_neg hsign, if_neg hsign, exact_of_bits (by omega), Fits]
    omega

/-! ## All of it -/

/-- What the operations promise for two operands : a VOID operand gives VOID, and other results are
exact or VOID. -/
structure ExactOrVoid (a b : Q128) : Prop where
  ofVoid : a = void → neg a = void
  ofEither : a = void ∨ b = void → add a b = void ∧ sub a b = void ∧ mul a b = void
  negation : a ≠ void → Exact (-a.value) (neg a)
  addition : a ≠ void → b ≠ void → Exact (a.value + b.value) (add a b)
  difference : a ≠ void → b ≠ void → Exact (a.value - b.value) (sub a b)
  product : a ≠ void → b ≠ void → Exact (truncatedProduct a b) (mul a b)

theorem isVoid_eq_true : a.isVoid = true ↔ a = void := by
  rw [isVoid_iff, ← bits_void]
  exact ⟨bits_injective, fun h => h ▸ rfl⟩

/-- A VOID operand gives VOID. -/
theorem void_of_void (h : a = void ∨ b = void) :
    add a b = void ∧ sub a b = void ∧ mul a b = void := by
  have hvoid : (a.isVoid || b.isVoid) = true := by
    rw [Bool.or_eq_true, isVoid_eq_true, isVoid_eq_true]
    exact h
  have hsub : sub a b = select void (diff a b) (voidMask2 a b) := rfl
  have hmul : mul a b = select void (select (neg (mulAbs (abs a) (abs b)))
      (mulAbs (abs a) (abs b)) (maskOf (isNeg a.hi != isNeg b.hi))) (voidMask2 a b) := rfl
  refine ⟨?_, ?_, ?_⟩
  · rw [add_eq_select, hvoid, Bool.true_or, select_mask]
    rfl
  · rw [hsub, voidMask2_eq, hvoid, select_mask]
    rfl
  · rw [hmul, voidMask2_eq, hvoid, select_mask]
    rfl

/-- The operations keep what they promise just where negation, difference and product fit, or what is
left of them is VOID by luck. -/
theorem q128_exact_iff (a b : Q128) : ExactOrVoid a b ↔ a.value ≠ -2 ^ 127 ∧ (a ≠ void → b ≠ void →
    (Fits (a.value - b.value) ∨ (a.value - b.value) % 2 ^ 128 = 2 ^ 128 - 1) ∧
    (Fits (truncatedProduct a b) ∨ truncatedProduct a b % 2 ^ 128 = 2 ^ 128 - 1 ∨
      truncatedProduct a b < 0 ∧ truncatedProduct a b % 2 ^ 128 = 1)) := by
  have hne : ∀ {x : Q128}, x ≠ void → x.isVoid = false := fun h =>
    Bool.eq_false_iff.2 fun hvoid => h (isVoid_eq_true.1 hvoid)
  constructor
  · intro h
    refine ⟨fun hmin => ?_, fun ha hb => ⟨?_, ?_⟩⟩
    · have ha : a ≠ void := by
        rintro rfl
        cases hmin
      exact (exact_neg_iff (hne ha)).1 (h.negation ha) hmin
    · exact (exact_sub_iff (hne ha) (hne hb)).1 (h.difference ha hb)
    · exact (exact_mul_iff (hne ha) (hne hb)).1 (h.product ha hb)
  · rintro ⟨hmin, hboth⟩
    exact ⟨fun ha => neg_void (isVoid_eq_true.2 ha), void_of_void,
      fun ha => (exact_neg_iff (hne ha)).2 hmin, fun ha hb => exact_add (hne ha) (hne hb),
      fun ha hb => (exact_sub_iff (hne ha) (hne hb)).2 (hboth ha hb).1,
      fun ha hb => (exact_mul_iff (hne ha) (hne hb)).2 (hboth ha hb).2⟩

/-- The largest whole number less minus one. -/
theorem not_exact_largest : ¬ExactOrVoid ⟨0x7FFFFFFFFFFFFFFF, 0⟩ ⟨-1, 0⟩ := by
  intro h
  have hvoid := (h.difference (by decide) (by decide)).2 fun hr => absurd hr.1.2 (by decide)
  exact absurd hvoid (by decide)

end Q128

end Seraph
