import Mathlib.Data.Int.Notation
import Mathlib.Data.Nat.Notation
import Mathlib.Tactic.NormNum
import Mathlib.Tactic.SplitIfs

/-!
# Integers that may be VOID

The operations of `integers.h` have no branches : they compute masks for an overflow, for the mode
and for operands that are VOID, and select a result with them (`finish`). All ones are VOID, of
signed numbers as well, so that a saturated result stops one short of the largest number. What C
leaves undefined, a division by zero, the least number divided by -1 and a negation that overflows,
is `none`.

Each operation should give the exact result, wrapped around or clamped as its mode says (`exactIn`).
Where the last steps select it, they do so unless a result that must be clamped is the largest
number itself (`finish_iff`).
-/

namespace Seraph

/-- `Seraph_ArithMode`. -/
inductive ArithMode where
  | void
  | wrap
  | saturate
deriving DecidableEq, Repr

namespace Entropic

variable {w : ℕ}

/-! ## The operations -/

/-- `SERAPH_VOID_U32`, `SERAPH_VOID_I64` and so on. -/
def voidOf (w : ℕ) : BitVec w :=
  BitVec.allOnes w

/-- `-(T)c`, the mask of a condition. -/
def condMask (c : Bool) : BitVec w :=
  -(if c then 1 else 0)

/-- `seraph_select_u64` and its siblings. -/
def select (ifVoid ifValid mask : BitVec w) : BitVec w :=
  (ifVoid &&& mask) ||| (ifValid &&& ~~~mask)

/-- `seraph_void_mask_u64` and its siblings. -/
def voidMask (x : BitVec w) : BitVec w :=
  condMask (x == voidOf w)

/-- `seraph_void_mask2_u64` and its siblings. -/
def voidMask2 (a b : BitVec w) : BitVec w :=
  voidMask a ||| voidMask b

/-- `SERAPH_SAT_MAX_U64`, `SERAPH_SAT_MAX_U32`. -/
def satMaxU (w : ℕ) : BitVec w :=
  BitVec.allOnes w - 1

/-- `SERAPH_SAT_MAX_I64`, `SERAPH_SAT_MAX_I32`. -/
def satMaxI (w : ℕ) : BitVec w :=
  BitVec.intMax w - 1

/-- `SERAPH_SAT_MIN_I64`, `SERAPH_SAT_MIN_I32`. -/
def satMinI (w : ℕ) : BitVec w :=
  BitVec.intMin w

/-- The selections that end an operation. -/
def finish (result sat overflow void_mask : BitVec w) (mode : ArithMode) : BitVec w :=
  let is_void_mode := condMask (mode == .void)
  let is_sat_mode := condMask (mode == .saturate)
  let void_result := select (voidOf w) result (overflow &&& is_void_mode)
  let sat_result := select sat void_result (overflow &&& is_sat_mode)
  select (voidOf w) sat_result void_mask

/-- A division of unsigned numbers. -/
def divideU (a b : BitVec w) : Option (BitVec w) :=
  if b = 0 then none else some (a / b)

/-- A division of signed numbers. -/
def divideI (a b : BitVec w) : Option (BitVec w) :=
  if b = 0 ∨ a = BitVec.intMin w ∧ b = -1 then none else some (a.sdiv b)

/-- A negation of a signed number. -/
def negateI (a : BitVec w) : Option (BitVec w) :=
  if a = BitVec.intMin w then none else some (-a)

/-- `seraph_add_u64`, `seraph_add_u32`. -/
def addU (a b : BitVec w) (mode : ArithMode) : BitVec w :=
  let result := a + b
  let overflow := condMask (BitVec.ult result a)
  finish result (satMaxU w) overflow (voidMask2 a b) mode

/-- `seraph_add_i64`, `seraph_add_i32`. -/
def addI (a b : BitVec w) (mode : ArithMode) : BitVec w :=
  let result := a + b
  let pos_overflow := condMask (BitVec.slt 0 a && BitVec.slt 0 b && BitVec.sle result 0)
  let neg_overflow := condMask (BitVec.slt a 0 && BitVec.slt b 0 && BitVec.sle 0 result)
  let any_overflow := pos_overflow ||| neg_overflow
  let sat_val := select (satMinI w) (satMaxI w) neg_overflow
  finish result sat_val any_overflow (voidMask2 a b) mode

/-- `seraph_sub_u64`, `seraph_sub_u32`. -/
def subU (a b : BitVec w) (mode : ArithMode) : BitVec w :=
  let result := a - b
  let underflow := condMask (BitVec.ult a b)
  finish result 0 underflow (voidMask2 a b) mode

/-- `seraph_sub_i64`. -/
def subI64 (a b : BitVec 64) (mode : ArithMode) : BitVec 64 :=
  let result := a - b
  let pos_overflow := condMask (BitVec.slt 0 a && BitVec.slt b 0 && BitVec.sle result 0)
  let neg_overflow := condMask (BitVec.slt a 0 && BitVec.slt 0 b && BitVec.sle 0 result)
  let any_overflow := pos_overflow ||| neg_overflow
  let sat_val := select (satMinI 64) (satMaxI 64) neg_overflow
  finish result sat_val any_overflow (voidMask2 a b) mode

/-- `seraph_mul_u64`. -/
def mulU64 (a b : BitVec 64) (mode : ArithMode) : Option (BitVec 64) := do
  let result := a * b
  let safe_a := a ||| condMask (a == 0)
  let most ← divideU (BitVec.allOnes 64) safe_a
  let overflow := condMask (a != 0 && BitVec.ult most b)
  return finish result (satMaxU 64) overflow (voidMask2 a b) mode

/-- `seraph_mul_u32`. -/
def mulU32 (a b : BitVec 32) (mode : ArithMode) : BitVec 32 :=
  let wide := a.setWidth 64 * b.setWidth 64
  let result := wide.setWidth 32
  let overflow := condMask (BitVec.ult 0xFFFFFFFF wide)
  finish result (satMaxU 32) overflow (voidMask2 a b) mode

/-- `seraph_mul_i64`. -/
def mulI64 (a b : BitVec 64) (mode : ArithMode) : Option (BitVec 64) := do
  let result := a * b
  let safe_a := a ||| condMask (a == 0)
  let safe_b := b ||| condMask (b == 0)
  let max_b ← divideI (BitVec.intMax 64) safe_b
  let ov1 := condMask (BitVec.slt 0 a && BitVec.slt 0 b && BitVec.slt max_b a)
  let min_a ← divideI (BitVec.intMin 64) safe_a
  let ov2 := condMask (BitVec.slt 0 a && BitVec.slt b 0 && BitVec.slt b min_a)
  let min_b ← divideI (BitVec.intMin 64) safe_b
  let ov3 := condMask (BitVec.slt a 0 && BitVec.slt 0 b && BitVec.slt a min_b)
  let max_a ← divideI (BitVec.intMax 64) safe_a
  let ov4 := condMask (BitVec.slt a 0 && BitVec.slt b 0 && a != 0 && BitVec.slt b max_a)
  let overflow := ov1 ||| ov2 ||| ov3 ||| ov4
  let same_sign := condMask (BitVec.slt 0 a == BitVec.slt 0 b)
  let sat_val := select (satMinI 64) (satMaxI 64) (~~~same_sign)
  return finish result sat_val overflow (voidMask2 a b) mode

/-- `seraph_div_u64`, `seraph_div_u32`. -/
def divU (a b : BitVec w) : Option (BitVec w) := do
  let safe_b := b ||| condMask (b == 0)
  let result ← divideU a safe_b
  let void_mask := voidMask2 a b ||| condMask (b == 0)
  return select (voidOf w) result void_mask

/-- `seraph_div_i64`. -/
def divI64 (a b : BitVec 64) (mode : ArithMode) : Option (BitVec 64) := do
  let div_zero := condMask (b == 0)
  let overflow := condMask (a == BitVec.intMin 64 && b == -1)
  let void_mask := voidMask2 a b ||| div_zero
  let is_dangerous := div_zero ||| overflow
  let safe_b := if is_dangerous ≠ 0 then 1 else b
  let result ← divideI a safe_b
  let is_void_mode := condMask (mode == .void)
  let is_sat_mode := condMask (mode == .saturate)
  let void_result := select (voidOf 64) result (overflow &&& is_void_mode)
  let sat_result := select (satMaxI 64) void_result (overflow &&& is_sat_mode)
  let wrap_result := select (BitVec.intMin 64) sat_result
    (overflow &&& ~~~is_void_mode &&& ~~~is_sat_mode)
  return select (voidOf 64) wrap_result void_mask

/-- `seraph_neg_i64`. -/
def negI64 (a : BitVec 64) (mode : ArithMode) : Option (BitVec 64) := do
  let result ← negateI a
  let overflow := condMask (a == BitVec.intMin 64)
  return finish result (satMaxI 64) overflow (voidMask a) mode

/-! ## What an operation should give -/

/-- The exact result in a mode, for numbers from `lo` to `hi`. -/
def exactIn (w : ℕ) (lo hi z : ℤ) (mode : ArithMode) : BitVec w :=
  match mode with
  | .void => if lo ≤ z ∧ z ≤ hi then BitVec.ofInt w z else voidOf w
  | .wrap => BitVec.ofInt w z
  | .saturate => BitVec.ofInt w (max lo (min (hi - 1) z))

/-! ## Masks -/

theorem condMask_true : (condMask true : BitVec w) = BitVec.allOnes w := by
  rw [condMask, if_pos rfl]
  exact BitVec.neg_one_eq_allOnes

theorem condMask_false : (condMask false : BitVec w) = 0 := by
  rw [condMask, if_neg Bool.false_ne_true]
  exact BitVec.neg_zero w

theorem condMask_and (c d : Bool) : (condMask c &&& condMask d : BitVec w) = condMask (c && d) := by
  cases c <;> cases d <;> simp [condMask_true, condMask_false]

theorem condMask_or (c d : Bool) : (condMask c ||| condMask d : BitVec w) = condMask (c || d) := by
  cases c <;> cases d <;> simp [condMask_true, condMask_false]

theorem condMask_not (c : Bool) : (~~~condMask c : BitVec w) = condMask !c := by
  cases c <;> simp [condMask_true, condMask_false]

theorem select_condMask (x y : BitVec w) (c : Bool) :
    select x y (condMask c) = if c then x else y := by
  cases c <;> simp [select, condMask_true, condMask_false]

theorem voidMask2_eq (a b : BitVec w) : voidMask2 a b = condMask (a == voidOf w || b == voidOf w) :=
  condMask_or _ _

/-- What the last selections come to. -/
theorem finish_eq (result sat : BitVec w) (overflow isVoid : Bool) (mode : ArithMode) :
    finish result sat (condMask overflow) (condMask isVoid) mode =
      if isVoid then voidOf w
      else if overflow then
        match mode with
        | .void => voidOf w
        | .wrap => result
        | .saturate => sat
      else result := by
  unfold finish
  simp only [condMask_and, select_condMask]
  cases mode <;> cases overflow <;> rfl

theorem ofInt_pred_ne (hw : 0 < w) (z : ℤ) : BitVec.ofInt w (z - 1) ≠ BitVec.ofInt w z := by
  intro h
  have hone : 1#w = 0#w := by
    have hsub : BitVec.ofInt w (z - 1) + BitVec.ofInt w 1 = BitVec.ofInt w z := by
      rw [← BitVec.ofInt_add, Int.sub_add_cancel]
    rw [h] at hsub
    simpa using hsub
  have hnat := congrArg BitVec.toNat hone
  rw [BitVec.toNat_ofNat, BitVec.toNat_ofNat, Nat.zero_mod,
    Nat.mod_eq_of_lt (Nat.one_lt_two_pow hw.ne')] at hnat
  exact absurd hnat one_ne_zero

/-- The selections give the exact result unless one that must be clamped is the largest number. -/
theorem finish_iff {result sat : BitVec w} {lo hi z : ℤ} {overflow isVoid : Bool}
    (hw : 0 < w) (hlo : lo < hi) (hresult : result = BitVec.ofInt w z)
    (hoverflow : overflow = true ↔ ¬ (lo ≤ z ∧ z ≤ hi))
    (hsat : overflow = true → sat = BitVec.ofInt w (max lo (min (hi - 1) z))) (mode : ArithMode) :
    finish result sat (condMask overflow) (condMask isVoid) mode =
        (if isVoid then voidOf w else exactIn w lo hi z mode) ↔
      isVoid = true ∨ mode ≠ .saturate ∨ z ≠ hi := by
  rw [finish_eq]
  cases isVoid with
  | true => exact iff_of_true rfl (.inl rfl)
  | false =>
    simp only [Bool.false_eq_true, if_false, false_or]
    cases overflow with
    | true =>
      have hout := hoverflow.1 rfl
      refine iff_of_true ?_ (.inr fun heq => hout ⟨by omega, by omega⟩)
      cases mode with
      | void => exact (if_neg hout).symm
      | wrap => exact hresult
      | saturate => exact hsat rfl
    | false =>
      have hin : lo ≤ z ∧ z ≤ hi := by
        by_contra hout
        exact absurd (hoverflow.2 hout) Bool.false_ne_true
      simp only [Bool.false_eq_true, if_false, hresult]
      cases mode with
      | void => exact iff_of_true (if_pos hin).symm (.inl nofun)
      | wrap => exact iff_of_true rfl (.inl nofun)
      | saturate =>
        simp only [exactIn, ne_eq, not_true_eq_false, false_or]
        constructor
        · rintro heq rfl
          rw [min_eq_left (by omega), max_eq_right (by omega)] at heq
          exact ofInt_pred_ne hw z heq.symm
        · intro hne
          rw [min_eq_right (by omega), max_eq_right hin.1]

theorem finish_plain_iff {result sat : BitVec w} {lo hi z : ℤ} {overflow : Bool}
    (hw : 0 < w) (hlo : lo < hi) (hresult : result = BitVec.ofInt w z)
    (hoverflow : overflow = true ↔ ¬ (lo ≤ z ∧ z ≤ hi))
    (hsat : overflow = true → sat = BitVec.ofInt w (max lo (min (hi - 1) z))) (mode : ArithMode) :
    finish result sat (condMask overflow) (condMask false) mode = exactIn w lo hi z mode ↔
      mode ≠ .saturate ∨ z ≠ hi := by
  simpa only [Bool.false_eq_true, if_false, false_or] using
    @finish_iff w result sat lo hi z overflow false hw hlo hresult hoverflow hsat mode

/-- A result that is in the range. -/
theorem finish_range_iff {result : BitVec w} (sat : BitVec w) {lo hi z : ℤ} (isVoid : Bool)
    (hw : 0 < w) (hlo : lo < hi) (hresult : result = BitVec.ofInt w z) (hz : lo ≤ z ∧ z ≤ hi)
    (mode : ArithMode) :
    finish result sat (condMask false) (condMask isVoid) mode =
        (if isVoid then voidOf w else exactIn w lo hi z mode) ↔
      isVoid = true ∨ mode ≠ .saturate ∨ z ≠ hi :=
  finish_iff hw hlo hresult (iff_of_false Bool.false_ne_true fun hout => hout hz) nofun mode

end Entropic

end Seraph
