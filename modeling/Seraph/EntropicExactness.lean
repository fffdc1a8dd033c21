import Seraph.EntropicIntegers

/-!
# Which integer operations are exact

For every operation of `integers.h` the exact result is the operation on the numbers that the bits
stand for, and the overflow that the code computes is compared with the range of the type
(`addU_iff`, `addI_iff`, `subU_iff`, `subI64_iff`, `mulU64_iff`, `mulU32_iff`, `mulI64_iff`,
`divU_eq`, `divI64_iff`, `negI64_iff`). `Operation.meets_mode_iff` says when an operation gives what
its mode promises and evaluates nothing that C leaves undefined.
-/

namespace Seraph

namespace Entropic

variable {w : ℕ}

/-! ## Unsigned numbers -/

theorem ofInt_natCast_toNat (x : BitVec w) : BitVec.ofInt w (x.toNat : ℤ) = x := by
  rw [BitVec.ofInt_natCast, BitVec.ofNat_toNat, BitVec.setWidth_eq]

theorem satMaxU_eq (w : ℕ) : satMaxU w = BitVec.ofInt w ((2 : ℤ) ^ w - 1 - 1) := by
  have hall : BitVec.ofInt w ((2 : ℤ) ^ w - 1) = BitVec.allOnes w := by
    rw [← ofInt_natCast_toNat (BitVec.allOnes w), BitVec.toNat_allOnes]
    congr 1
    have := Nat.one_le_two_pow (n := w)
    push_cast [Nat.cast_sub this]
    rfl
  rw [satMaxU, ← hall, sub_eq_add_neg ((2 : ℤ) ^ w - 1), BitVec.ofInt_add, BitVec.ofInt_neg,
    BitVec.sub_eq_add_neg]
  simp

/-- The range of the unsigned numbers. -/
theorem range_pos (hw : 0 < w) : (0 : ℤ) < 2 ^ w - 1 := by
  have h := Nat.one_lt_two_pow hw.ne'
  have hcast : ((2 ^ w : ℕ) : ℤ) = 2 ^ w := by push_cast; rfl
  omega

theorem addU_iff (hw : 0 < w) (a b : BitVec w) (mode : ArithMode) :
    addU a b mode = (if a == voidOf w || b == voidOf w then voidOf w
        else exactIn w 0 (2 ^ w - 1) (a.toNat + b.toNat) mode) ↔
      (a == voidOf w || b == voidOf w) = true ∨ mode ≠ .saturate ∨
        (a.toNat + b.toNat : ℤ) ≠ 2 ^ w - 1 := by
  have hcast : ((2 ^ w : ℕ) : ℤ) = 2 ^ w := by push_cast; rfl
  have ha := a.isLt
  have hb := b.isLt
  have hover : BitVec.ult (a + b) a = true ↔
      ¬ ((0 : ℤ) ≤ a.toNat + b.toNat ∧ (a.toNat + b.toNat : ℤ) ≤ 2 ^ w - 1) := by
    rw [BitVec.ult, decide_eq_true_iff, BitVec.toNat_add, Nat.add_mod_eq_ite]
    rw [Nat.mod_eq_of_lt ha, Nat.mod_eq_of_lt hb]
    split <;> omega
  rw [addU, voidMask2_eq]
  refine finish_iff hw (range_pos hw) ?_ hover (fun h => ?_) mode
  · rw [BitVec.ofInt_add, ofInt_natCast_toNat, ofInt_natCast_toNat]
  · have hout := hover.1 h
    rw [satMaxU_eq]
    congr 1
    omega

theorem subU_iff (hw : 0 < w) (a b : BitVec w) (mode : ArithMode) :
    subU a b mode = (if a == voidOf w || b == voidOf w then voidOf w
        else exactIn w 0 (2 ^ w - 1) (a.toNat - b.toNat) mode) ↔
      (a == voidOf w || b == voidOf w) = true ∨ mode ≠ .saturate ∨
        (a.toNat - b.toNat : ℤ) ≠ 2 ^ w - 1 := by
  have hcast : ((2 ^ w : ℕ) : ℤ) = 2 ^ w := by push_cast; rfl
  have ha := a.isLt
  have hb := b.isLt
  have hover : BitVec.ult a b = true ↔
      ¬ ((0 : ℤ) ≤ a.toNat - b.toNat ∧ (a.toNat - b.toNat : ℤ) ≤ 2 ^ w - 1) := by
    rw [BitVec.ult, decide_eq_true_iff]
    omega
  rw [subU, voidMask2_eq]
  refine finish_iff hw (range_pos hw) ?_ hover (fun h => ?_) mode
  · rw [sub_eq_add_neg (a.toNat : ℤ), BitVec.ofInt_add, BitVec.ofInt_neg, ofInt_natCast_toNat,
      ofInt_natCast_toNat, BitVec.sub_eq_add_neg]
  · have hout := hover.1 h
    have hpos := range_pos hw
    rw [show max (0 : ℤ) (min (2 ^ w - 1 - 1) (a.toNat - b.toNat)) = 0 by omega]
    rfl

/-- A divisor that is all ones instead of zero. -/
theorem safe_eq (x : BitVec w) :
    x ||| condMask (x == 0) = if x = 0 then BitVec.allOnes w else x := by
  by_cases hx : x = 0
  · rw [if_pos hx, hx, beq_self_eq_true, condMask_true, BitVec.or_allOnes]
  · rw [if_neg hx, beq_eq_false_iff_ne.2 hx, condMask_false]
    exact BitVec.or_zero

theorem safe_ne (hw : 0 < w) (x : BitVec w) : x ||| condMask (x == 0) ≠ 0 := by
  rw [safe_eq]
  split
  · intro h
    have hnat : (BitVec.allOnes w).toNat = 0 := by
      rw [h]
      simp
    have hlt := Nat.one_lt_two_pow hw.ne'
    rw [BitVec.toNat_allOnes] at hnat
    omega
  · next hx => exact hx

theorem mulU64_iff (a b : BitVec 64) (mode : ArithMode) :
    mulU64 a b mode = some (if a == voidOf 64 || b == voidOf 64 then voidOf 64
        else exactIn 64 0 (2 ^ 64 - 1) (a.toNat * b.toNat) mode) ↔
      (a == voidOf 64 || b == voidOf 64) = true ∨ mode ≠ .saturate ∨
        (a.toNat * b.toNat : ℤ) ≠ 2 ^ 64 - 1 := by
  have hdivide : divideU (BitVec.allOnes 64) (a ||| condMask (a == 0)) =
      some (BitVec.allOnes 64 / (a ||| condMask (a == 0))) :=
    if_neg (safe_ne (by decide) a)
  have hover : (a != 0 && BitVec.ult (BitVec.allOnes 64 / (a ||| condMask (a == 0))) b) = true ↔
      ¬ ((0 : ℤ) ≤ a.toNat * b.toNat ∧ (a.toNat * b.toNat : ℤ) ≤ 2 ^ 64 - 1) := by
    rw [safe_eq]
    by_cases ha : a = 0
    · simp [ha]
    · have hpos : 0 < a.toNat := Nat.pos_of_ne_zero fun h => ha (BitVec.eq_of_toNat_eq h)
      have hlt : (2 ^ 64 - 1) / a.toNat < b.toNat ↔ 2 ^ 64 - 1 < a.toNat * b.toNat := by
        rw [Nat.div_lt_iff_lt_mul hpos, Nat.mul_comm]
      rw [if_neg ha, bne_iff_ne.2 ha, Bool.true_and, BitVec.ult, decide_eq_true_iff,
        BitVec.toNat_udiv, BitVec.toNat_allOnes, hlt, ← Nat.cast_mul]
      omega
  unfold mulU64
  simp only [hdivide, Option.bind_eq_bind, Option.bind_some, Option.pure_def, Option.some.injEq,
    voidMask2_eq]
  refine finish_iff (by decide) (range_pos (by decide)) ?_ hover (fun h => ?_) mode
  · rw [BitVec.ofInt_mul, ofInt_natCast_toNat, ofInt_natCast_toNat]
  · have hout := hover.1 h
    rw [← Nat.cast_mul] at hout ⊢
    rw [satMaxU_eq]
    congr 1
    omega

theorem mulU32_iff (a b : BitVec 32) (mode : ArithMode) :
    mulU32 a b mode = (if a == voidOf 32 || b == voidOf 32 then voidOf 32
        else exactIn 32 0 (2 ^ 32 - 1) (a.toNat * b.toNat) mode) ↔
      (a == voidOf 32 || b == voidOf 32) = true ∨ mode ≠ .saturate ∨
        (a.toNat * b.toNat : ℤ) ≠ 2 ^ 32 - 1 := by
  have hle : a.toNat * b.toNat ≤ (2 ^ 32 - 1) * (2 ^ 32 - 1) :=
    Nat.mul_le_mul (Nat.le_of_lt_succ a.isLt) (Nat.le_of_lt_succ b.isLt)
  have hwide : (a.setWidth 64 * b.setWidth 64).toNat = a.toNat * b.toNat := by
    rw [BitVec.toNat_mul, BitVec.toNat_setWidth_of_le (by decide),
      BitVec.toNat_setWidth_of_le (by decide), Nat.mod_eq_of_lt (by omega)]
  have hover : BitVec.ult 0xFFFFFFFF (a.setWidth 64 * b.setWidth 64) = true ↔
      ¬ ((0 : ℤ) ≤ a.toNat * b.toNat ∧ (a.toNat * b.toNat : ℤ) ≤ 2 ^ 32 - 1) := by
    rw [BitVec.ult, decide_eq_true_iff, hwide, ← Nat.cast_mul]
    have hmost : (0xFFFFFFFF : BitVec 64).toNat = 2 ^ 32 - 1 := by decide
    omega
  unfold mulU32
  simp only [voidMask2_eq]
  refine finish_iff (by decide) (range_pos (by decide)) ?_ hover (fun h => ?_) mode
  · rw [BitVec.ofInt_mul, ofInt_natCast_toNat, ofInt_natCast_toNat]
    refine BitVec.eq_of_toNat_eq ?_
    rw [BitVec.toNat_setWidth, hwide, BitVec.toNat_mul]
  · have hout := hover.1 h
    rw [← Nat.cast_mul] at hout ⊢
    rw [satMaxU_eq]
    congr 1
    omega

theorem divU_eq (hw : 0 < w) (a b : BitVec w) :
    divU a b = some (if a == voidOf w || b == voidOf w || b == 0 then voidOf w else a / b) := by
  have hdivide : divideU a (b ||| condMask (b == 0)) = some (a / (b ||| condMask (b == 0))) :=
    if_neg (safe_ne hw b)
  unfold divU
  simp only [hdivide, Option.bind_eq_bind, Option.bind_some, Option.pure_def, voidMask2_eq,
    condMask_or, select_condMask]
  by_cases hb : b = 0
  · simp [hb]
  · rw [safe_eq, if_neg hb]

/-- A quotient of numbers that are not VOID is below the largest number. -/
theorem divU_exact (hw : 0 < w) {a b : BitVec w}
    (h : (a == voidOf w || b == voidOf w || b == 0) = false) (mode : ArithMode) :
    divU a b = some (exactIn w 0 (2 ^ w - 1) (a.toNat / b.toNat : ℕ) mode) ∧
      ((a.toNat / b.toNat : ℕ) : ℤ) ≠ 2 ^ w - 1 := by
  have hcast : ((2 ^ w : ℕ) : ℤ) = 2 ^ w := by push_cast; rfl
  rw [divU_eq hw, h]
  simp only [Bool.or_eq_false_iff, beq_eq_false_iff_ne] at h
  have hlt : a.toNat < 2 ^ w - 1 := by
    have hne : a.toNat ≠ 2 ^ w - 1 := fun heq =>
      h.1.1 (BitVec.eq_of_toNat_eq (heq.trans BitVec.toNat_allOnes.symm))
    have := a.isLt
    omega
  obtain ⟨q, hq⟩ : ∃ q, q = a.toNat / b.toNat := ⟨_, rfl⟩
  have hle := Nat.div_le_self a.toNat b.toNat
  have hresult : a / b = BitVec.ofInt w (a.toNat / b.toNat : ℕ) := by
    rw [← ofInt_natCast_toNat (a / b), BitVec.toNat_udiv]
  rw [← hq] at hle hresult ⊢
  refine ⟨?_, by omega⟩
  rw [Option.some.injEq, if_neg Bool.false_ne_true, hresult]
  cases mode with
  | void => exact (if_pos ⟨by omega, by omega⟩).symm
  | wrap => rfl
  | saturate =>
    rw [exactIn]
    congr 1
    omega

/-! ## Signed numbers -/

theorem satMinI_eq (w : ℕ) : satMinI w = BitVec.ofInt w (-2 ^ (w - 1)) :=
  BitVec.intMin_eq_neg_two_pow

theorem satMaxI_eq (w : ℕ) : satMaxI w = BitVec.ofInt w (2 ^ (w - 1) - 1 - 1) := by
  rw [satMaxI, sub_eq_add_neg ((2 : ℤ) ^ (w - 1) - 1), BitVec.ofInt_add, BitVec.ofInt_neg,
    ← BitVec.toInt_intMax, BitVec.ofInt_toInt, BitVec.sub_eq_add_neg]
  simp

/-- A number of twice the range is wrapped around at most once. -/
theorem toInt_ofInt_wrap (hw : 0 < w) {z : ℤ} (hlo : -2 * 2 ^ (w - 1) ≤ z)
    (hhi : z < 2 * 2 ^ (w - 1)) : (BitVec.ofInt w z).toInt =
      if 2 ^ (w - 1) ≤ z then z - 2 * 2 ^ (w - 1)
      else if z < -2 ^ (w - 1) then z + 2 * 2 ^ (w - 1) else z := by
  have hpow : (2 : ℤ) * 2 ^ (w - 1) = ((2 ^ w : ℕ) : ℤ) := by
    rw [← pow_succ', Nat.sub_add_cancel hw]
    push_cast
    rfl
  have hzero : BitVec.ofInt w (2 * 2 ^ (w - 1)) = 0#w := by
    rw [hpow, BitVec.ofInt_natCast]
    refine BitVec.eq_of_toNat_eq ?_
    rw [BitVec.toNat_ofNat, BitVec.toNat_ofNat, Nat.mod_self, Nat.zero_mod]
  split_ifs with h1 h2
  · have heq : BitVec.ofInt w z = BitVec.ofInt w (z - 2 * 2 ^ (w - 1)) := by
      rw [sub_eq_add_neg z, BitVec.ofInt_add, BitVec.ofInt_neg, hzero, BitVec.neg_zero,
        BitVec.add_zero]
    rw [heq, BitVec.toInt_ofInt_eq_self hw (by omega) (by omega)]
  · have heq : BitVec.ofInt w z = BitVec.ofInt w (z + 2 * 2 ^ (w - 1)) := by
      rw [BitVec.ofInt_add, hzero, BitVec.add_zero]
    rw [heq, BitVec.toInt_ofInt_eq_self hw (by omega) (by omega)]
  · exact BitVec.toInt_ofInt_eq_self hw (by omega) (by omega)

theorem slt_zero (a : BitVec w) : BitVec.slt a 0 = decide (a.toInt < 0) := by
  rw [BitVec.slt, BitVec.ofNat_eq_ofNat, BitVec.toInt_zero]

theorem zero_slt (a : BitVec w) : BitVec.slt 0 a = decide (0 < a.toInt) := by
  rw [BitVec.slt, BitVec.ofNat_eq_ofNat, BitVec.toInt_zero]

theorem sle_zero (a : BitVec w) : BitVec.sle a 0 = decide (a.toInt ≤ 0) := by
  rw [BitVec.sle, BitVec.ofNat_eq_ofNat, BitVec.toInt_zero]

theorem zero_sle (a : BitVec w) : BitVec.sle 0 a = decide (0 ≤ a.toInt) := by
  rw [BitVec.sle, BitVec.ofNat_eq_ofNat, BitVec.toInt_zero]

theorem addI_iff (hw : 0 < w) (a b : BitVec w) (mode : ArithMode) :
    addI a b mode = (if a == voidOf w || b == voidOf w then voidOf w
        else exactIn w (-2 ^ (w - 1)) (2 ^ (w - 1) - 1) (a.toInt + b.toInt) mode) ↔
      (a == voidOf w || b == voidOf w) = true ∨ mode ≠ .saturate ∨
        a.toInt + b.toInt ≠ 2 ^ (w - 1) - 1 := by
  have hpos : (0 : ℤ) < 2 ^ (w - 1) := by positivity
  have ha := BitVec.le_toInt a
  have ha' := BitVec.toInt_lt (x := a)
  have hb := BitVec.le_toInt b
  have hb' := BitVec.toInt_lt (x := b)
  have hsum : a + b = BitVec.ofInt w (a.toInt + b.toInt) := by
    rw [BitVec.ofInt_add, BitVec.ofInt_toInt, BitVec.ofInt_toInt]
  have hwrap := toInt_ofInt_wrap hw (z := a.toInt + b.toInt) (by omega) (by omega)
  rw [← hsum] at hwrap
  have hover : (BitVec.slt 0 a && BitVec.slt 0 b && BitVec.sle (a + b) 0) = true ↔
      2 ^ (w - 1) ≤ a.toInt + b.toInt := by
    rw [zero_slt, zero_slt, sle_zero, hwrap]
    simp only [Bool.and_eq_true, decide_eq_true_iff]
    split_ifs <;> omega
  have hunder : (BitVec.slt a 0 && BitVec.slt b 0 && BitVec.sle 0 (a + b)) = true ↔
      a.toInt + b.toInt < -2 ^ (w - 1) := by
    rw [slt_zero, slt_zero, zero_sle, hwrap]
    simp only [Bool.and_eq_true, decide_eq_true_iff]
    split_ifs <;> omega
  unfold addI
  simp only [voidMask2_eq, condMask_or, select_condMask]
  refine finish_iff hw (by omega) hsum ?_ (fun h => ?_) mode
  · rw [Bool.or_eq_true, hover, hunder]
    omega
  · rw [Bool.or_eq_true, hover, hunder] at h
    simp only [hunder, satMinI_eq, satMaxI_eq, ← apply_ite (BitVec.ofInt w)]
    congr 1
    split_ifs <;> omega

/-- The overflow of 0 minus the least number is not seen. -/
theorem subI64_iff (a b : BitVec 64) (mode : ArithMode) :
    subI64 a b mode = (if a == voidOf 64 || b == voidOf 64 then voidOf 64
        else exactIn 64 (-2 ^ 63) (2 ^ 63 - 1) (a.toInt - b.toInt) mode) ↔
      (a == voidOf 64 || b == voidOf 64) = true ∨ (mode ≠ .saturate ∨
        a.toInt - b.toInt ≠ 2 ^ 63 - 1) ∧ (mode = .wrap ∨ ¬ (a = 0 ∧ b = BitVec.intMin 64)) := by
  by_cases hmissed : a = 0 ∧ b = BitVec.intMin 64
  · obtain ⟨rfl, rfl⟩ := hmissed
    cases mode <;> decide
  · have ha := BitVec.le_toInt a
    have ha' := BitVec.toInt_lt (x := a)
    have hb := BitVec.le_toInt b
    have hb' := BitVec.toInt_lt (x := b)
    have hseen : ¬ (a.toInt = 0 ∧ b.toInt = -2 ^ 63) := fun ⟨hzero, hleast⟩ =>
      hmissed ⟨BitVec.eq_of_toInt_eq hzero, BitVec.eq_of_toInt_eq (hleast.trans (by decide))⟩
    have hdiff : a - b = BitVec.ofInt 64 (a.toInt - b.toInt) := by
      rw [sub_eq_add_neg a.toInt, BitVec.ofInt_add, BitVec.ofInt_neg, BitVec.ofInt_toInt,
        BitVec.ofInt_toInt, BitVec.sub_eq_add_neg]
    have hwrap := toInt_ofInt_wrap (w := 64) (by decide) (z := a.toInt - b.toInt) (by omega)
      (by omega)
    rw [← hdiff] at hwrap
    have hover : (BitVec.slt 0 a && BitVec.slt b 0 && BitVec.sle (a - b) 0) = true ↔
        2 ^ 63 ≤ a.toInt - b.toInt := by
      rw [zero_slt, slt_zero, sle_zero, hwrap]
      simp only [Bool.and_eq_true, decide_eq_true_iff]
      split_ifs <;> omega
    have hunder : (BitVec.slt a 0 && BitVec.slt 0 b && BitVec.sle 0 (a - b)) = true ↔
        a.toInt - b.toInt < -2 ^ 63 := by
      rw [slt_zero, zero_slt, zero_sle, hwrap]
      simp only [Bool.and_eq_true, decide_eq_true_iff]
      split_ifs <;> omega
    rw [and_iff_left (Or.inr hmissed)]
    unfold subI64
    simp only [voidMask2_eq, condMask_or, select_condMask]
    refine finish_iff (by decide) (by decide) hdiff ?_ (fun h => ?_) mode
    · rw [Bool.or_eq_true, hover, hunder]
      omega
    · rw [Bool.or_eq_true, hover, hunder] at h
      simp only [hunder, satMinI_eq, satMaxI_eq, ← apply_ite (BitVec.ofInt 64)]
      congr 1
      split_ifs <;> omega

/-! ### Products -/

theorem tdiv_lt_iff {n d x : ℤ} (hn : 0 ≤ n) (hd : 0 < d) : n.tdiv d < x ↔ n < x * d := by
  rw [Int.tdiv_eq_ediv_of_nonneg hn, Int.ediv_lt_iff_lt_mul hd]

theorem lt_neg_tdiv_iff {n d x : ℤ} (hn : 0 ≤ n) (hd : 0 < d) : x < (-n).tdiv d ↔ x * d < -n := by
  have h := tdiv_lt_iff (x := -x) hn hd
  rw [Int.neg_mul] at h
  rw [Int.neg_tdiv]
  omega

theorem lt_tdiv_neg_iff {n d x : ℤ} (hn : 0 ≤ n) (hd : d < 0) : x < n.tdiv d ↔ n < x * d := by
  have h := tdiv_lt_iff (d := -d) (x := -x) hn (by omega)
  rw [Int.neg_mul_neg, Int.tdiv_neg] at h
  omega

/-- A quotient that C defines. -/
theorem divideI_eq {a b : BitVec 64} (h : ¬ (b = 0 ∨ a = BitVec.intMin 64 ∧ b = -1)) :
    divideI a b = some (a.sdiv b) ∧ (a.sdiv b).toInt = a.toInt.tdiv b.toInt := by
  refine ⟨if_neg h, BitVec.toInt_sdiv_of_ne_or_ne a b ?_⟩
  by_contra hnot
  simp only [ne_eq, not_or, not_not] at hnot
  exact h (.inr hnot)

/-- Where an operand is 0 or VOID, the least number is divided by -1. -/
theorem mulI64_eq_none {a b : BitVec 64} (h : (a = 0 ∨ a = -1) ∨ b = 0 ∨ b = -1)
    (mode : ArithMode) : mulI64 a b mode = none := by
  have hundefined : ∀ {x : BitVec 64}, x = 0 ∨ x = -1 →
      divideI (BitVec.intMin 64) (x ||| condMask (x == 0)) = none := by
    rintro x (rfl | rfl) <;> decide
  have hdefined : ∀ x : BitVec 64, ∃ q, divideI (BitVec.intMax 64) (x ||| condMask (x == 0)) =
      some q := by
    intro x
    refine ⟨_, (divideI_eq ?_).1⟩
    rintro (hzero | ⟨hmin, -⟩)
    · exact safe_ne (by decide) x hzero
    · exact absurd hmin (by decide)
  obtain ⟨q, hq⟩ := hdefined b
  unfold mulI64
  simp only [hq, Option.bind_eq_bind, Option.bind_some]
  rcases h with ha | hb
  · rw [hundefined ha, Option.bind_none]
  · rw [hundefined hb]
    exact Option.bind_fun_none _

theorem mulI64_iff {a b : BitVec 64} (ha : ¬ (a = 0 ∨ a = -1)) (hb : ¬ (b = 0 ∨ b = -1))
    (mode : ArithMode) :
    mulI64 a b mode = some (exactIn 64 (-2 ^ 63) (2 ^ 63 - 1) (a.toInt * b.toInt) mode) ↔
      mode ≠ .saturate ∨ a.toInt * b.toInt ≠ 2 ^ 63 - 1 := by
  have hnot : ∀ {x : BitVec 64}, ¬ (x = 0 ∨ x = -1) → x.toInt ≠ 0 := fun hx hzero =>
    hx (.inl (BitVec.eq_of_toInt_eq hzero))
  have hdivide : ∀ {x : BitVec 64} (n : BitVec 64), ¬ (x = 0 ∨ x = -1) →
      divideI n x = some (n.sdiv x) ∧ (n.sdiv x).toInt = n.toInt.tdiv x.toInt := fun n hx =>
    divideI_eq fun hbad => hx (hbad.imp_right And.right)
  have hsafe : ∀ {x : BitVec 64}, ¬ (x = 0 ∨ x = -1) → x ||| condMask (x == 0) = x := fun hx => by
    rw [safe_eq, if_neg fun hzero => hx (.inl hzero)]
  have hmax : (BitVec.intMax 64).toInt = 2 ^ 63 - 1 := by decide
  have hmin : (BitVec.intMin 64).toInt = -2 ^ 63 := by decide
  have ha0 := hnot ha
  have hb0 := hnot hb
  -- each test compares the exact product with one end of the range
  have ov1 : (BitVec.slt 0 a && BitVec.slt 0 b && BitVec.slt ((BitVec.intMax 64).sdiv b) a) = true ↔
      0 < a.toInt ∧ 0 < b.toInt ∧ 2 ^ 63 - 1 < a.toInt * b.toInt := by
    rw [zero_slt, zero_slt, BitVec.slt, (hdivide _ hb).2, hmax]
    simp only [Bool.and_eq_true, decide_eq_true_iff, and_assoc]
    exact and_congr_right fun _ => and_congr_right fun hpos => tdiv_lt_iff (by decide) hpos
  have ov2 : (BitVec.slt 0 a && BitVec.slt b 0 && BitVec.slt b ((BitVec.intMin 64).sdiv a)) = true ↔
      0 < a.toInt ∧ b.toInt < 0 ∧ a.toInt * b.toInt < -2 ^ 63 := by
    rw [zero_slt, slt_zero, BitVec.slt, (hdivide _ ha).2, hmin, Int.mul_comm]
    simp only [Bool.and_eq_true, decide_eq_true_iff, and_assoc]
    exact and_congr_right fun hpos => and_congr_right fun _ => lt_neg_tdiv_iff (by decide) hpos
  have ov3 : (BitVec.slt a 0 && BitVec.slt 0 b && BitVec.slt a ((BitVec.intMin 64).sdiv b)) = true ↔
      a.toInt < 0 ∧ 0 < b.toInt ∧ a.toInt * b.toInt < -2 ^ 63 := by
    rw [slt_zero, zero_slt, BitVec.slt, (hdivide _ hb).2, hmin]
    simp only [Bool.and_eq_true, decide_eq_true_iff, and_assoc]
    exact and_congr_right fun _ => and_congr_right fun hpos => lt_neg_tdiv_iff (by decide) hpos
  have ov4 : (BitVec.slt a 0 && BitVec.slt b 0 && a != 0 &&
      BitVec.slt b ((BitVec.intMax 64).sdiv a)) = true ↔
      a.toInt < 0 ∧ b.toInt < 0 ∧ 2 ^ 63 - 1 < a.toInt * b.toInt := by
    rw [slt_zero, slt_zero, bne_iff_ne.2 fun hzero => ha (.inl hzero), Bool.and_true, BitVec.slt,
      (hdivide _ ha).2, hmax, Int.mul_comm a.toInt]
    simp only [Bool.and_eq_true, decide_eq_true_iff, and_assoc]
    exact and_congr_right fun hneg => and_congr_right fun _ => lt_tdiv_neg_iff (by decide) hneg
  have hsigns : (0 < a.toInt ∧ 0 < b.toInt ∨ a.toInt < 0 ∧ b.toInt < 0) ∧ 0 < a.toInt * b.toInt ∨
      (0 < a.toInt ∧ b.toInt < 0 ∨ a.toInt < 0 ∧ 0 < b.toInt) ∧ a.toInt * b.toInt < 0 := by
    rcases Int.lt_or_gt_of_ne ha0 with h1 | h1 <;> rcases Int.lt_or_gt_of_ne hb0 with h2 | h2
    · exact .inl ⟨.inr ⟨h1, h2⟩, Int.mul_pos_of_neg_of_neg h1 h2⟩
    · exact .inr ⟨.inr ⟨h1, h2⟩, Int.mul_neg_of_neg_of_pos h1 h2⟩
    · exact .inr ⟨.inl ⟨h1, h2⟩, Int.mul_neg_of_pos_of_neg h1 h2⟩
    · exact .inl ⟨.inl ⟨h1, h2⟩, Int.mul_pos h1 h2⟩
  have hvoid : (a == voidOf 64 || b == voidOf 64) = false := by
    rw [Bool.or_eq_false_iff, beq_eq_false_iff_ne, beq_eq_false_iff_ne]
    exact ⟨fun h => ha (.inr h), fun h => hb (.inr h)⟩
  have hproduct : a * b = BitVec.ofInt 64 (a.toInt * b.toInt) := by
    rw [BitVec.ofInt_mul, BitVec.ofInt_toInt, BitVec.ofInt_toInt]
  unfold mulI64
  simp only [hsafe ha, hsafe hb, (hdivide _ ha).1, (hdivide _ hb).1, Option.bind_eq_bind,
    Option.bind_some, Option.pure_def, Option.some.injEq, voidMask2_eq, condMask_or, condMask_not,
    select_condMask]
  rw [hvoid]
  refine finish_plain_iff (by decide) (by decide) hproduct ?_ (fun h => ?_) mode
  · simp only [Bool.or_eq_true, ov1, ov2, ov3, ov4]
    omega
  · simp only [Bool.or_eq_true, ov1, ov2, ov3, ov4] at h
    simp only [zero_slt, satMinI_eq, satMaxI_eq, ← apply_ite (BitVec.ofInt 64), Bool.not_eq_true',
      beq_eq_false_iff_ne, ne_eq, decide_eq_decide]
    congr 1
    split_ifs <;> omega

/-! ### Quotients and negation -/

theorem condMask_ne_zero (hw : 0 < w) (c : Bool) : (condMask c : BitVec w) ≠ 0 ↔ c = true := by
  cases c with
  | false => simp [condMask_false]
  | true =>
    refine iff_of_true (fun h => safe_ne hw 0 ?_) rfl
    rw [safe_eq, if_pos rfl, ← condMask_true, h]

/-- The quotient of safe operands, and the selections. -/
theorem divI64_eq (a b : BitVec 64) (mode : ArithMode) :
    divI64 a b mode =
      (divideI a (if b == 0 || a == BitVec.intMin 64 && b == -1 then 1 else b)).map fun result =>
        if a == voidOf 64 || b == voidOf 64 || b == 0 then voidOf 64
        else if a == BitVec.intMin 64 && b == -1 && !(mode == .void) && !(mode == .saturate) then
          BitVec.intMin 64
        else if a == BitVec.intMin 64 && b == -1 && mode == .saturate then satMaxI 64
        else if a == BitVec.intMin 64 && b == -1 && mode == .void then voidOf 64
        else result := by
  unfold divI64
  simp only [condMask_or, condMask_not, condMask_and, select_condMask, voidMask2_eq,
    condMask_ne_zero (by decide : 0 < 64)]
  exact (Option.map_eq_bind).symm

theorem divI64_void {a b : BitVec 64} (h : (a == voidOf 64 || b == voidOf 64 || b == 0) = true)
    (mode : ArithMode) : divI64 a b mode = some (voidOf 64) := by
  have hdivide : ∃ q,
      divideI a (if b == 0 || a == BitVec.intMin 64 && b == -1 then 1 else b) = some q := by
    refine ⟨_, (divideI_eq ?_).1⟩
    split_ifs with hdanger
    · rintro (hone | ⟨-, hone⟩)
      all_goals exact absurd hone (by decide)
    · simpa only [Bool.or_eq_true, Bool.and_eq_true, beq_iff_eq] using hdanger
  obtain ⟨q, hq⟩ := hdivide
  rw [divI64_eq, hq, Option.map_some, if_pos h]

theorem divI64_iff {a b : BitVec 64} (h : (a == voidOf 64 || b == voidOf 64 || b == 0) = false)
    (mode : ArithMode) :
    divI64 a b mode = some (exactIn 64 (-2 ^ 63) (2 ^ 63 - 1) (a.toInt.tdiv b.toInt) mode) ↔
      mode ≠ .saturate ∨ a.toInt.tdiv b.toInt ≠ 2 ^ 63 - 1 := by
  have hplain := h
  simp only [Bool.or_eq_false_iff, beq_eq_false_iff_ne] at h
  obtain ⟨⟨-, hb⟩, hzero⟩ := h
  obtain ⟨hdivide, hquotient⟩ := divideI_eq (a := a) (b := b) fun hbad =>
    hbad.elim hzero fun hbad => hb hbad.2
  have hlo := BitVec.le_toInt (a.sdiv b)
  have hhi := BitVec.toInt_lt (x := a.sdiv b)
  rw [hquotient] at hlo hhi
  have hresult : a.sdiv b = BitVec.ofInt 64 (a.toInt.tdiv b.toInt) := by
    rw [← hquotient, BitVec.ofInt_toInt]
  have hiff := finish_range_iff 0 false (by decide) (show (-2 ^ 63 : ℤ) < 2 ^ 63 - 1 by decide)
    hresult ⟨by omega, by omega⟩ mode
  rw [finish_eq] at hiff
  simp only [Bool.false_eq_true, if_false, false_or] at hiff
  have hminus : (b == -1) = false := beq_eq_false_iff_ne.2 hb
  rw [← hiff, divI64_eq, hplain, beq_eq_false_iff_ne.2 hzero, hminus]
  simp only [Bool.and_false, Bool.false_and, Bool.or_false, Bool.false_eq_true, if_false, hdivide,
    Option.map_some, Option.some.injEq]

theorem negI64_iff (a : BitVec 64) (mode : ArithMode) :
    negI64 a mode = some (if a == voidOf 64 then voidOf 64
        else exactIn 64 (-2 ^ 63) (2 ^ 63 - 1) (-a.toInt) mode) ↔
      a ≠ BitVec.intMin 64 ∧ (a = voidOf 64 ∨ mode ≠ .saturate ∨ -a.toInt ≠ 2 ^ 63 - 1) := by
  unfold negI64 negateI
  by_cases hleast : a = BitVec.intMin 64
  · rw [if_pos hleast]
    exact iff_of_false nofun fun h => h.1 hleast
  · have hlo := BitVec.le_toInt a
    have hhi := BitVec.toInt_lt (x := a)
    have hne : a.toInt ≠ -2 ^ 63 := fun heq =>
      hleast (BitVec.eq_of_toInt_eq (heq.trans (by decide)))
    have hresult : -a = BitVec.ofInt 64 (-a.toInt) := by
      rw [BitVec.ofInt_neg, BitVec.ofInt_toInt]
    rw [if_neg hleast, and_iff_right hleast, beq_eq_false_iff_ne.2 hleast]
    simp only [Option.bind_eq_bind, Option.bind_some, Option.pure_def, Option.some.injEq]
    have hiff := finish_range_iff (satMaxI 64) (a == voidOf 64) (by decide)
      (show (-2 ^ 63 : ℤ) < 2 ^ 63 - 1 by decide) hresult ⟨by omega, by omega⟩ mode
    exact hiff.trans (or_congr_left beq_iff_eq)

/-! ## All operations -/

/-- An operation of `integers.h` and its operands. -/
inductive Operation where
  | add_u64 (a b : BitVec 64)
  | add_u32 (a b : BitVec 32)
  | add_i64 (a b : BitVec 64)
  | add_i32 (a b : BitVec 32)
  | sub_u64 (a b : BitVec 64)
  | sub_u32 (a b : BitVec 32)
  | sub_i64 (a b : BitVec 64)
  | mul_u64 (a b : BitVec 64)
  | mul_u32 (a b : BitVec 32)
  | mul_i64 (a b : BitVec 64)
  | div_u64 (a b : BitVec 64)
  | div_u32 (a b : BitVec 32)
  | div_i64 (a b : BitVec 64)
  | neg_i64 (a : BitVec 64)

namespace Operation

/-- The width of the operands and of the result. -/
abbrev width : Operation → ℕ
  | add_u32 _ _ | add_i32 _ _ | sub_u32 _ _ | mul_u32 _ _ | div_u32 _ _ => 32
  | _ => 64

/-- What the call returns, `none` if it evaluates what C leaves undefined. -/
def eval (mode : ArithMode) : (op : Operation) → Option (BitVec op.width)
  | add_u64 a b => some (addU a b mode)
  | add_u32 a b => some (addU a b mode)
  | add_i64 a b => some (addI a b mode)
  | add_i32 a b => some (addI a b mode)
  | sub_u64 a b => some (subU a b mode)
  | sub_u32 a b => some (subU a b mode)
  | sub_i64 a b => some (subI64 a b mode)
  | mul_u64 a b => mulU64 a b mode
  | mul_u32 a b => some (mulU32 a b mode)
  | mul_i64 a b => mulI64 a b mode
  | div_u64 a b => divU a b
  | div_u32 a b => divU a b
  | div_i64 a b => divI64 a b mode
  | neg_i64 a => negI64 a mode

/-- Numbers with a sign. -/
def signed : Operation → Bool
  | add_i64 _ _ | add_i32 _ _ | sub_i64 _ _ | mul_i64 _ _ | div_i64 _ _ | neg_i64 _ => true
  | _ => false

/-- The least number of the type. -/
def least (op : Operation) : ℤ :=
  if op.signed then -2 ^ (op.width - 1) else 0

/-- The largest number of the type. -/
def most (op : Operation) : ℤ :=
  if op.signed then 2 ^ (op.width - 1) - 1 else 2 ^ op.width - 1

/-- The exact result. -/
def exact : Operation → ℤ
  | add_u64 a b | add_u32 a b => a.toNat + b.toNat
  | add_i64 a b | add_i32 a b => a.toInt + b.toInt
  | sub_u64 a b | sub_u32 a b => a.toNat - b.toNat
  | sub_i64 a b => a.toInt - b.toInt
  | mul_u64 a b | mul_u32 a b => a.toNat * b.toNat
  | mul_i64 a b => a.toInt * b.toInt
  | div_u64 a b | div_u32 a b => (a.toNat / b.toNat : ℕ)
  | div_i64 a b => a.toInt.tdiv b.toInt
  | neg_i64 a => -a.toInt

/-- An operand is VOID, or the divisor is zero. -/
def isVoid : Operation → Bool
  | div_u64 a b | div_u32 a b | div_i64 a b => a == voidOf _ || b == voidOf _ || b == 0
  | add_u64 a b | add_u32 a b | add_i64 a b | add_i32 a b | sub_u64 a b | sub_u32 a b
  | sub_i64 a b | mul_u64 a b | mul_u32 a b | mul_i64 a b => a == voidOf _ || b == voidOf _
  | neg_i64 a => a == voidOf _

/-- Nothing that C leaves undefined is evaluated, and the result is VOID for operands that are, else
the exact one as the mode has it. -/
def MeetsMode (op : Operation) (mode : ArithMode) : Prop :=
  op.eval mode = some (if op.isVoid then voidOf op.width
    else exactIn op.width op.least op.most op.exact mode)

/-- The operands on which an operation has a fault of its own. -/
def Faulty (mode : ArithMode) : Operation → Prop
  | sub_i64 a b => mode ≠ .wrap ∧ a = 0 ∧ b = BitVec.intMin 64
  | mul_i64 a b => (a = 0 ∨ a = voidOf 64) ∨ b = 0 ∨ b = voidOf 64
  | neg_i64 a => a = BitVec.intMin 64
  | _ => False

theorem divU_meets (hw : 0 < w) (a b : BitVec w) (mode : ArithMode) :
    divU a b = some (if a == voidOf w || b == voidOf w || b == 0 then voidOf w
        else exactIn w 0 (2 ^ w - 1) (a.toNat / b.toNat : ℕ) mode) ∧
      ((a == voidOf w || b == voidOf w || b == 0) = true ∨ mode ≠ .saturate ∨
        ((a.toNat / b.toNat : ℕ) : ℤ) ≠ 2 ^ w - 1) := by
  cases h : (a == voidOf w || b == voidOf w || b == 0) with
  | true =>
    rw [divU_eq hw, h]
    exact ⟨rfl, .inl rfl⟩
  | false =>
    obtain ⟨hexact, hmost⟩ := divU_exact hw h mode
    exact ⟨hexact, .inr (.inr hmost)⟩

/-- The largest number is not asked of an operation that saturates. -/
def Clears (op : Operation) (mode : ArithMode) : Prop :=
  op.isVoid = true ∨ mode ≠ .saturate ∨ op.exact ≠ op.most

theorem meets_mode_of_plain {op : Operation} {mode : ArithMode} (hplain : ¬ op.Faulty mode)
    (h : op.MeetsMode mode ↔ op.Clears mode) :
    op.MeetsMode mode ↔ ¬ op.Faulty mode ∧ op.Clears mode :=
  h.trans (and_iff_right hplain).symm

/-- An operation does what its mode promises unless it has a fault of its own on the operands, or a
result that must be clamped is the largest number. -/
theorem meets_mode_iff (op : Operation) (mode : ArithMode) :
    op.MeetsMode mode ↔ ¬ op.Faulty mode ∧ op.Clears mode := by
  cases op with
  | add_u64 a b =>
    exact meets_mode_of_plain id (Option.some_inj.trans (addU_iff (by decide) a b mode))
  | add_u32 a b =>
    exact meets_mode_of_plain id (Option.some_inj.trans (addU_iff (by decide) a b mode))
  | add_i64 a b =>
    exact meets_mode_of_plain id (Option.some_inj.trans (addI_iff (by decide) a b mode))
  | add_i32 a b =>
    exact meets_mode_of_plain id (Option.some_inj.trans (addI_iff (by decide) a b mode))
  | sub_u64 a b =>
    exact meets_mode_of_plain id (Option.some_inj.trans (subU_iff (by decide) a b mode))
  | sub_u32 a b =>
    exact meets_mode_of_plain id (Option.some_inj.trans (subU_iff (by decide) a b mode))
  | sub_i64 a b =>
    refine (Option.some_inj.trans (subI64_iff a b mode)).trans ?_
    -- the operands of the fault are not VOID
    have hvalid : a = 0 ∧ b = BitVec.intMin 64 → (a == voidOf 64 || b == voidOf 64) = false := by
      rintro ⟨rfl, rfl⟩
      decide
    unfold Clears
    simp only [Faulty, isVoid, exact, most, signed, if_true]
    by_cases hoperands : a = 0 ∧ b = BitVec.intMin 64
    · rw [hvalid hoperands]
      simp only [hoperands, Bool.false_eq_true, false_or, and_true, not_true, or_false]
      exact and_comm.trans (and_congr_left fun _ => not_not.symm)
    · simp only [hoperands, and_false, not_false_iff, true_and, or_true, and_true]
      exact Iff.rfl
  | mul_u64 a b => exact meets_mode_of_plain id (mulU64_iff a b mode)
  | mul_u32 a b =>
    exact meets_mode_of_plain id (Option.some_inj.trans (mulU32_iff a b mode))
  | mul_i64 a b =>
    by_cases hfault : (mul_i64 a b).Faulty mode
    · have hnone : (mul_i64 a b).eval mode = none := mulI64_eq_none hfault mode
      refine iff_of_false (fun hmeets => ?_) fun h => h.1 hfault
      rw [MeetsMode, hnone] at hmeets
      exact absurd hmeets nofun
    · refine meets_mode_of_plain hfault ?_
      have hplain := not_or.1 hfault
      have hvalid : (mul_i64 a b).isVoid = false := by
        rw [isVoid, Bool.or_eq_false_iff, beq_eq_false_iff_ne, beq_eq_false_iff_ne]
        exact ⟨fun h => hplain.1 (.inr h), fun h => hplain.2 (.inr h)⟩
      unfold MeetsMode Clears
      rw [hvalid, or_iff_right Bool.false_ne_true]
      exact mulI64_iff hplain.1 hplain.2 mode
  | div_u64 a b =>
    obtain ⟨heval, hmost⟩ := divU_meets (by decide) a b mode
    exact meets_mode_of_plain id (iff_of_true heval hmost)
  | div_u32 a b =>
    obtain ⟨heval, hmost⟩ := divU_meets (by decide) a b mode
    exact meets_mode_of_plain id (iff_of_true heval hmost)
  | div_i64 a b =>
    refine meets_mode_of_plain id ?_
    unfold MeetsMode Clears
    cases hvoid : (div_i64 a b).isVoid with
    | true => exact iff_of_true (divI64_void hvoid mode) (.inl rfl)
    | false =>
      rw [or_iff_right Bool.false_ne_true]
      exact divI64_iff hvoid mode
  | neg_i64 a =>
    refine (negI64_iff a mode).trans (and_congr_right fun _ => ?_)
    exact or_congr_left beq_iff_eq.symm

/-- 0 · 5 divides the least number by -1. -/
theorem not_meets_mode_mul : ¬ (mul_i64 0 5).MeetsMode .wrap := by
  unfold MeetsMode
  decide

end Operation

end Entropic

end Seraph
