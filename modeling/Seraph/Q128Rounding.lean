import Mathlib.Tactic.Linarith
import Seraph.Q128

/-!
# Fractions and rounding of Q64.64 numbers

`seraph_q128_from_frac` divides the absolute values and finds 64 more bits of the quotient by
shifting and subtracting. After `i` steps the bits that were found and the rest are the quotient and
the remainder of `2 ^ i` times the first rest (`FracState.step`), so that the result is the fraction
truncated toward zero (`value_fromFrac`). The absolute value of `INT64_MIN`, which overflows in C,
is taken in two's complement. Of the rounding functions only `round` is wrong : below zero it rounds
down whatever the fraction is (`meets_rounding_iff`).
-/

namespace Seraph

/-- `u128_add`. -/
def U128.add (a b : U128) : U128 :=
  let lo := a.lo + b.lo
  ⟨lo, a.hi + b.hi + if lo < a.lo then 1 else 0⟩

namespace Q128

/-! ## The functions -/

/-- One step of the long division of `seraph_q128_from_frac`. -/
def fracStep (absDenom : BitVec 64) (i : ℕ) (s : U128 × BitVec 64) : U128 × BitVec 64 :=
  let wideRemainder := s.1.add s.1
  if absDenom ≤ wideRemainder.hi then
    ({ wideRemainder with hi := wideRemainder.hi - absDenom }, s.2 ||| 1#64 <<< (63 - i))
  else (wideRemainder, s.2)

/-- The first `i` steps. -/
def fracLoop (absDenom remainder : BitVec 64) : ℕ → U128 × BitVec 64
  | 0 => (⟨0, remainder⟩, 0)
  | i + 1 => fracStep absDenom i (fracLoop absDenom remainder i)

/-- `SERAPH_IS_VOID_I64`. -/
def isVoidI64 (x : BitVec 64) : Bool :=
  x == -1

/-- `seraph_q128_from_frac`. -/
def fromFrac (num denom : BitVec 64) : Q128 :=
  if isVoidI64 num || isVoidI64 denom || denom == 0 then void
  else
    let negative := isNeg num != isNeg denom
    let absNum := if isNeg num then -num else num
    let absDenom := if isNeg denom then -denom else denom
    let intPart := absNum / absDenom
    let remainder := absNum % absDenom
    let fracPart := (fracLoop absDenom remainder 64).2
    if negative then
      if fracPart = 0 then ⟨-intPart, 0⟩ else ⟨-intPart - 1, ~~~fracPart + 1⟩
    else ⟨intPart, fracPart⟩

/-- `seraph_q128_floor`. -/
def floor (x : Q128) : Q128 :=
  if x.isVoid then void else ⟨x.hi, 0⟩

/-- `seraph_q128_ceil`. -/
def ceil (x : Q128) : Q128 :=
  if x.isVoid then void else if x.lo = 0 then ⟨x.hi, 0⟩ else ⟨x.hi + 1, 0⟩

/-- `seraph_q128_trunc`. -/
def trunc (x : Q128) : Q128 :=
  if x.isVoid then void
  else if nonneg x.hi then ⟨x.hi, 0⟩
  else if x.lo = 0 then ⟨x.hi, 0⟩
  else ⟨x.hi + 1, 0⟩

/-- `seraph_q128_round`. -/
def round (x : Q128) : Q128 :=
  if x.isVoid then void
  else if 0x8000000000000000 ≤ x.lo then ⟨x.hi + if nonneg x.hi then 1 else 0, 0⟩
  else ⟨x.hi, 0⟩

/-- `seraph_q128_frac`. -/
def frac (x : Q128) : Q128 :=
  if x.isVoid then void
  else if nonneg x.hi then ⟨0, x.lo⟩
  else if x.lo = 0 then ⟨0, 0⟩
  else ⟨-1, x.lo⟩

/-! ## The long division -/

/-- After `i` steps `q` is the quotient and the upper word holds the remainder. -/
structure FracState (d r : ℕ) (i : ℕ) (s : U128 × BitVec 64) (q : ℕ) : Prop where
  lo : s.1.lo = 0
  rest : s.1.hi.toNat < d
  quotient : q * d + s.1.hi.toNat = r * 2 ^ i
  bits : s.2.toNat = q * 2 ^ (64 - i)

/-- A word without the low bits gets the bit below. -/
theorem or_bit {x : BitVec 64} {q k : ℕ} (hx : x.toNat = q * 2 ^ (k + 1)) (hk : k < 64) :
    (x ||| 1#64 <<< k).toNat = (2 * q + 1) * 2 ^ k := by
  have hbit : (1#64 <<< k).toNat = 2 ^ k := by
    rw [BitVec.toNat_shiftLeft, Nat.shiftLeft_eq, BitVec.toNat_ofNat,
      Nat.one_mod_two_pow (by decide), Nat.one_mul,
      Nat.mod_eq_of_lt (Nat.pow_lt_pow_right (by decide) hk)]
  rw [BitVec.toNat_or, hx, hbit, Nat.mul_comm q,
    ← Nat.two_pow_add_eq_or_of_lt (Nat.pow_lt_pow_right (by decide) (Nat.lt_succ_self k)),
    Nat.succ_eq_add_one]
  ring

theorem FracState.next {absDenom : BitVec 64} {r i q : ℕ} {s : U128 × BitVec 64}
    (h : FracState absDenom.toNat r i s q) (hd : absDenom.toNat ≤ 2 ^ 63) (hi : i < 64) :
    ∃ q', FracState absDenom.toNat r (i + 1) (fracStep absDenom i s) q' := by
  obtain ⟨hlo, hrest, hquotient, hbits⟩ := h
  have hadd : s.1.add s.1 = ⟨0, s.1.hi + s.1.hi⟩ := by
    rw [U128.add, hlo]
    simp
  have htwice : (s.1.hi + s.1.hi).toNat = 2 * s.1.hi.toNat := by
    rw [BitVec.toNat_add, Nat.mod_eq_of_lt (by omega)]
    omega
  rw [show 64 - i = 63 - i + 1 by omega] at hbits
  rw [fracStep, hadd]
  have hpow : r * 2 ^ (i + 1) = 2 * (r * 2 ^ i) := by rw [pow_succ]; ring
  by_cases hle : absDenom ≤ s.1.hi + s.1.hi
  · rw [if_pos hle]
    have hnat : absDenom.toNat ≤ 2 * s.1.hi.toNat := by
      rw [← htwice]
      exact hle
    have hsub : (s.1.hi + s.1.hi - absDenom).toNat = 2 * s.1.hi.toNat - absDenom.toNat := by
      rw [BitVec.toNat_sub_of_le hle, htwice]
    refine ⟨2 * q + 1, rfl, ?_, ?_, ?_⟩
    · rw [hsub]
      omega
    · rw [hsub, hpow, ← hquotient, Nat.add_mul]
      rw [Nat.mul_add, Nat.mul_assoc]
      omega
    · rw [or_bit hbits (by omega)]
      congr 2
      omega
  · rw [if_neg hle]
    have hnat : 2 * s.1.hi.toNat < absDenom.toNat := by
      rw [← htwice]
      exact Nat.lt_of_not_le hle
    refine ⟨2 * q, rfl, ?_, ?_, ?_⟩
    · rw [htwice]
      exact hnat
    · rw [htwice, hpow, ← hquotient]
      ring
    · rw [hbits, pow_succ, show 64 - (i + 1) = 63 - i by omega]
      ring

/-- The bits of a rest that is below the divisor. -/
theorem toNat_fracLoop {absDenom remainder : BitVec 64} (hrem : remainder.toNat < absDenom.toNat)
    (hd : absDenom.toNat ≤ 2 ^ 63) :
    (fracLoop absDenom remainder 64).2.toNat = remainder.toNat * 2 ^ 64 / absDenom.toNat := by
  have hloop : ∀ i ≤ 64, ∃ q,
      FracState absDenom.toNat remainder.toNat i (fracLoop absDenom remainder i) q := by
    intro i
    induction i with
    | zero => exact fun _ => ⟨0, rfl, hrem, by simp [fracLoop], by simp [fracLoop]⟩
    | succ i ih =>
      intro hi
      obtain ⟨q, hq⟩ := ih (by omega)
      exact hq.next hd (by omega)
  obtain ⟨q, -, hrest, hquotient, hbits⟩ := hloop 64 (Nat.le_refl 64)
  rw [hbits, ← hquotient, Nat.add_comm, Nat.add_mul_div_right _ _ (by omega),
    Nat.div_eq_of_lt hrest]
  simp

/-- Division toward zero divides the absolute values. -/
theorem tdiv_eq_natAbs (a b : ℤ) : a.tdiv b =
    if (decide (a < 0) != decide (b < 0)) = true then -((a.natAbs / b.natAbs : ℕ) : ℤ)
    else ((a.natAbs / b.natAbs : ℕ) : ℤ) := by
  have hnot : ∀ k : ℕ, ¬ (k : ℤ) < 0 := fun k => by omega
  obtain ⟨n, rfl | rfl⟩ := a.eq_nat_or_neg <;> obtain ⟨m, rfl | rfl⟩ := b.eq_nat_or_neg
  all_goals
    rcases Nat.eq_zero_or_pos n with rfl | hn
    · simp
    rcases Nat.eq_zero_or_pos m with rfl | hm
    · simp
    simp [hn, hm, hnot, Int.neg_tdiv, Int.tdiv_neg]

theorem isNeg_eq (x : BitVec 64) : isNeg x = decide (x.toInt < 0) := by
  rw [isNeg, BitVec.slt, BitVec.ofNat_eq_ofNat, BitVec.toInt_zero]

/-- An absolute value. -/
theorem toNat_absolute (x : BitVec 64) :
    (if isNeg x then -x else x).toNat = x.toInt.natAbs := by
  have hx := x.isLt
  have hint := BitVec.toInt_eq_toNat_cond x
  rw [isNeg_eq]
  by_cases hneg : x.toInt < 0
  · rw [if_pos (decide_eq_true hneg), BitVec.toNat_neg]
    split_ifs at hint <;> omega
  · rw [if_neg (by simpa using hneg)]
    split_ifs at hint <;> omega

/-- A number whose sign was taken off, with the sign again. -/
theorem value_signed {intPart fracPart : BitVec 64} (negative : Bool)
    (hint : intPart.toNat ≤ 2 ^ 63) (hpos : negative = false → intPart.toNat < 2 ^ 63)
    (hfrac : fracPart ≠ 0 → intPart.toNat < 2 ^ 63) :
    (if negative then
        if fracPart = 0 then (⟨-intPart, 0⟩ : Q128) else ⟨-intPart - 1, ~~~fracPart + 1⟩
      else ⟨intPart, fracPart⟩).value =
      if negative then -((intPart.toNat * 2 ^ 64 + fracPart.toNat : ℕ) : ℤ)
      else ((intPart.toNat * 2 ^ 64 + fracPart.toNat : ℕ) : ℤ) := by
  have hcond := fun x : BitVec 64 => BitVec.toInt_eq_toNat_cond x
  have hzero : fracPart = 0 ↔ fracPart.toNat = 0 := BitVec.toNat_inj (y := 0#64).symm
  have hlt := fracPart.isLt
  have h0 : BitVec.toNat (0 : BitVec 64) = 0 := rfl
  have h1 : BitVec.toNat (1 : BitVec 64) = 1 := rfl
  cases negative with
  | false =>
    simp only [Bool.false_eq_true, if_false, value, hcond]
    have := hpos rfl
    split_ifs <;> omega
  | true =>
    simp only [if_true]
    split_ifs with h
    · simp only [value, hcond, BitVec.toNat_neg]
      rw [hzero.1 h]
      split_ifs <;> omega
    · have := hfrac h
      rw [hzero] at h
      simp only [value, hcond, BitVec.toNat_sub, BitVec.toNat_neg, BitVec.toNat_add,
        BitVec.toNat_not, h1]
      split_ifs <;> omega

/-- A fraction is truncated toward zero, and is never VOID. -/
theorem value_fromFrac {num denom : BitVec 64} (hnum : num ≠ -1) (hdenom : denom ≠ -1)
    (hzero : denom ≠ 0) :
    (fromFrac num denom).value = (num.toInt * 2 ^ 64).tdiv denom.toInt ∧
      fromFrac num denom ≠ void := by
  have hvoid : (isVoidI64 num || isVoidI64 denom || denom == 0) = false := by
    simp only [isVoidI64, Bool.or_eq_false_iff, beq_eq_false_iff_ne]
    exact ⟨⟨hnum, hdenom⟩, hzero⟩
  obtain ⟨n, hn⟩ : ∃ n, n = num.toInt.natAbs := ⟨_, rfl⟩
  obtain ⟨d, hd⟩ : ∃ d, d = denom.toInt.natAbs := ⟨_, rfl⟩
  have hnumlo := BitVec.le_toInt num
  have hnumhi := BitVec.toInt_lt (x := num)
  have hdenlo := BitVec.le_toInt denom
  have hdenhi := BitVec.toInt_lt (x := denom)
  have hdne : denom.toInt ≠ 0 := fun h => hzero (BitVec.eq_of_toInt_eq h)
  have hdone : denom.toInt ≠ -1 := fun h => hdenom (BitVec.eq_of_toInt_eq h)
  have habsNum := (toNat_absolute num).trans hn.symm
  have habsDenom := (toNat_absolute denom).trans hd.symm
  rw [fromFrac, hvoid, if_neg Bool.false_ne_true]
  generalize (if isNeg num then -num else num) = absNum at *
  generalize (if isNeg denom then -denom else denom) = absDenom at *
  subst habsNum habsDenom
  have hint : (absNum / absDenom).toNat = absNum.toNat / absDenom.toNat := BitVec.toNat_udiv
  have hrem : (absNum % absDenom).toNat = absNum.toNat % absDenom.toNat := BitVec.toNat_umod
  have hbits := @toNat_fracLoop absDenom (absNum % absDenom)
    (by rw [hrem]; exact Nat.mod_lt _ (by omega)) (by omega)
  rw [hrem] at hbits
  -- the quotient is below 2 ^ 63 unless the divisor is 1
  have hhalf : 2 ≤ absDenom.toNat → absNum.toNat / absDenom.toNat < 2 ^ 63 := fun h => by
    have := Nat.div_le_div_left (a := absNum.toNat) h (by decide)
    omega
  have hle := Nat.div_le_self absNum.toNat absDenom.toNat
  have hquotient : absNum.toNat * 2 ^ 64 / absDenom.toNat =
      absNum.toNat / absDenom.toNat * 2 ^ 64 +
        absNum.toNat % absDenom.toNat * 2 ^ 64 / absDenom.toNat := by
    conv_lhs => rw [← Nat.div_add_mod absNum.toNat absDenom.toNat]
    rw [Nat.add_mul, Nat.mul_assoc, Nat.mul_add_div (by omega)]
  have hvalue := @value_signed (absNum / absDenom)
    (fracLoop absDenom (absNum % absDenom) 64).2 (isNeg num != isNeg denom)
    (by omega) (fun hsign => ?_) (fun hfrac => ?_)
  · rw [hint, hbits, ← hquotient] at hvalue
    have hscaled : (num.toInt * 2 ^ 64).tdiv denom.toInt =
        if (isNeg num != isNeg denom) = true then
          -((absNum.toNat * 2 ^ 64 / absDenom.toNat : ℕ) : ℤ)
        else ((absNum.toNat * 2 ^ 64 / absDenom.toNat : ℕ) : ℤ) := by
      have hsign : decide (num.toInt * 2 ^ 64 < 0) = decide (num.toInt < 0) :=
        decide_eq_decide.2 (by omega)
      have habs : (num.toInt * 2 ^ 64).natAbs = num.toInt.natAbs * 2 ^ 64 := by
        rw [Int.natAbs_mul]
        rfl
      rw [tdiv_eq_natAbs, hsign, habs, ← hn, ← hd, isNeg_eq, isNeg_eq]
    refine ⟨hvalue.trans hscaled.symm, fun hvoid => ?_⟩
    -- one unit is too little for a fraction that is not 0
    have hunit : absNum.toNat * 2 ^ 64 / absDenom.toNat ≠ 1 := by
      intro hone
      have hlt := Nat.lt_mul_of_div_lt (lt_of_eq_of_lt hone (by decide : 1 < 2)) (by omega)
      have hpos : 1 ≤ absNum.toNat * 2 ^ 64 / absDenom.toNat := hone.ge
      rw [Nat.one_le_div_iff (by omega)] at hpos
      omega
    rw [hvoid, value_void] at hvalue
    split_ifs at hvalue
    all_goals omega
  · rw [hint]
    rcases Nat.lt_or_ge absDenom.toNat 2 with hone | htwo
    · have hdenpos : ¬ denom.toInt < 0 := by omega
      rw [isNeg_eq, isNeg_eq, decide_eq_false hdenpos, bne_eq_false_iff_eq,
        decide_eq_false_iff_not] at hsign
      omega
    · exact hhalf htwo
  · rw [hint]
    rcases Nat.lt_or_ge absDenom.toNat 2 with hone | htwo
    · refine absurd (BitVec.eq_of_toNat_eq ?_) hfrac
      rw [hbits, show absDenom.toNat = 1 by omega, Nat.mod_one, Nat.zero_mul, Nat.zero_div]
      rfl
    · exact hhalf htwo

/-! ## Rounding -/

/-- The least whole number that is not below `v` units. -/
def ceilOf (v : ℤ) : ℤ :=
  -(-v / 2 ^ 64)

/-- The whole number that is nearest to `v` units. -/
def nearestTo (v : ℤ) : ℤ :=
  (v + 2 ^ 63) / 2 ^ 64

/-- The rounded numbers are as far from a number as they may be, where they are representable. -/
structure Rounded (x : Q128) : Prop where
  floor : x.floor.value ≤ x.value ∧ x.value < x.floor.value + 2 ^ 64
  ceil : ceilOf x.value < 2 ^ 63 → x.ceil.value - 2 ^ 64 < x.value ∧ x.value ≤ x.ceil.value
  frac : x.frac ≠ void ∧ x.trunc.value + x.frac.value = x.value
  trunc : x.trunc.value.natAbs ≤ x.value.natAbs
  round : nearestTo x.value < 2 ^ 63 → 2 * (x.value - x.round.value).natAbs ≤ 2 ^ 64

theorem value_mk (h l : BitVec 64) : (⟨h, l⟩ : Q128).value = h.toInt * 2 ^ 64 + l.toNat :=
  rfl

theorem value_whole (h : BitVec 64) : (⟨h, 0⟩ : Q128).value = h.toInt * 2 ^ 64 := by
  rw [value_mk]
  exact Int.add_zero _

theorem toInt_add_one {h : BitVec 64} (hlt : h.toInt < 2 ^ 63 - 1) :
    (h + 1).toInt = h.toInt + 1 := by
  have hlo := BitVec.le_toInt h
  rw [BitVec.toInt_add, show (1 : BitVec 64).toInt = 1 by decide]
  exact Int.bmod_eq_of_le (by omega) (by omega)

theorem nonneg_eq (x : BitVec 64) : nonneg x = decide (0 ≤ x.toInt) := by
  rw [nonneg, BitVec.sle, BitVec.ofNat_eq_ofNat, BitVec.toInt_zero]

section

variable {x : Q128}

theorem isVoid_eq_false (hx : x ≠ void) : x.isVoid = false := by
  rw [← Bool.not_eq_true, isVoid_eq_true]
  exact hx

theorem lo_eq_zero : x.lo = 0 ↔ x.lo.toNat = 0 :=
  BitVec.toNat_inj (y := 0#64).symm

theorem value_floor (hx : x ≠ void) : x.floor.value = x.hi.toInt * 2 ^ 64 := by
  rw [floor, isVoid_eq_false hx, if_neg Bool.false_ne_true, value_whole]

theorem value_ceil (hx : x ≠ void) (hfit : ceilOf x.value < 2 ^ 63) : x.ceil.value =
    if x.lo.toNat = 0 then x.hi.toInt * 2 ^ 64 else (x.hi.toInt + 1) * 2 ^ 64 := by
  rw [ceil, isVoid_eq_false hx, if_neg Bool.false_ne_true]
  simp only [lo_eq_zero]
  split_ifs with hlo
  · rw [value_whole]
  · unfold ceilOf value at hfit
    rw [value_whole, toInt_add_one (by omega)]

theorem value_trunc (hx : x ≠ void) : x.trunc.value =
    if 0 ≤ x.hi.toInt ∨ x.lo.toNat = 0 then x.hi.toInt * 2 ^ 64
    else (x.hi.toInt + 1) * 2 ^ 64 := by
  rw [trunc, isVoid_eq_false hx, if_neg Bool.false_ne_true]
  simp only [lo_eq_zero, nonneg_eq, decide_eq_true_eq]
  by_cases hsign : 0 ≤ x.hi.toInt
  · rw [if_pos hsign, if_pos (.inl hsign), value_whole]
  · rw [if_neg hsign]
    by_cases hlo : x.lo.toNat = 0
    · rw [if_pos hlo, if_pos (.inr hlo), value_whole]
    · rw [if_neg hlo, if_neg (not_or.2 ⟨hsign, hlo⟩), value_whole, toInt_add_one (by omega)]

theorem value_frac (hx : x ≠ void) : x.frac.value =
    if 0 ≤ x.hi.toInt ∨ x.lo.toNat = 0 then (x.lo.toNat : ℤ) else x.lo.toNat - 2 ^ 64 := by
  rw [frac, isVoid_eq_false hx, if_neg Bool.false_ne_true]
  simp only [lo_eq_zero, nonneg_eq, decide_eq_true_eq]
  by_cases hsign : 0 ≤ x.hi.toInt
  · rw [if_pos hsign, if_pos (.inl hsign), value_mk, show (0 : BitVec 64).toInt = 0 by decide,
      Int.zero_mul, Int.zero_add]
  · rw [if_neg hsign]
    by_cases hlo : x.lo.toNat = 0
    · rw [if_pos hlo, if_pos (.inr hlo), hlo, value_whole, show (0 : BitVec 64).toInt = 0 by decide]
      rfl
    · rw [if_neg hlo, if_neg (not_or.2 ⟨hsign, hlo⟩), value_mk,
        show (-1 : BitVec 64).toInt = -1 by decide]
      omega

theorem frac_eq_void (hx : x ≠ void) :
    x.frac = void ↔ x.hi.toInt < 0 ∧ x.lo.toNat = 2 ^ 64 - 1 := by
  have hvalue := value_frac hx
  have hlt := x.lo.isLt
  constructor
  · intro h
    rw [h, value_void] at hvalue
    split_ifs at hvalue
    all_goals omega
  · rintro ⟨hneg, hones⟩
    rw [frac, isVoid_eq_false hx, if_neg Bool.false_ne_true, nonneg_eq,
      if_neg (by simpa using hneg), if_neg fun h => by rw [lo_eq_zero] at h; omega]
    exact congrArg (Q128.mk (-1)) (BitVec.eq_of_toNat_eq hones)

theorem value_round (hx : x ≠ void) (hfit : nearestTo x.value < 2 ^ 63) : x.round.value =
    if 2 ^ 63 ≤ x.lo.toNat ∧ 0 ≤ x.hi.toInt then (x.hi.toInt + 1) * 2 ^ 64
    else x.hi.toInt * 2 ^ 64 := by
  have hhalf : 0x8000000000000000 ≤ x.lo ↔ 2 ^ 63 ≤ x.lo.toNat := Iff.rfl
  rw [round, isVoid_eq_false hx, if_neg Bool.false_ne_true]
  simp only [hhalf, nonneg_eq, decide_eq_true_eq]
  by_cases hlo : 2 ^ 63 ≤ x.lo.toNat
  · rw [if_pos hlo]
    by_cases hsign : 0 ≤ x.hi.toInt
    · unfold nearestTo value at hfit
      rw [if_pos hsign, if_pos ⟨hlo, hsign⟩, value_whole, toInt_add_one (by omega)]
    · rw [if_neg hsign, if_neg fun h => hsign h.2, value_whole,
        show (0 : BitVec 64) = 0#64 from rfl, BitVec.add_zero]
  · rw [if_neg hlo, if_neg fun h => hlo h.1, value_whole]

/-- Below zero a fraction above one half is rounded down. -/
theorem rounded_iff (hx : x ≠ void) : Rounded x ↔ 0 ≤ x.value ∨ x.lo.toNat ≤ 2 ^ 63 := by
  have hlo := BitVec.le_toInt x.hi
  have hhi := BitVec.toInt_lt (x := x.hi)
  have hlt := x.lo.isLt
  have hvalue : x.value = x.hi.toInt * 2 ^ 64 + x.lo.toNat := rfl
  have hnearest : nearestTo x.value = (x.value + 2 ^ 63) / 2 ^ 64 := rfl
  have hceilOf : ceilOf x.value = -(-x.value / 2 ^ 64) := rfl
  constructor
  · intro h
    by_contra hnot
    have hfit : nearestTo x.value < 2 ^ 63 := by omega
    have hnear := h.round hfit
    rw [value_round hx hfit] at hnear
    split_ifs at hnear <;> omega
  · intro hcond
    refine ⟨?_, fun hfit => ?_, ⟨?_, ?_⟩, ?_, fun hfit => ?_⟩
    · rw [value_floor hx]
      omega
    · rw [value_ceil hx hfit]
      split_ifs <;> omega
    · rw [ne_eq, frac_eq_void hx]
      omega
    · rw [value_trunc hx, value_frac hx]
      split_ifs <;> omega
    · rw [value_trunc hx]
      split_ifs <;> omega
    · rw [value_round hx hfit]
      split_ifs <;> omega

end

/-- A use of `seraph_q128_from_frac`, or of the rounding functions. -/
inductive Rounding where
  | fromFrac (num denom : BitVec 64)
  | round (x : Q128)

namespace Rounding

/-- The fraction is truncated, or the number is rounded, unless an operand is VOID or the
denominator is zero. -/
def Meets : Rounding → Prop
  | fromFrac num denom => num ≠ -1 → denom ≠ -1 → denom ≠ 0 →
    (Q128.fromFrac num denom).value = (num.toInt * 2 ^ 64).tdiv denom.toInt ∧
      Q128.fromFrac num denom ≠ void
  | round x => x ≠ void → Rounded x

/-- The number is not below zero with a fraction above one half. -/
def Plain : Rounding → Prop
  | fromFrac _ _ => True
  | round x => x = void ∨ 0 ≤ x.value ∨ x.lo.toNat ≤ 2 ^ 63

theorem meets_rounding_iff (use : Rounding) : use.Meets ↔ use.Plain := by
  cases use with
  | fromFrac num denom =>
    exact iff_of_true (fun hnum hdenom hzero => value_fromFrac hnum hdenom hzero) trivial
  | round x =>
    by_cases hx : x = void
    · exact iff_of_true (fun h => absurd hx h) (.inl hx)
    · exact ⟨fun h => .inr ((rounded_iff hx).1 (h hx)),
        fun h _ => (rounded_iff hx).2 (h.resolve_left hx)⟩

/-- -1/4 is rounded to -1. -/
theorem not_meets_quarter : ¬ (round ⟨-1, 0xC000000000000000⟩).Meets := by
  intro h
  have hnear := (h (by decide)).round (by decide)
  exact absurd hnear (by decide)

end Rounding

end Q128

end Seraph
