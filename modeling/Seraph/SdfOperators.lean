import Seraph.Q128Order

/-!
# Operators on signed distances

The Boolean operators of `glyph.c` and their smooth variants, with the checks of the distances they
compute. On numbers they yield minima, maxima and negations of the distances. The smooth
intersection takes its blend factor the other way round and blends the other way round as well, so
that it yields the smaller distance where it should be the larger one (`num_smoothIntersect`).
-/

namespace Seraph

namespace Sdf

open Q128

/-- Division, which is taken to be exact up to truncation, and the estimate of a square root in
floating point, which is only taken not to be negative. -/
structure Arithmetic where
  div : Q128 → Q128 → Q128
  approxSqrt : Q128 → Q128
  num_div : ∀ a b v w, Num a v → Num b w → w ≠ 0 → Representable ((v * 2 ^ 64).tdiv w) →
    Num (div a b) ((v * 2 ^ 64).tdiv w)
  div_void : ∀ a b, a = Q128.void ∨ b = Q128.void ∨ b.value = 0 → div a b = Q128.void
  approxSqrt_nonneg : ∀ x, approxSqrt x ≠ Q128.void → 0 ≤ (approxSqrt x).value

/-- `Seraph_SDF_Result`. -/
structure SdfResult where
  distance : Q128
  gradient_x : Q128
  gradient_y : Q128
  curvature : Q128
deriving DecidableEq, Repr

/-- `SERAPH_SDF_VOID`. -/
def SdfResult.void : SdfResult :=
  ⟨Q128.void, zero, zero, zero⟩

/-- `seraph_sdf_is_void`. -/
def SdfResult.isVoid (r : SdfResult) : Bool :=
  r.distance.isVoid

/-- `seraph_sdf_negate`. -/
def negate (r : SdfResult) : Flagged SdfResult :=
  if r.isVoid then pure r
  else do
    let distance ← negC r.distance
    pure ⟨distance, neg r.gradient_x, neg r.gradient_y, r.curvature⟩

/-- `seraph_sdf_union`. -/
def union (a b : SdfResult) : SdfResult :=
  if a.isVoid then b else if b.isVoid then a
  else if truthy (lt a.distance b.distance) then a else b

/-- `seraph_sdf_intersect`. -/
def intersect (a b : SdfResult) : SdfResult :=
  if a.isVoid then .void else if b.isVoid then .void
  else if truthy (gt a.distance b.distance) then a else b

/-- `seraph_sdf_subtract`. -/
def subtract (a b : SdfResult) : Flagged SdfResult :=
  if a.isVoid then pure .void else if b.isVoid then pure a
  else do
    let neg_b ← negate b
    pure (intersect a neg_b)

/-- `seraph_sdf_xor`. -/
def xor (a b : SdfResult) : Flagged SdfResult :=
  if a.isVoid then pure b else if b.isVoid then pure a
  else do
    let min_d := Q128.min a.distance b.distance
    let max_d := Q128.max a.distance b.distance
    let neg_d ← negC max_d
    let dominant := if truthy (lt a.distance b.distance) then a else b
    pure ⟨Q128.max min_d neg_d, dominant.gradient_x, dominant.gradient_y, dominant.curvature⟩

/-- A division, with whether the quotient of numbers is one. -/
def divC (A : Arithmetic) (a b : Q128) : Flagged Q128 :=
  .check (a = Q128.void ∨ b = Q128.void ∨ Representable ((a.value * 2 ^ 64).tdiv b.value))
    (A.div a b)

/-- The blend factor of the smooth operators. -/
def blendFactor (A : Arithmetic) (diff k : Q128) : Flagged Q128 := do
  let twice ← mulC k two
  let ratio ← divC A diff twice
  let sum ← addC ratio half
  pure (clamp sum zero one)

/-- The correction of the smooth operators. -/
def correction (k h : Q128) : Flagged Q128 := do
  let scaled ← mulC k h
  let rest ← subC one h
  mulC scaled rest

/-- The gradients and the curvature of a blended result. -/
def blended (distance : Q128) (a b : SdfResult) (h : Q128) : SdfResult :=
  ⟨distance, (lerpC a.gradient_x b.gradient_x h).val, (lerpC a.gradient_y b.gradient_y h).val,
    (lerpC a.curvature b.curvature h).val⟩

/-- `seraph_sdf_smooth_union`. -/
def smoothUnion (A : Arithmetic) (a b : SdfResult) (k : Q128) : Flagged SdfResult :=
  if a.isVoid then pure b else if b.isVoid then pure a
  else if k.isVoid || isZero k then pure (union a b)
  else do
    let diff ← subC b.distance a.distance
    let h ← blendFactor A diff k
    let blend_dist ← lerpC b.distance a.distance h
    let corr ← correction k h
    let distance ← subC blend_dist corr
    pure (blended distance b a h)

/-- `seraph_sdf_smooth_intersect`. -/
def smoothIntersect (A : Arithmetic) (a b : SdfResult) (k : Q128) : Flagged SdfResult :=
  if a.isVoid then pure .void else if b.isVoid then pure .void
  else if k.isVoid || isZero k then pure (intersect a b)
  else do
    let diff ← subC a.distance b.distance
    let h ← blendFactor A diff k
    let blend_dist ← lerpC a.distance b.distance h
    let corr ← correction k h
    let distance ← addC blend_dist corr
    pure (blended distance a b h)

/-- `seraph_sdf_smooth_subtract`. -/
def smoothSubtract (A : Arithmetic) (a b : SdfResult) (k : Q128) : Flagged SdfResult := do
  let neg_b ← negate b
  smoothIntersect A a neg_b k

/-! ## Blending -/

/-- Distances that are at least `k` apart, for a positive `k`. -/
structure Apart (k v : ℤ) : Prop where
  pos : 0 < k
  apart : k ≤ |v|

section

variable {A : Arithmetic} {diff k h : Q128} {v κ : ℤ}

theorem num_divC {a b : Q128} {w : ℤ} (ha : Num a v) (hb : Num b w) (hw : w ≠ 0)
    (hok : (divC A a b).ok = true) : Num (divC A a b).val ((v * 2 ^ 64).tdiv w) := by
  rw [divC, Flagged.ok_check, ha.value, hb.value] at hok
  rcases hok with hvoid | hvoid | hrep
  · exact absurd hvoid ha.ne_void
  · exact absurd hvoid hb.ne_void
  · exact A.num_div _ _ _ _ ha hb hw hrep

theorem ratio_bounds (h : Apart κ v) : (0 < v → 2 ^ 63 ≤ (v * 2 ^ 64).tdiv (2 * κ)) ∧
    (v < 0 → (v * 2 ^ 64).tdiv (2 * κ) ≤ -2 ^ 63) := by
  have hpos := h.pos
  have hquot : ∀ x : ℤ, κ ≤ x → 2 ^ 63 ≤ (x * 2 ^ 64).tdiv (2 * κ) := by
    intro x hx
    rw [Int.tdiv_eq_ediv_of_nonneg (by omega)]
    refine Int.le_ediv_of_mul_le (by omega) ?_
    omega
  constructor
  · intro hv
    exact hquot v (by rw [← abs_of_pos hv]; exact h.apart)
  · intro hv
    have hneg := hquot (-v) (by rw [← abs_of_neg hv]; exact h.apart)
    rw [Int.neg_mul, Int.neg_tdiv] at hneg
    omega

/-- Where the distances are apart, the blend factor is 1 or 0. -/
theorem num_blendFactor (hdiff : Num diff v) (hk : Num k κ) (hapart : Apart κ v)
    (hok : (blendFactor A diff k).ok = true) :
    Num (blendFactor A diff k).val (if 0 < v then 2 ^ 64 else 0) := by
  rw [blendFactor, Flagged.ok_bind, Flagged.ok_bind, Flagged.ok_bind] at hok
  obtain ⟨htwice, hratio, hsum, -⟩ := hok
  have hpos := hapart.pos
  have hnum := hk.mulC num_two htwice
  have hdouble : (κ * 2 ^ 65).tdiv (2 ^ 64) = 2 * κ := by
    rw [show κ * 2 ^ 65 = 2 * κ * 2 ^ 64 by ring, Int.mul_tdiv_cancel _ (by decide)]
  rw [hdouble] at hnum
  have hclamp := ((num_divC hdiff hnum (by omega) hratio).addC num_half hsum).clamp
  have hbounds := ratio_bounds hapart
  have hne : v ≠ 0 := by
    rintro rfl
    have := hapart.apart
    rw [abs_zero] at this
    omega
  change Num (clamp (addC (divC A diff (mulC k two).val).val half).val zero one) _
  rcases lt_or_gt_of_ne hne with hneg | hvpos
  · have hle := hbounds.2 hneg
    rw [max_eq_right (by omega), min_eq_left (by decide)] at hclamp
    rwa [if_neg (by omega)]
  · have hle := hbounds.1 hvpos
    rw [max_eq_left (by omega), min_eq_right (by omega)] at hclamp
    rwa [if_pos hvpos]

/-- At the ends of the blend there is no correction. -/
theorem num_correction {u : ℤ} (hk : Num k κ) (hh : Num h u) (hu : u = 2 ^ 64 ∨ u = 0)
    (hok : (correction k h).ok = true) : Num (correction k h).val 0 := by
  rw [correction, Flagged.ok_bind, Flagged.ok_bind] at hok
  obtain ⟨hscaled, hrest, hprod⟩ := hok
  have hnum := (hk.mulC hh hscaled).mulC (num_one.subC hh hrest) hprod
  rcases hu with rfl | rfl
  · rw [sub_self, mul_zero, Int.zero_tdiv] at hnum
    exact hnum
  · rw [mul_zero, Int.zero_tdiv, zero_mul, Int.zero_tdiv] at hnum
    exact hnum

end

/-! ## The operators on numbers -/

section

variable {A : Arithmetic} {a b : SdfResult} {k : Q128} {v w κ : ℤ}

theorem num_union (ha : Num a.distance v) (hb : Num b.distance w) :
    Num (union a b).distance (min v w) := by
  rw [union, SdfResult.isVoid, SdfResult.isVoid, ha.isVoid, hb.isVoid, if_neg (by decide),
    if_neg (by decide), truthy_lt ha hb]
  by_cases h : v < w
  · rw [decide_eq_true h, if_pos rfl, min_eq_left h.le]
    exact ha
  · rw [decide_eq_false h, if_neg (by decide), min_eq_right (not_lt.mp h)]
    exact hb

theorem num_intersect (ha : Num a.distance v) (hb : Num b.distance w) :
    Num (intersect a b).distance (max v w) := by
  rw [intersect, SdfResult.isVoid, SdfResult.isVoid, ha.isVoid, hb.isVoid, if_neg (by decide),
    if_neg (by decide), gt, truthy_lt hb ha]
  by_cases h : w < v
  · rw [decide_eq_true h, if_pos rfl, max_eq_left h.le]
    exact ha
  · rw [decide_eq_false h, if_neg (by decide), max_eq_right (not_lt.mp h)]
    exact hb

theorem num_negate (ha : Num a.distance v) (hok : (negate a).ok = true) :
    Num (negate a).val.distance (-v) := by
  rw [negate, SdfResult.isVoid, ha.isVoid, if_neg (by decide)] at hok ⊢
  exact ha.negC ((Flagged.ok_bind ..).mp hok).1

theorem num_subtract (ha : Num a.distance v) (hb : Num b.distance w)
    (hok : (subtract a b).ok = true) : Num (subtract a b).val.distance (max v (-w)) := by
  rw [subtract, SdfResult.isVoid, SdfResult.isVoid, ha.isVoid, hb.isVoid, if_neg (by decide),
    if_neg (by decide)] at hok ⊢
  exact num_intersect ha (num_negate hb ((Flagged.ok_bind ..).mp hok).1)

theorem num_xor (ha : Num a.distance v) (hb : Num b.distance w) (hok : (xor a b).ok = true) :
    Num (xor a b).val.distance (max (min v w) (-max v w)) := by
  rw [xor, SdfResult.isVoid, SdfResult.isVoid, ha.isVoid, hb.isVoid, if_neg (by decide),
    if_neg (by decide)] at hok ⊢
  exact (ha.min hb).max ((ha.max hb).negC ((Flagged.ok_bind ..).mp hok).1)

theorem not_isVoid_or_isZero (hk : Num k κ) (hpos : 0 < κ) : ¬(k.isVoid || isZero k) = true := by
  rw [hk.isVoid, Bool.false_or, isZero, Bool.and_eq_true, beq_iff_eq, beq_iff_eq]
  rintro ⟨hhi, hlo⟩
  have hvalue := hk.value
  rw [Q128.value, hhi, hlo] at hvalue
  exact hpos.ne hvalue

/-- An interpolation with a blend factor of 1 or 0. -/
theorem blend_end (p : Prop) [Decidable p] (v w : ℤ) :
    w + ((if p then 2 ^ 64 else 0) * (v - w)).tdiv (2 ^ 64) = if p then v else w := by
  split_ifs
  · rw [Int.mul_tdiv_cancel_left _ (by decide)]
    omega
  · rw [zero_mul, Int.zero_tdiv, add_zero]

/-- The smooth union yields the distance of the union. -/
theorem num_smoothUnion (ha : Num a.distance v) (hb : Num b.distance w) (hk : Num k κ)
    (hapart : Apart κ (w - v)) (hok : (smoothUnion A a b k).ok = true) :
    Num (smoothUnion A a b k).val.distance (min v w) := by
  have hpos := not_isVoid_or_isZero hk hapart.pos
  rw [smoothUnion, SdfResult.isVoid, SdfResult.isVoid, ha.isVoid, hb.isVoid, if_neg (by decide),
    if_neg (by decide), if_neg hpos] at hok ⊢
  simp only [Flagged.ok_bind, Flagged.val_bind, Flagged.val_pure] at hok ⊢
  obtain ⟨hdiff, hblend, hlerp, hcorr, hsub, -⟩ := hok
  have hh := num_blendFactor (hb.subC ha hdiff) hk hapart hblend
  have hdist := hb.lerpC ha hh hlerp
  have hzero := num_correction hk hh (by split_ifs <;> decide) hcorr
  have hres := hdist.subC hzero hsub
  rw [blend_end, sub_zero] at hres
  rw [show min v w = if 0 < w - v then v else w by split_ifs <;> omega]
  exact hres

/-- The smooth intersection yields the smaller distance. -/
theorem num_smoothIntersect (ha : Num a.distance v) (hb : Num b.distance w) (hk : Num k κ)
    (hapart : Apart κ (v - w)) (hok : (smoothIntersect A a b k).ok = true) :
    Num (smoothIntersect A a b k).val.distance (min v w) := by
  have hpos := not_isVoid_or_isZero hk hapart.pos
  rw [smoothIntersect, SdfResult.isVoid, SdfResult.isVoid, ha.isVoid, hb.isVoid,
    if_neg (by decide), if_neg (by decide), if_neg hpos] at hok ⊢
  simp only [Flagged.ok_bind, Flagged.val_bind, Flagged.val_pure] at hok ⊢
  obtain ⟨hdiff, hblend, hlerp, hcorr, hadd, -⟩ := hok
  have hh := num_blendFactor (ha.subC hb hdiff) hk hapart hblend
  have hdist := ha.lerpC hb hh hlerp
  have hzero := num_correction hk hh (by split_ifs <;> decide) hcorr
  have hres := hdist.addC hzero hadd
  rw [blend_end, add_zero] at hres
  rw [show min v w = if 0 < v - w then w else v by split_ifs <;> omega]
  exact hres

theorem num_smoothSubtract (ha : Num a.distance v) (hb : Num b.distance w) (hk : Num k κ)
    (hapart : Apart κ (v - -w)) (hok : (smoothSubtract A a b k).ok = true) :
    Num (smoothSubtract A a b k).val.distance (min v (-w)) := by
  obtain ⟨hneg, hsmooth⟩ := (Flagged.ok_bind ..).mp hok
  exact num_smoothIntersect ha (num_negate hb hneg) hk hapart hsmooth

end

end Sdf

end Seraph
