import Seraph.SdfOperators

/-!
# Triangles

`seraph_sdf_line` and `seraph_sdf_triangle` from `glyph.c`, with the checks of the quotients that a
square root goes through. The distance to a line without a thickness is not negative
(`line_nonneg`), so that the sign of the distance to a triangle is that of its test
(`triangle_neg_iff`).
-/

namespace Seraph

namespace Sdf

open Q128

/-! ## Definitions -/

/-- The loop of `seraph_q128_sqrt`. -/
def sqrtLoop (A : Arithmetic) (x : Q128) : ℕ → Q128 → Flagged Q128
  | 0, guess => pure guess
  | n + 1, guess => do
    let quotient ← divC A x guess
    let sum := add guess quotient
    sqrtLoop A x n (mul sum half)

/-- `seraph_q128_sqrt`. -/
def sqrt (A : Arithmetic) (x : Q128) : Flagged Q128 :=
  if x.isVoid then pure Q128.void
  else if isNeg x.hi then pure Q128.void
  else if isZero x then pure zero
  else sqrtLoop A x 6 (A.approxSqrt x)

/-- The primal parts of a `Seraph_Glyph_Point`. -/
structure Point where
  x : Q128
  y : Q128

/-- `seraph_sdf_line`. -/
def line (A : Arithmetic) (p p1 p2 : Point) (thickness : Q128) : Flagged SdfResult :=
  if p1.x.isVoid || p1.y.isVoid || p2.x.isVoid || p2.y.isVoid || thickness.isVoid || p.x.isVoid ||
      p.y.isVoid then pure .void
  else
    let vx := sub p2.x p1.x
    let vy := sub p2.y p1.y
    let wx := sub p.x p1.x
    let wy := sub p.y p1.y
    let len_sq := add (mul vx vx) (mul vy vy)
    if isZero len_sq then do
      let dist ← sqrt A (add (mul wx wx) (mul wy wy))
      let half_thick := A.div thickness two
      pure ⟨sub dist half_thick, if isZero dist then zero else A.div wx dist,
        if isZero dist then zero else A.div wy dist, zero⟩
    else do
      let t := clamp (A.div (add (mul wx vx) (mul wy vy)) len_sq) zero one
      let dx := sub p.x (add p1.x (mul t vx))
      let dy := sub p.y (add p1.y (mul t vy))
      let dist ← sqrt A (add (mul dx dx) (mul dy dy))
      let half_thick := A.div thickness two
      let len := (sqrt A len_sq).val
      let inv_dist := A.div one dist
      pure ⟨sub dist half_thick, if isZero dist then A.div (neg vy) len else mul dx inv_dist,
        if isZero dist then A.div vx len else mul dy inv_dist, zero⟩

/-- The cross product for an edge. -/
def cross (p p1 p2 : Point) : Q128 :=
  sub (mul (sub p2.x p1.x) (sub p.y p1.y)) (mul (sub p2.y p1.y) (sub p.x p1.x))

/-- `hi <= 0`. -/
def nonpos (x : Q128) : Bool :=
  x.hi.sle 0

/-- The result of an edge, if it is nearer than the one so far. -/
def nearer (result e : SdfResult) : SdfResult :=
  if truthy (lt (abs e.distance) (abs result.distance)) then e else result

/-- The test of `seraph_sdf_triangle` for points inside. -/
def inside (p p1 p2 p3 : Point) : Bool :=
  let c1 := cross p p1 p2
  let c2 := cross p p2 p3
  let c3 := cross p p3 p1
  let all_pos := nonneg c1.hi && nonneg c2.hi && nonneg c3.hi
  let all_neg := nonpos c1 && nonpos c2 && nonpos c3
  all_pos || all_neg

/-- `seraph_sdf_triangle`. -/
def triangle (A : Arithmetic) (p p1 p2 p3 : Point) : Flagged SdfResult :=
  if p1.x.isVoid || p1.y.isVoid || p2.x.isVoid || p2.y.isVoid || p3.x.isVoid || p3.y.isVoid ||
      p.x.isVoid || p.y.isVoid then pure .void
  else do
    let e1 ← line A p p1 p2 zero
    let e2 ← line A p p2 p3 zero
    let e3 ← line A p p3 p1 zero
    let result := nearer (nearer e1 e2) e3
    pure (if inside p p1 p2 p3 then
      ⟨neg result.distance, neg result.gradient_x, neg result.gradient_y, result.curvature⟩
    else result)

/-! ## Square roots -/

/-- Not negative, if it is a number. -/
def Nonneg (x : Q128) : Prop :=
  x ≠ Q128.void → 0 ≤ x.value

section

variable {A : Arithmetic} {x guess : Q128}

theorem num_of_ne_void (hx : x ≠ Q128.void) : Num x x.value :=
  ⟨hx, rfl⟩

/-- Half of a sum of numbers that are not negative. -/
theorem nonneg_mul_half {a b : Q128} (ha : Nonneg a) (hb : Nonneg b) :
    Nonneg (mul (add a b) half) := by
  intro hne
  have hsum : add a b ≠ Q128.void := fun h => hne (void_of_void (Or.inl h)).2.2
  have hav : a ≠ Q128.void := fun h => hsum (void_of_void (Or.inl h)).1
  have hbv : b ≠ Q128.void := fun h => hsum (void_of_void (Or.inr h)).1
  have hna := num_of_ne_void hav
  have hnb := num_of_ne_void hbv
  have hexact := exact_add hna.isVoid hnb.isVoid
  have hrep : Representable (a.value + b.value) := by
    by_contra hnot
    exact hsum (hexact.2 hnot)
  have hns := num_of_exact hexact hrep
  have hs : 0 ≤ a.value + b.value := Int.add_nonneg (ha hav) (hb hbv)
  have hprod : truncatedProduct (add a b) half = (a.value + b.value) / 2 := by
    rw [truncatedProduct, hns.value, num_half.value, Int.tdiv_eq_ediv_of_nonneg (by omega)]
    omega
  have hfits : Fits (truncatedProduct (add a b) half) := by
    have hupper := hrep.1.2
    rw [hprod]
    exact ⟨by omega, by omega⟩
  have hmul := (exact_mul_iff hns.isVoid num_half.isVoid).mpr (Or.inl hfits)
  rw [(num_of_exact hmul ⟨hfits, by omega⟩).value, hprod]
  omega

/-- What a step of the iteration preserves. -/
theorem nonneg_sqrtStep (hx : Num x x.value) (hpos : 0 ≤ x.value) (hguess : Nonneg guess)
    (hok : (divC A x guess).ok = true) : Nonneg (mul (add guess (divC A x guess).val) half) := by
  refine nonneg_mul_half hguess fun hne => ?_
  have hgv : guess ≠ Q128.void := fun h => hne (A.div_void _ _ (Or.inr (Or.inl h)))
  have hgz : guess.value ≠ 0 := fun h => hne (A.div_void _ _ (Or.inr (Or.inr h)))
  have hquot := num_divC hx (num_of_ne_void hgv) hgz hok
  rw [hquot.value]
  exact Int.tdiv_nonneg (by omega) (hguess hgv)

theorem nonneg_sqrtLoop (hx : Num x x.value) (hpos : 0 ≤ x.value) (n : ℕ) (hguess : Nonneg guess)
    (hok : (sqrtLoop A x n guess).ok = true) : Nonneg (sqrtLoop A x n guess).val := by
  induction n generalizing guess with
  | zero => exact hguess
  | succ n ih =>
    obtain ⟨hdiv, hrest⟩ := (Flagged.ok_bind ..).mp hok
    exact ih (nonneg_sqrtStep hx hpos hguess hdiv) hrest

theorem nonneg_sqrt (hok : (sqrt A x).ok = true) : Nonneg (sqrt A x).val := by
  unfold sqrt at hok ⊢
  split_ifs at hok ⊢ with hvoid hneg hzero
  · exact fun h => absurd rfl h
  · exact fun h => absurd rfl h
  · exact fun _ => le_refl 0
  · have hne : x ≠ Q128.void := fun h => hvoid (isVoid_eq_true.mpr h)
    have hpos : 0 ≤ x.value := by
      by_contra hlt
      exact hneg (isNeg_iff_value.mpr (by omega))
    exact nonneg_sqrtLoop (num_of_ne_void hne) hpos 6 (A.approxSqrt_nonneg x) hok

end

/-! ## Lines and triangles -/

section

variable {A : Arithmetic} {p p1 p2 p3 : Point}

/-- A distance from which half of no thickness is taken. -/
theorem nonneg_sub_half {dist : Q128} (hd : Nonneg dist) : Nonneg (sub dist (A.div zero two)) := by
  have hdiv := A.num_div _ _ _ _ num_zero num_two (by decide) (by decide)
  rw [zero_mul, Int.zero_tdiv] at hdiv
  rw [hdiv.unique num_zero]
  intro hne
  have hdv : dist ≠ Q128.void := fun h => hne (void_of_void (Or.inl h)).2.1
  have hnum := num_of_ne_void hdv
  have hsub := hnum.subC num_zero ((Flagged.ok_check ..).mpr (by
    rw [num_zero.value, sub_zero]
    exact hnum.representable))
  rw [sub_zero] at hsub
  exact hsub.value ▸ hd hdv

theorem line_nonneg (hok : (line A p p1 p2 zero).ok = true) :
    Nonneg (line A p p1 p2 zero).val.distance := by
  unfold line at hok ⊢
  split_ifs at hok ⊢ with hvoid
  · exact fun h => absurd rfl h
  dsimp only at hok ⊢
  by_cases hlen : isZero (add (mul (sub p2.x p1.x) (sub p2.x p1.x))
      (mul (sub p2.y p1.y) (sub p2.y p1.y))) = true
  · rw [if_pos hlen] at hok ⊢
    exact nonneg_sub_half (nonneg_sqrt ((Flagged.ok_bind ..).mp hok).1)
  · rw [if_neg hlen] at hok ⊢
    exact nonneg_sub_half (nonneg_sqrt ((Flagged.ok_bind ..).mp hok).1)

theorem nearer_nonneg {r e : SdfResult} (hr : Nonneg r.distance) (he : Nonneg e.distance) :
    Nonneg (nearer r e).distance := by
  unfold nearer
  split_ifs
  · exact he
  · exact hr

/-- A distance that is negated. -/
theorem neg_value {d : Q128} (hd : Nonneg d) (hne : neg d ≠ Q128.void) :
    (neg d).value = -d.value := by
  have hdv : d ≠ Q128.void := fun h => hne (neg_void (isVoid_eq_true.mpr h))
  have hnum := num_of_ne_void hdv
  have hpos := hd hdv
  have hexact := (exact_neg_iff hnum.isVoid).mpr (by omega)
  by_cases hrep : Representable (-d.value)
  · exact (hexact.1 hrep).2
  · exact absurd (hexact.2 hrep) hne

/-- The distance to a triangle is negative exactly if its test holds. -/
theorem triangle_neg_iff (hok : (triangle A p p1 p2 p3).ok = true)
    (hne : (triangle A p p1 p2 p3).val.distance ≠ Q128.void)
    (hzero : (triangle A p p1 p2 p3).val.distance.value ≠ 0) :
    (triangle A p p1 p2 p3).val.distance.value < 0 ↔ inside p p1 p2 p3 = true := by
  unfold triangle at hok hne hzero ⊢
  by_cases hvoid : (p1.x.isVoid || p1.y.isVoid || p2.x.isVoid || p2.y.isVoid || p3.x.isVoid ||
      p3.y.isVoid || p.x.isVoid || p.y.isVoid) = true
  · rw [if_pos hvoid] at hne
    exact absurd rfl hne
  rw [if_neg hvoid] at hok hne hzero ⊢
  simp only [Flagged.ok_bind, Flagged.val_bind, Flagged.val_pure] at hok hne hzero ⊢
  obtain ⟨h1, h2, h3, -⟩ := hok
  have hnear := nearer_nonneg (nearer_nonneg (line_nonneg h1) (line_nonneg h2)) (line_nonneg h3)
  by_cases hin : inside p p1 p2 p3 = true
  · rw [if_pos hin] at hne hzero ⊢
    have hval := neg_value hnear hne
    have hpos := hnear fun h => hne (neg_void (isVoid_eq_true.mpr h))
    refine iff_of_true ?_ hin
    change (neg _).value ≠ 0 at hzero
    change (neg _).value < 0
    omega
  · rw [if_neg hin] at hne hzero ⊢
    have hpos := hnear hne
    exact iff_of_false (by omega) hin

end

end Sdf

end Seraph
