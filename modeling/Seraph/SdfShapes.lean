import Seraph.SdfTriangle

/-!
# Shapes as expressions

An expression over results and triangles is evaluated to a distance. With the right sign at each
leaf the sign of the distance is the Boolean combination of the signs, and the smooth operators
yield the distance of the hard ones, exactly where the smooth intersection and the smooth
subtraction do not occur, and no triangle takes products below 1 for products that are not positive
(`Shape.meets_iff`).
-/

namespace Seraph

namespace Sdf

open Q128

/-! ## Expressions -/

/-- The Boolean operators, with the radius of the smooth ones. -/
inductive Op where
  | union
  | intersect
  | subtract
  | xor
  | smoothUnion (k : Q128)
  | smoothSubtract (k : Q128)
  | smoothIntersect (k : Q128)

/-- The function for an operator. -/
def Op.apply (A : Arithmetic) (a b : SdfResult) : Op → Flagged SdfResult
  | .union => pure (Sdf.union a b)
  | .intersect => pure (Sdf.intersect a b)
  | .subtract => Sdf.subtract a b
  | .xor => Sdf.xor a b
  | .smoothUnion k => Sdf.smoothUnion A a b k
  | .smoothSubtract k => Sdf.smoothSubtract A a b k
  | .smoothIntersect k => Sdf.smoothIntersect A a b k

/-- The operator without a radius. -/
def Op.hard : Op → Op
  | .smoothUnion _ => .union
  | .smoothSubtract _ => .subtract
  | .smoothIntersect _ => .intersect
  | op => op

/-- What an operator says of sets. -/
def Op.holds (p q : Bool) : Op → Bool
  | .union | .smoothUnion _ => p || q
  | .intersect | .smoothIntersect _ => p && q
  | .subtract | .smoothSubtract _ => p && !q
  | .xor => p ^^ q

/-- The distances that a smooth operator combines are as far apart as its radius. -/
def Op.Apart (a b : SdfResult) : Op → Prop
  | .smoothUnion k | .smoothIntersect k =>
    k ≠ Q128.void ∧ Sdf.Apart k.value (a.distance.value - b.distance.value)
  | .smoothSubtract k =>
    k ≠ Q128.void ∧ Sdf.Apart k.value (a.distance.value - -b.distance.value)
  | _ => True

/-- The operators that take the smaller distance for the larger one. -/
def Op.Swapped : Op → Prop
  | .smoothSubtract _ | .smoothIntersect _ => True
  | _ => False

/-- An expression over results and triangles. -/
inductive Shape where
  | result (r : SdfResult)
  | triangle (p p1 p2 p3 : Point)
  | combine (op : Op) (a b : Shape)

namespace Shape

/-- The result of an expression. -/
def eval (A : Arithmetic) : Shape → Flagged SdfResult
  | result r => pure r
  | triangle p p1 p2 p3 => Sdf.triangle A p p1 p2 p3
  | combine op a b => do
    let ra ← eval A a
    let rb ← eval A b
    op.apply A ra rb

/-- The Boolean combination of the signs of the leaves. -/
def sign (A : Arithmetic) : Shape → Bool
  | combine op a b => op.holds (sign A a) (sign A b)
  | t => (eval A t).val.distance.value < 0

/-- The three cross products have one sign. -/
def SameSign (p p1 p2 p3 : Point) : Prop :=
  (0 ≤ (cross p p1 p2).value ∧ 0 ≤ (cross p p2 p3).value ∧ 0 ≤ (cross p p3 p1).value) ∨
    ((cross p p1 p2).value ≤ 0 ∧ (cross p p2 p3).value ≤ 0 ∧ (cross p p3 p1).value ≤ 0)

/-- The leaves are not VOID and have no zero distance, and smooth operators combine distances that
are as far apart as their radius. -/
def Valid (A : Arithmetic) : Shape → Prop
  | combine op a b => Valid A a ∧ Valid A b ∧ op.Apart (eval A a).val (eval A b).val
  | t => (eval A t).val.distance ≠ Q128.void ∧ (eval A t).val.distance.value ≠ 0

/-- Triangles are negative inside, and operators yield the distance of the hard ones. -/
def Nodes (A : Arithmetic) : Shape → Prop
  | result _ => True
  | triangle p p1 p2 p3 =>
    (Sdf.triangle A p p1 p2 p3).val.distance.value < 0 ↔ SameSign p p1 p2 p3
  | combine op a b => Nodes A a ∧ Nodes A b ∧
    (op.apply A (eval A a).val (eval A b).val).val.distance =
      (op.hard.apply A (eval A a).val (eval A b).val).val.distance

/-- An expression describes the set that its operators say. -/
structure Meets (A : Arithmetic) (t : Shape) : Prop where
  nodes : Nodes A t
  sign : (eval A t).val.distance.value < 0 ↔ t.sign A = true

/-- No operator is a smooth intersection or subtraction, and cross products of a triangle none of
which is 1 or more have one sign. -/
def Sound : Shape → Prop
  | result _ => True
  | triangle p p1 p2 p3 =>
    nonpos (cross p p1 p2) && nonpos (cross p p2 p3) && nonpos (cross p p3 p1) →
      SameSign p p1 p2 p3
  | combine op a b => Sound a ∧ Sound b ∧ ¬op.Swapped

end Shape

/-! ## Operators on numbers -/

/-- The distance that an operator yields. -/
def Op.computed (v w : ℤ) : Op → ℤ
  | .union | .smoothUnion _ | .smoothIntersect _ => Min.min v w
  | .intersect => Max.max v w
  | .subtract => Max.max v (-w)
  | .xor => Max.max (Min.min v w) (-Max.max v w)
  | .smoothSubtract _ => Min.min v (-w)

section

variable {A : Arithmetic} {a b : SdfResult} {v w : ℤ}

theorem Op.num_apply (ha : Num a.distance v) (hb : Num b.distance w) (op : Op)
    (hapart : op.Apart a b) (hok : (op.apply A a b).ok = true) :
    Num (op.apply A a b).val.distance (op.computed v w) := by
  cases op with
  | union => exact num_union ha hb
  | intersect => exact num_intersect ha hb
  | subtract => exact num_subtract ha hb hok
  | xor => exact num_xor ha hb hok
  | smoothUnion k =>
    obtain ⟨hk, hpos, hle⟩ := hapart
    rw [ha.value, hb.value, abs_sub_comm] at hle
    exact num_smoothUnion ha hb (num_of_ne_void hk) ⟨hpos, hle⟩ hok
  | smoothSubtract k =>
    obtain ⟨hk, hsub⟩ := hapart
    rw [ha.value, hb.value] at hsub
    exact num_smoothSubtract ha hb (num_of_ne_void hk) hsub hok
  | smoothIntersect k =>
    obtain ⟨hk, hsub⟩ := hapart
    rw [ha.value, hb.value] at hsub
    exact num_smoothIntersect ha hb (num_of_ne_void hk) hsub hok

/-- The checks of an operator are among them those of the hard one. -/
theorem Op.ok_hard (ha : Num a.distance v) (hb : Num b.distance w) (op : Op)
    (hok : (op.apply A a b).ok = true) : (op.hard.apply A a b).ok = true := by
  cases op with
  | smoothUnion k => rfl
  | smoothIntersect k => rfl
  | smoothSubtract k =>
    change (Sdf.subtract a b).ok = true
    rw [Sdf.subtract, SdfResult.isVoid, SdfResult.isVoid, ha.isVoid, hb.isVoid,
      if_neg (by decide), if_neg (by decide)]
    exact (Flagged.ok_bind ..).mpr ⟨((Flagged.ok_bind ..).mp hok).1, rfl⟩
  | _ => exact hok

theorem Op.num_hard (ha : Num a.distance v) (hb : Num b.distance w) (op : Op)
    (hok : (op.apply A a b).ok = true) :
    Num (op.hard.apply A a b).val.distance (op.hard.computed v w) :=
  Op.num_apply ha hb op.hard (by cases op <;> trivial) (Op.ok_hard ha hb op hok)

theorem Op.computed_ne_zero (hv : v ≠ 0) (hw : w ≠ 0) (op : Op) : op.computed v w ≠ 0 := by
  cases op <;> simp only [Op.computed] <;> omega

/-- The sign of what a hard operator yields. -/
theorem Op.computed_hard_neg (hv : v ≠ 0) (hw : w ≠ 0) (op : Op) :
    op.hard.computed v w < 0 ↔ op.holds (v < 0) (w < 0) = true := by
  cases op <;> simp only [Op.hard, Op.computed, Op.holds, Bool.or_eq_true, Bool.and_eq_true,
    Bool.not_eq_true', bne_iff_ne, ne_eq, decide_eq_true_eq, decide_eq_false_iff_not,
    decide_eq_decide] <;> omega

/-- Where the distances are apart, an operator that is not swapped yields what the hard one does. -/
theorem Op.computed_eq_hard_iff (ha : Num a.distance v) (hb : Num b.distance w) (op : Op)
    (hapart : op.Apart a b) : op.computed v w = op.hard.computed v w ↔ ¬op.Swapped := by
  cases op with
  | smoothSubtract k =>
    obtain ⟨-, hpos, hle⟩ := hapart
    rw [ha.value, hb.value, le_abs] at hle
    exact iff_of_false (by simp only [Op.hard, Op.computed]; omega) (not_not_intro trivial)
  | smoothIntersect k =>
    obtain ⟨-, hpos, hle⟩ := hapart
    rw [ha.value, hb.value, le_abs] at hle
    exact iff_of_false (by simp only [Op.hard, Op.computed]; omega) (not_not_intro trivial)
  | _ => exact iff_of_true rfl id

end

/-! ## Expressions on numbers -/

namespace Shape

variable {A : Arithmetic} {p p1 p2 p3 : Point} {t : Shape}

theorem nonneg_iff_value (x : Q128) : nonneg x.hi = true ↔ 0 ≤ x.value := by
  rw [nonneg, BitVec.sle_eq_not_slt, Bool.not_eq_true', ← Bool.not_eq_true, ← isNeg,
    isNeg_iff_value, not_lt]

theorem nonpos_of_value {x : Q128} (h : x.value ≤ 0) : nonpos x = true := by
  rw [Q128.value] at h
  rw [nonpos, BitVec.sle_iff_toInt_le]
  change x.hi.toInt ≤ 0
  omega

/-- The test of a triangle finds one sign, unless it takes small products for nothing. -/
theorem inside_iff : (inside p p1 p2 p3 = true ↔ SameSign p p1 p2 p3) ↔
    Sound (.triangle p p1 p2 p3) := by
  have hinside : inside p p1 p2 p3 = true ↔
      (0 ≤ (cross p p1 p2).value ∧ 0 ≤ (cross p p2 p3).value ∧ 0 ≤ (cross p p3 p1).value) ∨
        (nonpos (cross p p1 p2) && nonpos (cross p p2 p3) && nonpos (cross p p3 p1)) = true := by
    rw [inside, Bool.or_eq_true, Bool.and_eq_true, Bool.and_eq_true, nonneg_iff_value,
      nonneg_iff_value, nonneg_iff_value, and_assoc]
  rw [hinside]
  constructor
  · intro h hneg
    exact h.mp (Or.inr hneg)
  · intro h
    refine ⟨fun hin => hin.elim Or.inl h, fun hsame => hsame.imp_right fun ⟨h1, h2, h3⟩ => ?_⟩
    rw [nonpos_of_value h1, nonpos_of_value h2, nonpos_of_value h3]
    rfl

theorem eval_combine_ok {op : Op} {a b : Shape} (hok : (eval A (.combine op a b)).ok = true) :
    (eval A a).ok = true ∧ (eval A b).ok = true ∧
      (op.apply A (eval A a).val (eval A b).val).ok = true :=
  ((Flagged.ok_bind ..).mp hok).imp_right (Flagged.ok_bind ..).mp

/-- The distance of an expression is a number other than 0. -/
theorem exists_num (hvalid : Valid A t) (hok : (eval A t).ok = true) :
    ∃ v, Num (eval A t).val.distance v ∧ v ≠ 0 := by
  induction t with
  | result r => exact ⟨_, num_of_ne_void hvalid.1, hvalid.2⟩
  | triangle p p1 p2 p3 => exact ⟨_, num_of_ne_void hvalid.1, hvalid.2⟩
  | combine op a b iha ihb =>
    obtain ⟨hoka, hokb, hop⟩ := eval_combine_ok hok
    obtain ⟨v, hv, hvz⟩ := iha hvalid.1 hoka
    obtain ⟨w, hw, hwz⟩ := ihb hvalid.2.1 hokb
    exact ⟨_, op.num_apply hv hw hvalid.2.2 hop, op.computed_ne_zero hvz hwz⟩

/-- The nodes are right exactly where no operator is swapped and no triangle is misled. -/
theorem nodes_iff (hvalid : Valid A t) (hok : (eval A t).ok = true) : Nodes A t ↔ Sound t := by
  induction t with
  | result r => exact Iff.rfl
  | triangle p p1 p2 p3 =>
    rw [← inside_iff (p := p), ← triangle_neg_iff hok hvalid.1 hvalid.2]
    exact Iff.rfl
  | combine op a b iha ihb =>
    obtain ⟨hoka, hokb, hop⟩ := eval_combine_ok hok
    obtain ⟨v, hv, -⟩ := exists_num hvalid.1 hoka
    obtain ⟨w, hw, -⟩ := exists_num hvalid.2.1 hokb
    have hcomputed := op.num_apply hv hw hvalid.2.2 hop
    have hhard := op.num_hard hv hw hop
    refine and_congr (iha hvalid.1 hoka) (and_congr (ihb hvalid.2.1 hokb) ?_)
    rw [← op.computed_eq_hard_iff hv hw hvalid.2.2]
    constructor
    · intro h
      rw [← hcomputed.value, h, hhard.value]
    · intro h
      exact hcomputed.unique (h ▸ hhard)

/-- The sign of a sound expression. -/
theorem neg_iff_sign (hvalid : Valid A t) (hok : (eval A t).ok = true) (hsound : Sound t) :
    (eval A t).val.distance.value < 0 ↔ t.sign A = true := by
  induction t with
  | result r => exact decide_eq_true_iff.symm
  | triangle p p1 p2 p3 => exact decide_eq_true_iff.symm
  | combine op a b iha ihb =>
    obtain ⟨hoka, hokb, hop⟩ := eval_combine_ok hok
    obtain ⟨v, hv, hvz⟩ := exists_num hvalid.1 hoka
    obtain ⟨w, hw, hwz⟩ := exists_num hvalid.2.1 hokb
    have hcomputed := op.num_apply hv hw hvalid.2.2 hop
    have hsa := iha hvalid.1 hoka hsound.1
    have hsb := ihb hvalid.2.1 hokb hsound.2.1
    rw [hv.value] at hsa
    rw [hw.value] at hsb
    change (op.apply A (eval A a).val (eval A b).val).val.distance.value < 0 ↔
      op.holds (a.sign A) (b.sign A) = true
    rw [hcomputed.value, (op.computed_eq_hard_iff hv hw hvalid.2.2).mpr hsound.2.2,
      op.computed_hard_neg hvz hwz, Bool.eq_iff_iff.mpr (decide_eq_true_iff.trans hsa),
      Bool.eq_iff_iff.mpr (decide_eq_true_iff.trans hsb)]

/-- Where nothing overflows, an expression describes the set that its operators say exactly if no
operator is a smooth intersection or subtraction, and no triangle has cross products that are all
below 1 and have different signs. -/
theorem meets_iff (A : Arithmetic) (t : Shape) (hvalid : Valid A t)
    (hok : (eval A t).ok = true) : Meets A t ↔ Sound t := by
  have hnodes := nodes_iff hvalid hok
  constructor
  · intro h
    exact hnodes.mp h.nodes
  · intro h
    exact ⟨hnodes.mpr h, neg_iff_sign hvalid hok h⟩

/-! ## A concrete arithmetic -/

end Shape

/-- The number with a value. -/
def ofValue (v : ℤ) : Q128 :=
  ⟨BitVec.ofInt 64 (v / 2 ^ 64), BitVec.ofInt 64 v⟩

theorem num_ofValue {v : ℤ} (hv : Representable v) : Num (ofValue v) v := by
  obtain ⟨⟨hlo, hhi⟩, hne⟩ := hv
  have hvalue : (ofValue v).value = v := by
    rw [Q128.value, ofValue, BitVec.toInt_ofInt, BitVec.toNat_ofInt,
      Int.bmod_eq_of_le (by omega) (by omega)]
    omega
  refine ⟨fun hvoid => hne ?_, hvalue⟩
  rw [← hvalue, hvoid, value_void]

/-- Truncated quotients, and the greatest numbers whose squares are not greater. -/
def truncating : Arithmetic where
  div a b := if a = Q128.void ∨ b = Q128.void ∨ b.value = 0 then Q128.void
    else ofValue ((a.value * 2 ^ 64).tdiv b.value)
  approxSqrt x := ofValue (Nat.sqrt (x.value.toNat * 2 ^ 64))
  num_div a b v w ha hb hw hrep := by
    rw [if_neg (by simp [ha.ne_void, hb.ne_void, hb.value, hw]), ha.value, hb.value]
    exact num_ofValue hrep
  div_void a b h := if_pos h
  approxSqrt_nonneg x _ := by
    have hlt := x.bits_lt
    have hvalue := value_eq x
    have hsqrt : Nat.sqrt (x.value.toNat * 2 ^ 64) < 2 ^ 96 := by
      rw [Nat.sqrt_lt']
      split at hvalue <;> omega
    rw [(num_ofValue ⟨⟨by omega, by omega⟩, by omega⟩).value]
    omega

/-- A result with a whole distance. -/
def whole (d : ℤ) : SdfResult :=
  ⟨ofValue (d * 2 ^ 64), zero, zero, zero⟩

namespace Shape

theorem valid_result {A : Arithmetic} {r : SdfResult} (hne : r.distance ≠ Q128.void)
    (hzero : r.distance.value ≠ 0) : Valid A (.result r) :=
  And.intro hne hzero

theorem valid_combine {A : Arithmetic} {op : Op} {a b : Shape} (ha : Valid A a) (hb : Valid A b)
    (hapart : op.Apart (eval A a).val (eval A b).val) : Valid A (.combine op a b) :=
  And.intro ha (And.intro hb hapart)

/-- A union that is blended, and from which a shape is taken away. -/
theorem meets_carved : Meets truncating
    (.combine .subtract (.combine (.smoothUnion one) (.result (whole (-3))) (.result (whole 5)))
      (.result (whole 2))) := by
  refine (meets_iff truncating _ (valid_combine (valid_combine ?_ ?_ ?_) ?_ ?_)
    (by decide)).mpr (And.intro (And.intro trivial (And.intro trivial id)) (And.intro trivial id))
  · exact valid_result (by decide) (by decide)
  · exact valid_result (by decide) (by decide)
  · exact And.intro (by decide) ⟨by decide, by decide⟩
  · exact valid_result (by decide) (by decide)
  · exact trivial

/-- The smooth intersection of a shape with one that does not hold the point. -/
theorem not_meets_blended : Valid truncating
    (.combine (.smoothIntersect one) (.result (whole (-3))) (.result (whole 5))) ∧
    (eval truncating
      (.combine (.smoothIntersect one) (.result (whole (-3))) (.result (whole 5)))).ok = true ∧
    ¬Meets truncating
      (.combine (.smoothIntersect one) (.result (whole (-3))) (.result (whole 5))) := by
  refine ⟨valid_combine ?_ ?_ ?_, by decide, fun h => ?_⟩
  · exact valid_result (by decide) (by decide)
  · exact valid_result (by decide) (by decide)
  · exact And.intro (by decide) ⟨by decide, by decide⟩
  · exact absurd h.sign (by decide)

end Shape

end Sdf

end Seraph
