import Mathlib.Algebra.Order.Group.Nat
import Mathlib.Data.Nat.Notation

/-!
# Items placed one after the other

Items have an alignment and a size. Each is placed at the first multiple of its alignment behind the
ones before (`offset`). Items are aligned (`align_dvd_offset`), they end before the next ones begin
(`end_le_offset`), and before the end of all (`end_le_finish`).
-/

namespace SerialLayout

/-- The first multiple of `a` that is not below `x`. -/
def roundUp (x a : ℕ) : ℕ :=
  (x + a - 1) / a * a

/-- An item to be placed. -/
structure Item where
  align : ℕ
  size : ℕ

/-- The end of an item behind `x`. -/
def Item.finish (item : Item) (x : ℕ) : ℕ :=
  roundUp x item.align + item.size

/-- The end of items that are placed behind `x`. -/
def finish : List Item → ℕ → ℕ
  | [], x => x
  | item :: items, x => finish items (item.finish x)

/-- The place of an item, behind the items before it. -/
def offset (before : List Item) (item : Item) : ℕ :=
  roundUp (finish before 0) item.align

theorem le_roundUp {a : ℕ} (x : ℕ) (ha : 0 < a) : x ≤ roundUp x a := by
  have h := Nat.lt_div_mul_add (a := x + a - 1) ha
  unfold roundUp
  omega

theorem dvd_roundUp (x a : ℕ) : a ∣ roundUp x a :=
  Nat.dvd_mul_left _ _

theorem roundUp_of_dvd {x a : ℕ} (ha : 0 < a) (h : a ∣ x) : roundUp x a = x := by
  obtain ⟨c, rfl⟩ := h
  rw [roundUp, Nat.add_sub_assoc ha, Nat.mul_add_div ha, Nat.div_eq_of_lt (by omega),
    Nat.add_zero, Nat.mul_comm]

theorem le_finish {items : List Item} (ha : ∀ item ∈ items, 0 < item.align) (x : ℕ) :
    x ≤ finish items x := by
  induction items generalizing x with
  | nil => exact Nat.le_refl x
  | cons item items ih =>
    have hitem := le_roundUp x (ha item (List.mem_cons_self ..))
    have htail := ih (fun i hi => ha i (List.mem_cons_of_mem _ hi)) (item.finish x)
    unfold Item.finish at htail
    rw [finish, Item.finish]
    omega

theorem finish_append (front back : List Item) (x : ℕ) :
    finish (front ++ back) x = finish back (finish front x) := by
  induction front generalizing x with
  | nil => rfl
  | cons item front ih => exact ih (item.finish x)

section

variable {before between after : List Item} {item next : Item}

theorem align_dvd_offset : item.align ∣ offset before item :=
  dvd_roundUp _ _

theorem finish_snoc : finish (before ++ [item]) 0 = offset before item + item.size := by
  rw [finish_append]
  rfl

/-- An item ends before the items behind it. -/
theorem end_le_offset (hbetween : ∀ i ∈ between, 0 < i.align) (hnext : 0 < next.align) :
    offset before item + item.size ≤ offset (before ++ [item] ++ between) next := by
  rw [← finish_snoc, offset, finish_append (before ++ [item])]
  exact (le_finish hbetween _).trans (le_roundUp _ hnext)

/-- An item ends before the end. -/
theorem end_le_finish (hafter : ∀ i ∈ after, 0 < i.align) :
    offset before item + item.size ≤ finish (before ++ [item] ++ after) 0 := by
  rw [← finish_snoc, finish_append (before ++ [item])]
  exact le_finish hafter _

end

end SerialLayout
