import Mathlib.Data.Finset.Card
import Mathlib.Data.Fintype.Card
import Mathlib.Data.Nat.Notation

/-!
# Tallies

`tally f a` is how many places of a finite table `f` hold `a`. Writing to one place takes one
off the tally of the value that was there and adds one to that of the value that is written.
-/

namespace Tally

variable {ι α : Type*} [Fintype ι] [DecidableEq α]

/-- Number of places that hold `a`. -/
def tally (f : ι → α) (a : α) : ℕ :=
  (Finset.univ.filter fun i => f i = a).card

variable {f : ι → α} {i : ι} {a b : α}

theorem tally_le (f : ι → α) (a : α) : tally f a ≤ Fintype.card ι :=
  Finset.card_filter_le _ _

/-- The tally depends on where the value is. -/
theorem tally_congr {g : ι → α} (h : ∀ i, f i = a ↔ g i = a) : tally f a = tally g a :=
  congrArg Finset.card (Finset.filter_congr fun i _ => h i)

/-- A table without the value has tally zero. -/
theorem tally_eq_zero (h : ∀ i, f i ≠ a) : tally f a = 0 := by
  rw [tally, Finset.card_eq_zero, Finset.filter_eq_empty_iff]
  exact fun i _ => h i

variable [DecidableEq ι]

/-- The tally of the value that is written goes up. -/
theorem tally_update_self (h : f i ≠ a) :
    tally (Function.update f i a) a = tally f a + 1 := by
  have hfilter : (Finset.univ.filter fun j => Function.update f i a j = a) =
      insert i (Finset.univ.filter fun j => f j = a) := by
    ext j
    rcases eq_or_ne j i with rfl | hj
    · simp
    · simp [hj]
  rw [tally, hfilter, Finset.card_insert_of_notMem (by simpa using h), tally]

/-- The tally of the value that is overwritten goes down. -/
theorem tally_update_old (h : f i ≠ b) :
    tally (Function.update f i b) (f i) + 1 = tally f (f i) := by
  have hback := tally_update_self (f := Function.update f i b) (i := i) (a := f i)
    (by rwa [Function.update_self, ne_comm])
  rw [← hback, Function.update_idem, Function.update_eq_self]

/-- The other tallies stay. -/
theorem tally_update_of_ne (hold : f i ≠ a) (hnew : b ≠ a) :
    tally (Function.update f i b) a = tally f a := by
  refine congrArg Finset.card (Finset.filter_congr fun j _ => ?_)
  rcases eq_or_ne j i with rfl | hj
  · rw [Function.update_self]
    exact iff_of_false hnew hold
  · rw [Function.update_of_ne hj]

end Tally
