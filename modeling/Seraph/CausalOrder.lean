import Mathlib.Order.Basic
import Mathlib.Data.Nat.Basic
import Mathlib.Order.Lattice

/-!
# Causal order

A vector clock comparison collects two flags : whether some component of the first clock is
greater, and whether some component of the second is. `CausalOrder.ofFlags` reads the result
off the flags. Clocks are maps from nodes to timestamps in the pointwise order, and
`Tells r x y` says that a result is the relation of `x` and `y` in a partial order; flags
that are what they should be give such a result (`tells_ofFlags`).
-/

namespace Seraph

/-- `Seraph_CausalOrder`, and `Seraph_Sparse_VClock_Order` with the same members. -/
inductive CausalOrder where
  | before
  | equal
  | after
  | concurrent
  | void
deriving DecidableEq, Repr

namespace CausalOrder

/-- The result of a comparison in which a component of the first clock was greater, or one of
the second. -/
def ofFlags (greater less : Bool) : CausalOrder :=
  if !greater && !less then equal
  else if less && !greater then before
  else if !less && greater then after
  else concurrent

/-- The result says how `x` and `y` are related. -/
structure Tells {α : Type*} [PartialOrder α] (r : CausalOrder) (x y : α) : Prop where
  before : r = .before ↔ x < y
  equal : r = .equal ↔ x = y
  after : r = .after ↔ y < x
  concurrent : r = .concurrent ↔ ¬ x ≤ y ∧ ¬ y ≤ x

variable {ι : Type*} {f g : ι → ℕ}

theorem not_le_iff_exists_lt : ¬ f ≤ g ↔ ∃ k, g k < f k := by
  simp only [Pi.le_def, not_forall, Nat.not_le]

/-- Flags that say whether a component is greater or less give the relation of two maps. -/
theorem tells_ofFlags {greater less : Bool} (hgreater : greater = true ↔ ∃ k, g k < f k)
    (hless : less = true ↔ ∃ k, f k < g k) : Tells (ofFlags greater less) f g := by
  have hfg : f ≤ g ↔ greater = false := by
    rw [← not_iff_not, not_le_iff_exists_lt, ← hgreater, Bool.not_eq_false]
  have hgf : g ≤ f ↔ less = false := by
    rw [← not_iff_not, not_le_iff_exists_lt, ← hless, Bool.not_eq_false]
  constructor
  · rw [lt_iff_le_not_ge, hfg, hgf]
    cases greater <;> cases less <;> decide
  · have heq : f = g ↔ f ≤ g ∧ g ≤ f := le_antisymm_iff
    rw [heq, hfg, hgf]
    cases greater <;> cases less <;> decide
  · rw [lt_iff_le_not_ge, hfg, hgf]
    cases greater <;> cases less <;> decide
  · rw [hfg, hgf]
    cases greater <;> cases less <;> decide

end CausalOrder

end Seraph
