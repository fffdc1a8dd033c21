import Mathlib.Data.Nat.Notation

/-!
# Token buckets

A bucket holds at most `cap` and gains `gain e` in a time `e` ; a take needs `unit` of it. Takes
from a time `start` on are paid by what the bucket held then, and by what it has gained since
(`Spent`) : refills and takes keep this, so that there are never more takes than the time allows
(`Spent.takes_le`). The gain of two times one after the other is at most that of both
(`Superadditive`), which allows for rounding down.
-/

namespace TokenBucket

/-- Rounding down loses more, the shorter the times are. -/
def Superadditive (gain : ℕ → ℕ) : Prop :=
  ∀ a b, gain a + gain b ≤ gain (a + b)

/-- After `takes` takes since `start`, with `level` in the bucket at the time `last`. -/
def Spent (cap unit : ℕ) (gain : ℕ → ℕ) (start level last takes : ℕ) : Prop :=
  start ≤ last ∧ takes * unit + level ≤ cap + gain (last - start)

variable {cap unit start level last takes : ℕ} {gain : ℕ → ℕ}

theorem Spent.first (h : level ≤ cap) : Spent cap unit gain start level start 0 :=
  ⟨Nat.le_refl start, by omega⟩

theorem Spent.refill (hgain : Superadditive gain) (h : Spent cap unit gain start level last takes)
    {t level' : ℕ} (ht : last ≤ t) (hle : level' ≤ level + gain (t - last)) :
    Spent cap unit gain start level' t takes := by
  obtain ⟨hstart, hspent⟩ := h
  have hsum := hgain (last - start) (t - last)
  have htime : last - start + (t - last) = t - start := by omega
  rw [htime] at hsum
  exact ⟨by omega, by omega⟩

theorem Spent.take (h : Spent cap unit gain start level last takes) (hunit : unit ≤ level) :
    Spent cap unit gain start (level - unit) last (takes + 1) := by
  obtain ⟨hstart, hspent⟩ := h
  refine ⟨hstart, ?_⟩
  rw [Nat.succ_mul]
  omega

theorem Spent.takes_le (h : Spent cap unit gain start level last takes) :
    takes * unit ≤ cap + gain (last - start) := by
  have := h.2
  omega

end TokenBucket
