import Mathlib.Data.Nat.ModEq
import Mathlib.Dynamics.PeriodicPts.Defs

/-!
# The tortoise and the hare

The iterates of a function from a starting point run through a tail and then go round a cycle, if
they repeat at all (`exists_rho`). `Rho` gives the lengths of the two, and `Rho.eq_iff` says which
iterates are equal. So two walkers, one at twice the speed of the other, meet after `j` steps just
where the cycle's length divides `j` and the tail is not longer (`Rho.meet_iff`). This is so for a
`j` that is not above the number of points (`Rho.exists_meet`). From such a meeting point and from
the start, two walkers at the same speed meet first where the cycle is entered (`Rho.entry_iff`).
-/

open Function

namespace TortoiseHare

variable {α : Type*} {f : α → α} {s : α} {tail period i j : ℕ}

/-- The iterates from `s` run through `tail` points and then round a cycle of `period` points. -/
structure Rho (f : α → α) (s : α) (tail period : ℕ) : Prop where
  pos : 0 < period
  back : IsPeriodicPt f period (f^[tail] s)
  inj : ∀ i j, i < j → j < tail + period → f^[i] s ≠ f^[j] s

/-- An iterate behind the tail is one of the first round. -/
theorem Rho.iterate_mod (h : Rho f s tail period) (hi : tail ≤ i) :
    f^[i] s = f^[tail + (i - tail) % period] s := by
  have hmod := h.back.iterate_mod_apply (i - tail)
  rw [← iterate_add_apply, ← iterate_add_apply, Nat.sub_add_cancel hi, Nat.add_comm] at hmod
  exact hmod.symm

/-- The points of the tail and of the first round are all different. -/
theorem Rho.eq_of_lt (h : Rho f s tail period) (hi : i < tail + period) (hj : j < tail + period)
    (heq : f^[i] s = f^[j] s) : i = j := by
  rcases Nat.lt_trichotomy i j with hlt | heq' | hlt
  · exact absurd heq (h.inj i j hlt hj)
  · exact heq'
  · exact absurd heq.symm (h.inj j i hlt hi)

/-- Iterates are equal just where both are on the cycle and whole rounds apart. -/
theorem Rho.eq_iff (h : Rho f s tail period) (hij : i ≤ j) :
    f^[i] s = f^[j] s ↔ i = j ∨ tail ≤ i ∧ period ∣ j - i := by
  have hround : ∀ k, tail + k % period < tail + period := fun k =>
    Nat.add_lt_add_left (Nat.mod_lt k h.pos) tail
  rcases Nat.lt_or_ge i tail with hi | hi
  · -- a point of the tail is there once
    refine ⟨fun heq => .inl ?_, fun hor => ?_⟩
    · rcases Nat.lt_or_ge j tail with hj | hj
      · exact h.eq_of_lt (by omega) (by omega) heq
      · rw [h.iterate_mod hj] at heq
        have heq := h.eq_of_lt (by omega) (hround _) heq
        omega
    · rcases hor with rfl | ⟨hle, -⟩
      · rfl
      · omega
  · have hj : tail ≤ j := hi.trans hij
    have hdvd : period ∣ j - i ↔ (i - tail) % period = (j - tail) % period := by
      rw [← Nat.ModEq, Nat.modEq_iff_dvd' (by omega)]
      have hsub : j - tail - (i - tail) = j - i := by omega
      rw [hsub]
    rw [h.iterate_mod hi, h.iterate_mod hj, hdvd]
    refine ⟨fun heq => ?_, ?_⟩
    · have heq := h.eq_of_lt (hround _) (hround _) heq
      exact .inr ⟨hi, Nat.add_left_cancel heq⟩
    · rintro (rfl | ⟨-, heq⟩)
      · rfl
      · rw [heq]

/-- Iterates that repeat have a tail and a cycle. -/
theorem exists_rho (hij : i < j) (heq : f^[i] s = f^[j] s) :
    ∃ tail period, Rho f s tail period ∧ tail + period ≤ j := by
  classical
  have hex : ∃ n, ∃ m < n, f^[m] s = f^[n] s := ⟨j, i, hij, heq⟩
  obtain ⟨m, hlt, hrep⟩ := Nat.find_spec hex
  have hfirst : ∀ a b, a < b → b < Nat.find hex → f^[a] s ≠ f^[b] s := fun a b hab hb hsame =>
    Nat.find_min hex hb ⟨a, hab, hsame⟩
  have hsum : m + (Nat.find hex - m) = Nat.find hex := Nat.add_sub_cancel' hlt.le
  refine ⟨m, Nat.find hex - m, ⟨Nat.sub_pos_of_lt hlt, ?_, fun a b hab hb => ?_⟩, ?_⟩
  · rw [IsPeriodicPt, IsFixedPt, ← iterate_add_apply, Nat.sub_add_cancel hlt.le]
    exact hrep.symm
  · exact hfirst a b hab (hb.trans_eq hsum)
  · exact hsum.trans_le (Nat.find_min' hex ⟨i, hij, heq⟩)

/-- Walkers of one and two steps at a time meet after `j` rounds. -/
theorem Rho.meet_iff (h : Rho f s tail period) (hj : 0 < j) :
    f^[j] s = f^[2 * j] s ↔ tail ≤ j ∧ period ∣ j := by
  have hsub : 2 * j - j = j := by omega
  rw [h.eq_iff (by omega), hsub]
  constructor
  · rintro (hzero | hmeet)
    · omega
    · exact hmeet
  · exact .inr

/-- They meet before the slower one has seen a point twice. -/
theorem Rho.exists_meet (h : Rho f s tail period) :
    ∃ j, 0 < j ∧ j ≤ tail + period ∧ tail ≤ j ∧ period ∣ j := by
  have hpos := h.pos
  have hdiv := Nat.div_add_mod tail period
  have hmod := Nat.mod_lt tail hpos
  rcases Nat.eq_zero_or_pos (tail % period) with hzero | hsome
  · rcases Nat.eq_zero_or_pos tail with rfl | htail
    · exact ⟨period, hpos, by omega, by omega, dvd_rfl⟩
    · exact ⟨tail, htail, by omega, le_rfl, Nat.dvd_of_mod_eq_zero hzero⟩
  · refine ⟨period * (tail / period) + period, by omega, by omega, by omega, ?_⟩
    exact Nat.dvd_add (Nat.dvd_mul_right _ _) dvd_rfl

/-- From a meeting point and from the start, walkers of one step are together from the point on
where the cycle is entered. -/
theorem Rho.entry_iff (h : Rho f s tail period) (hj : 0 < j) (hdvd : period ∣ j) :
    f^[i] s = f^[i + j] s ↔ tail ≤ i := by
  rw [h.eq_iff (by omega), Nat.add_sub_cancel_left]
  constructor
  · rintro (hzero | ⟨hle, -⟩)
    · omega
    · exact hle
  · exact fun hle => .inr ⟨hle, hdvd⟩

/-- A walker on the cycle comes back after whole rounds. -/
theorem Rho.return_iff (h : Rho f s tail period) :
    f^[tail + i] s = f^[tail] s ↔ period ∣ i := by
  rw [eq_comm, h.eq_iff (Nat.le_add_right _ _), Nat.add_sub_cancel_left]
  constructor
  · rintro (hzero | ⟨-, hdvd⟩)
    · have hi : i = 0 := by omega
      exact hi ▸ dvd_zero _
    · exact hdvd
  · exact fun hdvd => .inr ⟨le_rfl, hdvd⟩

end TortoiseHare
