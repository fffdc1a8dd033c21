import Mathlib.Logic.Function.Basic
import Mathlib.Data.List.Induction
import Mathlib.Data.List.Nodup

/-!
# Moves one after the other

A list of moves between places, done one after the other (`Moves.run`). Each destination should get
what its source held before the first move, as if all moves were one ; with distinct destinations
`Moves.run_eq_iff` says when it does : a source that an earlier move has overwritten was overwritten
with what it held.
-/

namespace Moves

variable {L V : Type*} [DecidableEq L]

/-- What the places hold after a move : its destination comes first. -/
def step (σ : L → V) (m : L × L) : L → V :=
  Function.update σ m.1 (σ m.2)

/-- What the places hold after all moves. -/
def run (σ : L → V) (ms : List (L × L)) : L → V :=
  ms.foldl step σ

variable {σ : L → V} {ms : List (L × L)} {l : L}

@[simp] theorem run_cons (m : L × L) : run σ (m :: ms) = run (step σ m) ms :=
  rfl

theorem run_append (ms ms' : List (L × L)) : run σ (ms ++ ms') = run (run σ ms) ms' :=
  List.foldl_append

theorem run_concat (m : L × L) : run σ (ms ++ [m]) = step (run σ ms) m :=
  List.foldl_concat ..

/-- A place that is no destination keeps what it holds. -/
theorem run_of_notMem (h : l ∉ ms.map Prod.fst) : run σ ms l = σ l := by
  induction ms generalizing σ with
  | nil => rfl
  | cons m ms ih =>
    rw [List.map_cons, List.mem_cons, not_or] at h
    rw [run_cons, ih h.2, step, Function.update_of_ne h.1]

/-- A destination gets what its source held, if that is no destination. -/
theorem run_of_mem {m : L × L} (h : (ms.map Prod.fst).Nodup) (hm : m ∈ ms)
    (hsrc : m.2 ∉ ms.map Prod.fst) : run σ ms m.1 = σ m.2 := by
  induction ms generalizing σ with
  | nil => exact absurd hm List.not_mem_nil
  | cons m' ms ih =>
    rw [List.map_cons, List.nodup_cons] at h
    rw [List.map_cons, List.mem_cons, not_or] at hsrc
    rw [run_cons]
    rcases List.mem_cons.1 hm with rfl | hm
    · rw [run_of_notMem h.1, step, Function.update_self]
    · rw [ih h.2 hm hsrc.2, step, Function.update_of_ne hsrc.1]

/-- The moves are as good as one, unless a source has been overwritten with something else. -/
theorem run_eq_iff (h : (ms.map Prod.fst).Nodup) :
    (∀ m ∈ ms, run σ ms m.1 = σ m.2) ↔
      ms.Pairwise fun m m' => m'.2 = m.1 → σ m.2 = σ m'.2 := by
  induction ms using List.reverseRecOn with
  | nil => simp
  | append_singleton ms m ih =>
    rw [List.map_append, List.map_singleton, List.nodup_append] at h
    obtain ⟨hms, -, hdisj⟩ := h
    have hne : ∀ m' ∈ ms, m'.1 ≠ m.1 := fun m' hm' =>
      hdisj _ (List.mem_map_of_mem hm') _ List.mem_cons_self
    have hkeep : ∀ m' ∈ ms, run σ (ms ++ [m]) m'.1 = run σ ms m'.1 := by
      intro m' hm'
      rw [run_concat, step, Function.update_of_ne (hne m' hm')]
    have hlast : run σ (ms ++ [m]) m.1 = run σ ms m.2 := by
      rw [run_concat, step, Function.update_self]
    rw [List.forall_mem_append, List.forall_mem_singleton, hlast, List.pairwise_append,
      ← ih hms, forall₂_congr fun m' hm' => by rw [hkeep m' hm']]
    refine and_congr_right fun hall => ?_
    -- the last source is a destination, or it holds what it held
    constructor
    · rintro heq
      refine ⟨List.pairwise_singleton .., fun m' hm' b hb hsrc => ?_⟩
      obtain rfl := List.mem_singleton.1 hb
      rw [← hall m' hm', ← heq, hsrc]
    · rintro ⟨-, hpair⟩
      by_cases hmem : m.2 ∈ ms.map Prod.fst
      · obtain ⟨m', hm', hdst⟩ := List.mem_map.1 hmem
        rw [← hdst, hall m' hm', hdst]
        exact hpair m' hm' m List.mem_cons_self hdst.symm
      · exact run_of_notMem hmem

/-- Only the places that matter count : what the moves leave there depends on what they held. -/
theorem run_congr {σ' : L → V} (K : L → Prop) (hsrc : ∀ m ∈ ms, K m.2)
    (h : ∀ l, K l → σ l = σ' l) : ∀ l, K l → run σ ms l = run σ' ms l := by
  induction ms generalizing σ σ' with
  | nil => exact h
  | cons m ms ih =>
    refine ih (fun m' hm' => hsrc m' (List.mem_cons_of_mem _ hm')) fun l hl => ?_
    unfold step
    by_cases heq : l = m.1
    · subst heq
      rw [Function.update_self, Function.update_self]
      exact h _ (hsrc m List.mem_cons_self)
    · rw [Function.update_of_ne heq, Function.update_of_ne heq]
      exact h l hl

end Moves
