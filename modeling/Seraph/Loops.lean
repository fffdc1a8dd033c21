import Mathlib.Data.Nat.Notation

/-!
# Loops that break

`loop body fuel s` is a `while` loop : `body` gives the state after a round, or `none` where
the loop ends. What a round preserves, the loop preserves (`loop_invariant`), and if a
measure goes down with each round, the loop ends by itself where the fuel exceeds the measure
(`loop_done`). A loop over a list is `List.foldl` (`foldl_rel`).
-/

namespace Loops

variable {S : Type*} (body : S → Option S)

/-- At most `fuel` rounds. -/
def loop : ℕ → S → S
  | 0, s => s
  | fuel + 1, s =>
    match body s with
    | none => s
    | some t => loop fuel t

variable {body}

theorem loop_of_none {s : S} (h : body s = none) (fuel : ℕ) : loop body fuel s = s := by
  cases fuel with
  | zero => rfl
  | succ fuel => rw [loop, h]

theorem loop_of_some {s t : S} (h : body s = some t) (fuel : ℕ) :
    loop body (fuel + 1) s = loop body fuel t := by
  rw [loop, h]

/-- What a round preserves, the loop preserves. -/
theorem loop_invariant {I : S → Prop} (hbody : ∀ s t, I s → body s = some t → I t) (fuel : ℕ)
    {s : S} (hs : I s) : I (loop body fuel s) := by
  induction fuel generalizing s with
  | zero => exact hs
  | succ fuel ih =>
    cases h : body s with
    | none => rwa [loop_of_none h]
    | some t =>
      rw [loop_of_some h]
      exact ih (hbody s t hs h)

/-- A loop whose rounds decrease a measure ends where `body` does. -/
theorem loop_done {I : S → Prop} {f : S → ℕ}
    (hbody : ∀ s t, I s → body s = some t → I t ∧ f t < f s) {fuel : ℕ} {s : S} (hs : I s)
    (hfuel : f s < fuel) : body (loop body fuel s) = none := by
  induction fuel generalizing s with
  | zero => exact absurd hfuel (Nat.not_lt_zero _)
  | succ fuel ih =>
    cases h : body s with
    | none => rwa [loop_of_none h]
    | some t =>
      obtain ⟨ht, hlt⟩ := hbody s t hs h
      rw [loop_of_some h]
      exact ih ht (by omega)

/-- A loop whose rounds keep an invariant and decrease a measure ends by itself, with the
invariant. -/
theorem loop_spec {I : S → Prop} {f : S → ℕ}
    (hbody : ∀ s t, I s → body s = some t → I t ∧ f t < f s) {fuel : ℕ} {s : S} (hs : I s)
    (hfuel : f s < fuel) :
    I (loop body fuel s) ∧ f (loop body fuel s) ≤ f s ∧ body (loop body fuel s) = none := by
  have hkeep : I (loop body fuel s) ∧ f (loop body fuel s) ≤ f s := by
    refine loop_invariant (I := fun t => I t ∧ f t ≤ f s) (fun t u ht hround => ?_) fuel
      ⟨hs, Nat.le_refl _⟩
    obtain ⟨hu, hlt⟩ := hbody t u ht.1 hround
    exact ⟨hu, by omega⟩
  exact ⟨hkeep.1, hkeep.2, loop_done hbody hs hfuel⟩

/-- A loop whose rounds are those of another under a map. -/
theorem loop_map {T : Type*} {f : S → T} {body' : T → Option T}
    (hbody : ∀ s, body' (f s) = (body s).map f) (fuel : ℕ) (s : S) :
    loop body' fuel (f s) = f (loop body fuel s) := by
  induction fuel generalizing s with
  | zero => rfl
  | succ fuel ih =>
    cases h : body s with
    | none => rw [loop_of_none h, loop_of_none (by rw [hbody, h, Option.map_none])]
    | some t => rw [loop_of_some h, loop_of_some (by rw [hbody, h, Option.map_some]), ih]

/-- Where every round of a `for` loop is related to its start by a preorder, so is the loop. -/
theorem foldl_rel {A T : Type*} {f : S → T} {g : S → A → S} {r : T → T → Prop}
    (hrefl : ∀ t, r t t) (htrans : ∀ t u v, r t u → r u v → r t v)
    (hround : ∀ s a, r (f s) (f (g s a))) (as : List A) (s : S) :
    r (f s) (f (as.foldl g s)) := by
  induction as generalizing s with
  | nil => exact hrefl _
  | cons a as ih => exact htrans _ _ _ (hround s a) (ih (g s a))

end Loops
