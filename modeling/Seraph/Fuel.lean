import Mathlib.Data.Nat.Notation

/-!
# Recursion on fuel

A function that recurses where no structure goes down takes fuel, and answers `none` where the fuel
does not suffice. It settles on a value if it gives this value for all fuel from some amount on.
The steps of such a function settle one after the other (`Settles.bind`).
-/

namespace Fuel

variable {α β : Type*}

/-- From some amount of fuel on, `f` gives `a`. -/
def Settles (f : ℕ → Option α) (a : α) : Prop :=
  ∃ least, ∀ fuel, least ≤ fuel → f fuel = some a

theorem settles_pure (a : α) : Settles (fun _ => some a) a :=
  ⟨0, fun _ _ => rfl⟩

theorem Settles.unique {f : ℕ → Option α} {a b : α} (ha : Settles f a) (hb : Settles f b) :
    a = b := by
  obtain ⟨m, hm⟩ := ha
  obtain ⟨n, hn⟩ := hb
  exact Option.some.inj ((hm (max m n) (Nat.le_max_left m n)).symm.trans
    (hn (max m n) (Nat.le_max_right m n)))

theorem settles_some_iff {a b : α} : Settles (fun _ => some a) b ↔ a = b := by
  constructor
  · exact fun h => (settles_pure a).unique h
  · rintro rfl
    exact settles_pure a

theorem Settles.congr {f g : ℕ → Option α} {a : α} (h : Settles f a) (hfg : ∀ n, g n = f n) :
    Settles g a := by
  obtain ⟨least, hf⟩ := h
  exact ⟨least, fun fuel hle => (hfg fuel).trans (hf fuel hle)⟩

/-- One step of the recursion takes one unit of fuel. -/
theorem Settles.succ {f g : ℕ → Option α} {a : α} (h : Settles g a)
    (hstep : ∀ fuel, f (fuel + 1) = g fuel) : Settles f a := by
  obtain ⟨least, hg⟩ := h
  refine ⟨least + 1, fun fuel hle => ?_⟩
  obtain ⟨fuel, rfl⟩ := Nat.exists_eq_add_of_le' (Nat.le_of_add_left_le hle)
  rw [hstep]
  exact hg fuel (Nat.le_of_succ_le_succ hle)

theorem Settles.bind {f : ℕ → Option α} {g : α → ℕ → Option β} {a : α} {b : β}
    (hf : Settles f a) (hg : Settles (g a) b) :
    Settles (fun fuel => (f fuel).bind fun a => g a fuel) b := by
  obtain ⟨m, hm⟩ := hf
  obtain ⟨n, hn⟩ := hg
  refine ⟨max m n, fun fuel hle => ?_⟩
  dsimp only
  rw [hm fuel (Nat.le_trans (Nat.le_max_left m n) hle), Option.bind_some]
  exact hn fuel (Nat.le_trans (Nat.le_max_right m n) hle)

end Fuel
