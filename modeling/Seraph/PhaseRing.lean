import Mathlib.Data.List.Basic
import Mathlib.Data.Nat.ModEq
import Mathlib.Data.Nat.Notation
import Mathlib.Logic.Function.Basic

/-!
# Rings with a phase

A list is written to the slots of a ring in order, round and round. `Window` says that the elements
from a position on are still in their slots : a new element takes the slot of an old one, which is
outside the window while the ring is not full (`Window.push`).

Where each element also carries the phase of its lap, a reader sees from the slot alone whether the
element it waits for has been written (`Phased.phase_eq_iff`), because the slots ahead of the writer
carry the phase of the lap before (`Phased.push`).
-/

namespace PhaseRing

variable {α : Type*} {N : ℕ}

/-- Positions less than a lap apart have different slots. -/
theorem mod_ne {i j : ℕ} (hij : i < j) (hj : j < i + N) : i % N ≠ j % N := by
  intro h
  have hdvd : N ∣ j - i := (Nat.modEq_iff_dvd' hij.le).1 h
  have hle := Nat.le_of_dvd (by omega) hdvd
  omega

/-! ## Windows -/

/-- The elements from `start` on are in their slots. -/
def Window (N : ℕ) (slots : ℕ → α) (xs : List α) (start : ℕ) : Prop :=
  ∀ k, start ≤ k → ∀ hk : k < xs.length, slots (k % N) = xs[k]

variable {slots : ℕ → α} {xs : List α} {start : ℕ}

theorem Window.mono {next : ℕ} (h : Window N slots xs start) (hle : start ≤ next) :
    Window N slots xs next :=
  fun k hk => h k (hle.trans hk)

/-- A window of less than a lap has room for one more. -/
theorem Window.push (h : Window N slots xs start) (hroom : xs.length < start + N) (x : α) :
    Window N (Function.update slots (xs.length % N) x) (xs ++ [x]) start := by
  intro k hk hlt
  rw [List.length_append, List.length_singleton] at hlt
  rcases Nat.lt_succ_iff_lt_or_eq.1 hlt with hold | rfl
  · rw [List.getElem_append_left hold, Function.update_of_ne (mod_ne hold (by omega))]
    exact h k hk hold
  · rw [Function.update_self, List.getElem_concat_length rfl]

/-! ## Phases -/

/-- The phase of a position : 1 on the first lap, and then changing from lap to lap. -/
def phase (N k : ℕ) : ℕ :=
  (k / N + 1) % 2

theorem phase_add (hN : 0 < N) (k : ℕ) : phase N (k + N) ≠ phase N k := by
  unfold phase
  rw [Nat.add_div_right _ hN]
  omega

/-- A position and its phase, counted up one by one. -/
theorem mod_succ (hN : 0 < N) (k : ℕ) :
    (if N ≤ k % N + 1 then 0 else k % N + 1) = (k + 1) % N ∧
      (if N ≤ k % N + 1 then phase N k ^^^ 1 else phase N k) = phase N (k + 1) := by
  have hlt := Nat.mod_lt k hN
  have hdiv := Nat.div_add_mod k N
  unfold phase
  by_cases hwrap : N ≤ k % N + 1
  · have hsucc : k + 1 = N * (k / N + 1) := by
      rw [Nat.mul_succ]
      omega
    rw [if_pos hwrap, if_pos hwrap, hsucc, Nat.mul_mod_right, Nat.mul_div_cancel_left _ hN]
    rcases Nat.mod_two_eq_zero_or_one (k / N + 1) with heven | hodd
    · refine ⟨rfl, ?_⟩
      rw [heven, show (k / N + 1 + 1) % 2 = 1 by omega]
      rfl
    · refine ⟨rfl, ?_⟩
      rw [hodd, show (k / N + 1 + 1) % 2 = 0 by omega]
      rfl
  · have hsame : (k + 1) / N = k / N := by
      refine Nat.div_eq_of_lt_le ?_ ?_
      · rw [Nat.mul_comm]
        omega
      · rw [Nat.succ_mul, Nat.mul_comm]
        omega
    have hmod : (k + 1) % N = k % N + 1 := by
      have hdiv' := Nat.div_add_mod (k + 1) N
      rw [hsame] at hdiv'
      omega
    rw [if_neg hwrap, if_neg hwrap, hsame, hmod]
    exact ⟨rfl, rfl⟩

/-- The list is in the ring from `start` on, its elements carry their phases, and the slots ahead of
it do not carry those of the elements to come. -/
structure Phased (N : ℕ) (phaseOf : α → ℕ) (slots : ℕ → α) (xs : List α) (start : ℕ) : Prop where
  window : Window N slots xs start
  start_le : start ≤ xs.length
  phases : ∀ k, ∀ hk : k < xs.length, phaseOf xs[k] = phase N k
  ahead : ∀ k, xs.length ≤ k → k < xs.length + N → phaseOf (slots (k % N)) ≠ phase N k

variable {phaseOf : α → ℕ}

/-- The reader sees whether there is an element at its position. -/
theorem Phased.phase_eq_iff (h : Phased N phaseOf slots xs start) (hN : 0 < N) :
    phaseOf (slots (start % N)) = phase N start ↔ start < xs.length := by
  constructor
  · intro heq
    by_contra hnot
    have hlen := le_antisymm h.start_le (not_lt.1 hnot)
    exact h.ahead start hlen.ge (by omega) heq
  · intro hlt
    rw [h.window start (le_refl start) hlt]
    exact h.phases start hlt

theorem Phased.next (h : Phased N phaseOf slots xs start) (hlt : start < xs.length) :
    Phased N phaseOf slots xs (start + 1) :=
  ⟨h.window.mono (Nat.le_succ start), hlt, h.phases, h.ahead⟩

theorem Phased.push (h : Phased N phaseOf slots xs start) (hN : 0 < N)
    (hroom : xs.length < start + N) {x : α} (hx : phaseOf x = phase N xs.length) :
    Phased N phaseOf (Function.update slots (xs.length % N) x) (xs ++ [x]) start := by
  refine ⟨h.window.push hroom x, ?_, fun k hk => ?_, fun k hlow hhigh => ?_⟩
  · rw [List.length_append]
    exact h.start_le.trans (Nat.le_add_right _ _)
  · rw [List.length_append, List.length_singleton] at hk
    rcases Nat.lt_succ_iff_lt_or_eq.1 hk with hold | rfl
    · rw [List.getElem_append_left hold]
      exact h.phases k hold
    · rw [List.getElem_concat_length rfl]
      exact hx
  · rw [List.length_append, List.length_singleton] at hlow hhigh
    rcases eq_or_lt_of_le (show k ≤ xs.length + N by omega) with rfl | hlt
    · rw [Nat.add_mod_right, Function.update_self, hx]
      exact (phase_add hN _).symm
    · rw [Function.update_of_ne (mod_ne hlow hlt).symm]
      exact h.ahead k (by omega) hlt

/-- An empty list, where no slot carries the phase of the first lap. -/
theorem Phased.nil (h : ∀ k < N, phaseOf (slots k) ≠ 1) : Phased N phaseOf slots [] 0 := by
  refine ⟨fun k _ hk => absurd hk (Nat.not_lt_zero k), le_refl 0,
    fun k hk => absurd hk (Nat.not_lt_zero k), fun k _ hk => ?_⟩
  rw [List.length_nil, Nat.zero_add] at hk
  rw [Nat.mod_eq_of_lt hk, phase, Nat.div_eq_of_lt hk]
  exact h k hk

end PhaseRing
