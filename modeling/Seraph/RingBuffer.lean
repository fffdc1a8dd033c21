import Mathlib.Data.Fin.Basic
import Mathlib.Data.List.Basic
import Mathlib.Data.Nat.ModEq
import Mathlib.Data.Nat.Notation
import Mathlib.Logic.Function.Basic

/-!
# Ring buffers with free-running counters

A ring has `N` slots and two counters, `head` where the next element goes and `tail` where the
oldest one is. The counters are reduced modulo `W`, a multiple of `N`, and a slot is found by
reducing a counter modulo `N`. A ring that holds a list (`Holds`) has it in the slots from
`tail` on, and at most `N - 1` elements, so that the difference of the counters modulo `N` is
its length (`Holds.depth`), also when a counter has wrapped.

Pushing appends to the list (`Holds.push`) and advancing the tail drops from it
(`Holds.advance`).
-/

namespace RingBuffer

/-- Slots, and the counters for writing and reading. -/
structure Buffer (α : Type*) (N : ℕ) where
  /-- The elements, by counter modulo `N`. -/
  slots : Fin N → α
  /-- Where the next element goes. -/
  head : ℕ
  /-- Where the oldest element is. -/
  tail : ℕ

namespace Buffer

variable {α : Type*} {N : ℕ} [NeZero N]

/-- The slot of a counter. -/
def slot (N : ℕ) [NeZero N] (i : ℕ) : Fin N :=
  Fin.ofNat N i

/-- Number of elements, as the counters give it. -/
def depth (W : ℕ) (r : Buffer α N) : ℕ :=
  (r.head + W - r.tail) % W % N

/-- The elements, oldest first. -/
def contents (W : ℕ) (r : Buffer α N) : List α :=
  (List.range (r.depth W)).map fun i => r.slots (slot N (r.tail + i))

/-- Write the next element. -/
def push (W : ℕ) (r : Buffer α N) (a : α) : Buffer α N where
  slots := Function.update r.slots (slot N r.head) a
  head := (r.head + 1) % W
  tail := r.tail

/-- The oldest element. -/
def front (r : Buffer α N) : α :=
  r.slots (slot N r.tail)

/-- Forget the `n` oldest elements. -/
def advance (W : ℕ) (r : Buffer α N) (n : ℕ) : Buffer α N where
  slots := r.slots
  head := r.head
  tail := (r.tail + n) % W

/-- The ring holds the elements of a list, oldest first. -/
structure Holds (W : ℕ) (r : Buffer α N) (xs : List α) : Prop where
  tail : r.tail < W
  head : r.head = (r.tail + xs.length) % W
  room : xs.length < N
  slots : ∀ i, ∀ hi : i < xs.length, r.slots (slot N (r.tail + i)) = xs[i]

variable {W : ℕ}

theorem slot_eq_slot {i j : ℕ} : slot N i = slot N j ↔ i % N = j % N := by
  rw [slot, slot, Fin.ext_iff, Fin.val_ofNat, Fin.val_ofNat]

/-- The slot of a counter is that of the counter before it was reduced. -/
theorem slot_mod (hNW : N ∣ W) (i : ℕ) : slot N (i % W) = slot N i :=
  slot_eq_slot.2 (Nat.mod_mod_of_dvd i hNW)

/-- Slots less than `N` apart are different. -/
theorem slot_ne {t i j : ℕ} (hij : i < j) (hj : j < N) : slot N (t + i) ≠ slot N (t + j) := by
  rw [Ne, slot_eq_slot]
  intro h
  have hmod : i % N = j % N := Nat.ModEq.add_left_cancel' t h
  rw [Nat.mod_eq_of_lt (hij.trans hj), Nat.mod_eq_of_lt hj] at hmod
  exact hij.ne hmod

namespace Holds

variable {r : Buffer α N} {xs : List α}

/-- A ring whose counters agree holds nothing. -/
theorem nil (h : r.tail < W) (heq : r.head = r.tail) : Holds W r [] where
  tail := h
  head := by rw [heq, List.length_nil, Nat.add_zero, Nat.mod_eq_of_lt h]
  room := Nat.pos_of_neZero N
  slots := fun i hi => absurd hi (Nat.not_lt_zero i)

/-- The difference of the counters is the length of the list. -/
theorem head_sub_tail (h : Holds W r xs) (hNW : N ∣ W) : (r.head + W - r.tail) % W = xs.length := by
  have hle : N ≤ W := Nat.le_of_dvd ((Nat.zero_le _).trans_lt h.tail) hNW
  have hroom := h.room
  have htail := h.tail
  have hlt : xs.length < W := hroom.trans_le hle
  rw [h.head]
  rcases Nat.lt_or_ge (r.tail + xs.length) W with hw | hw
  · rw [Nat.mod_eq_of_lt hw, show r.tail + xs.length + W - r.tail = xs.length + W by omega,
      Nat.add_mod_right, Nat.mod_eq_of_lt hlt]
  · have hmod : (r.tail + xs.length) % W = r.tail + xs.length - W := by
      rw [Nat.mod_eq_sub_mod hw, Nat.mod_eq_of_lt (by omega)]
    rw [hmod, show r.tail + xs.length - W + W - r.tail = xs.length by omega,
      Nat.mod_eq_of_lt hlt]

/-- The counters give the length of the list. -/
theorem depth (h : Holds W r xs) (hNW : N ∣ W) : r.depth W = xs.length := by
  rw [Buffer.depth, h.head_sub_tail hNW, Nat.mod_eq_of_lt h.room]

/-- A ring holds one list. -/
theorem contents (h : Holds W r xs) (hNW : N ∣ W) : r.contents W = xs := by
  rw [Buffer.contents, h.depth hNW]
  refine List.ext_getElem (by simp) fun i hi hi' => ?_
  simp only [List.getElem_map, List.getElem_range]
  exact h.slots i hi'

/-- The counters agree when the ring is empty. -/
theorem head_eq_tail_iff (h : Holds W r xs) (hNW : N ∣ W) : r.head = r.tail ↔ xs = [] := by
  constructor
  · intro heq
    have hd := h.depth hNW
    rw [Buffer.depth, heq, Nat.add_sub_cancel_left, Nat.mod_self, Nat.zero_mod] at hd
    exact List.eq_nil_of_length_eq_zero hd.symm
  · rintro rfl
    rw [h.head, List.length_nil, Nat.add_zero, Nat.mod_eq_of_lt h.tail]

theorem front {x : α} (h : Holds W r (x :: xs)) : r.front = x :=
  h.slots 0 (Nat.zero_lt_succ _)

/-- Writing appends an element where there is room. -/
theorem push (h : Holds W r xs) (hNW : N ∣ W) (hroom : xs.length + 1 < N) (a : α) :
    Holds W (r.push W a) (xs ++ [a]) where
  tail := h.tail
  head := by
    rw [Buffer.push, h.head, Nat.mod_add_mod, List.length_append, List.length_singleton,
      Nat.add_assoc]
  room := by rwa [List.length_append, List.length_singleton]
  slots := fun i hi => by
    have hhead : slot N r.head = slot N (r.tail + xs.length) := by
      rw [h.head, slot_mod hNW]
    rw [List.length_append, List.length_singleton] at hi
    simp only [Buffer.push, hhead]
    rcases Nat.lt_succ_iff_lt_or_eq.1 hi with hlt | rfl
    · rw [Function.update_of_ne (slot_ne hlt h.room), List.getElem_append_left hlt]
      exact h.slots i hlt
    · rw [Function.update_self, List.getElem_append_right (le_refl _)]
      simp

/-- Moving the tail drops the oldest elements. -/
theorem advance (h : Holds W r xs) (hNW : N ∣ W) {n : ℕ} (hn : n ≤ xs.length) :
    Holds W (r.advance W n) (xs.drop n) where
  tail := Nat.mod_lt _ ((Nat.zero_le _).trans_lt h.tail)
  head := by
    rw [Buffer.advance, h.head, Nat.mod_add_mod, List.length_drop, Nat.add_assoc,
      Nat.add_sub_cancel' hn]
  room := by
    rw [List.length_drop]
    exact (Nat.sub_le _ _).trans_lt h.room
  slots := fun i hi => by
    rw [List.length_drop] at hi
    have hslot : slot N ((r.tail + n) % W + i) = slot N (r.tail + (n + i)) := by
      rw [slot_eq_slot, Nat.add_mod, Nat.mod_mod_of_dvd _ hNW, ← Nat.add_mod, Nat.add_assoc]
    rw [List.getElem_drop, ← h.slots (n + i) (by omega)]
    exact congrArg r.slots hslot

end Holds

end Buffer

end RingBuffer
