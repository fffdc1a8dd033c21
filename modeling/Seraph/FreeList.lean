import Mathlib.Data.List.Nodup

/-!
# Free lists threaded through a table

A table keeps its free slots in a linked list : each free slot holds the next one, and the
last one holds an end mark. `Chain` follows the links from a head, and `Threads` says that
the list found in this way has no cycle. Taking the head (`Threads.pop`) and putting a slot
back in front (`Threads.push`) keep it, and so does a change of the table that moves no link
of the list (`Threads.congr`).
-/

namespace FreeList

variable {α : Type*}

/-- From `head`, the links go through `slots` and then reach the end mark. -/
def Chain (next : α → α) (last : α) : α → List α → Prop
  | head, [] => head = last
  | head, slot :: slots => head = slot ∧ Chain next last (next slot) slots

/-- A chain depends on the links of its slots only. -/
theorem Chain.congr {next next' : α → α} {last : α} :
    ∀ {head : α} {slots : List α}, Chain next last head slots →
      (∀ a ∈ slots, next' a = next a) → Chain next' last head slots
  | _, [], h, _ => h
  | _, slot :: _, h, hnext => by
    refine ⟨h.1, ?_⟩
    rw [hnext slot List.mem_cons_self]
    exact h.2.congr fun a ha => hnext a (List.mem_cons_of_mem _ ha)

/-- The slots are those of a chain without repetition. -/
structure Threads (next : α → α) (last head : α) (slots : List α) : Prop where
  chain : Chain next last head slots
  nodup : slots.Nodup

namespace Threads

variable {next next' : α → α} {last head slot : α} {slots : List α}

theorem congr (h : Threads next last head slots) (hnext : ∀ a ∈ slots, next' a = next a) :
    Threads next' last head slots :=
  ⟨h.chain.congr hnext, h.nodup⟩

/-- The list is empty where the head is the end mark, if that is no slot of the list. -/
theorem eq_nil_iff (h : Threads next last head slots) (hlast : last ∉ slots) :
    slots = [] ↔ head = last := by
  cases slots with
  | nil => exact ⟨fun _ => h.chain, fun _ => rfl⟩
  | cons slot slots =>
    refine ⟨fun hnil => (List.cons_ne_nil _ _ hnil).elim, fun hhead => (hlast ?_).elim⟩
    rw [← hhead, h.chain.1]
    exact List.mem_cons_self

/-- The head is in the list, unless it is the end mark. -/
theorem head_mem (h : Threads next last head slots) (hhead : head ≠ last) : head ∈ slots := by
  cases slots with
  | nil => exact (hhead h.chain).elim
  | cons slot slots =>
    rw [h.chain.1]
    exact List.mem_cons_self

/-- Taking the head off the list. -/
theorem pop (next' : α → α) (h : Threads next last head slots) (hhead : head ≠ last)
    (hnext : ∀ a, a ≠ head → next' a = next a) :
    ∃ rest, slots = head :: rest ∧ head ∉ rest ∧ Threads next' last (next head) rest := by
  cases slots with
  | nil => exact (hhead h.chain).elim
  | cons slot rest =>
    obtain ⟨rfl, hchain⟩ := h.chain
    obtain ⟨hslot, hrest⟩ := List.nodup_cons.1 h.nodup
    refine ⟨rest, rfl, hslot, hchain.congr fun a ha => hnext a ?_, hrest⟩
    rintro rfl
    exact hslot ha

/-- Putting a slot in front of the list. -/
theorem push (next' : α → α) (h : Threads next last head slots) (hslot : slot ∉ slots)
    (hhead : next' slot = head) (hnext : ∀ a, a ≠ slot → next' a = next a) :
    Threads next' last slot (slot :: slots) := by
  refine ⟨⟨rfl, ?_⟩, List.nodup_cons.2 ⟨hslot, h.nodup⟩⟩
  rw [hhead]
  refine h.chain.congr fun a ha => hnext a ?_
  rintro rfl
  exact hslot ha

end Threads

end FreeList
