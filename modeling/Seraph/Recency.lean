import Mathlib.Data.List.Induction
import Mathlib.Data.List.Nodup

/-!
# Lists by recency

A store that gives up what was used longest ago, as the list of its items, the one used last in
front. Items are told apart by a key, and no two have the same (`Distinct`). An item that is used
comes to the front (`use`), an item that goes is taken out (`drop`), and before a new item comes to
the front of a full list, its last one goes (`room`).
-/

namespace Recency

variable {α κ : Type*} [DecidableEq κ] (key : α → κ)

/-- No two items have the same key. -/
def Distinct (l : List α) : Prop :=
  (l.map key).Nodup

/-- The item with this key. -/
def find (k : κ) (l : List α) : Option α :=
  l.find? fun a => key a = k

/-- The item with this key goes. -/
def drop (k : κ) (l : List α) : List α :=
  l.filter fun a => key a ≠ k

/-- The item with this key comes to the front. -/
def use (k : κ) (l : List α) : List α :=
  match find key k l with
  | some a => a :: drop key k l
  | none => l

/-- There is room for one more : the last item of a full list goes. -/
def room (bound : ℕ) (l : List α) : List α :=
  l.take (bound - 1)

variable {key} {k k' : κ} {a b : α} {l l₁ l₂ : List α} {bound : ℕ}

/-! ## Finding -/

theorem find_eq_none : find key k l = none ↔ ∀ a ∈ l, key a ≠ k := by
  simp [find]

theorem mem_of_find (h : find key k l = some a) : a ∈ l ∧ key a = k :=
  ⟨List.mem_of_find?_eq_some h, by simpa using List.find?_some h⟩

/-- The only item with its key is the one that is found. -/
theorem find_of_mem (h : Distinct key l) (ha : a ∈ l) : find key (key a) l = some a := by
  cases hfind : find key (key a) l with
  | none => exact absurd rfl (find_eq_none.1 hfind a ha)
  | some b =>
    obtain ⟨hb, hkey⟩ := mem_of_find hfind
    rw [List.inj_on_of_nodup_map h hb ha hkey]

/-! ## Items that go -/

theorem mem_drop : a ∈ drop key k l ↔ a ∈ l ∧ key a ≠ k := by
  simp [drop]

theorem drop_of_none (h : find key k l = none) : drop key k l = l :=
  List.filter_eq_self.2 fun a ha => by simpa using find_eq_none.1 h a ha

theorem Distinct.drop (h : Distinct key l) : Distinct key (drop key k l) :=
  List.Nodup.sublist ((List.filter_sublist).map key) h

/-- What goes with a key is the one item that has it. -/
theorem drop_append (h : Distinct key (l₁ ++ a :: l₂)) :
    drop key (key a) (l₁ ++ a :: l₂) = l₁ ++ l₂ := by
  rw [Distinct, List.map_append, List.map_cons] at h
  have hmiddle := List.nodup_middle.1 h
  have hnot := (List.nodup_cons.1 hmiddle).1
  rw [drop, List.filter_append, List.filter_cons_of_neg (by simp), List.filter_eq_self.2,
    List.filter_eq_self.2]
  · intro b hb
    have hne : key b ≠ key a := fun heq =>
      hnot (List.mem_append_right _ (heq ▸ List.mem_map_of_mem hb))
    simpa using hne
  · intro b hb
    have hne : key b ≠ key a := fun heq =>
      hnot (List.mem_append_left _ (heq ▸ List.mem_map_of_mem hb))
    simpa using hne

/-! ## Items that come to the front -/

theorem use_of_find (h : find key k l = some a) : use key k l = a :: drop key k l := by
  rw [use, h]

theorem use_of_none (h : find key k l = none) : use key k l = l := by
  rw [use, h]

theorem Distinct.cons (h : Distinct key l) (ha : find key (key a) l = none) :
    Distinct key (a :: l) := by
  refine List.nodup_cons.2 ⟨fun hmem => ?_, h⟩
  obtain ⟨b, hb, heq⟩ := List.mem_map.1 hmem
  exact find_eq_none.1 ha b hb heq

/-! ## Room -/

theorem room_of_lt (h : l.length < bound) : room bound l = l :=
  List.take_of_length_le (by omega)

/-- A full list gives up its last item. -/
theorem room_append (h : (l ++ [a]).length = bound) : room bound (l ++ [a]) = l := by
  rw [List.length_append, List.length_singleton] at h
  rw [room, ← h, Nat.add_sub_cancel, List.take_left]

end Recency
