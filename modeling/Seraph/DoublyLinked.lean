import Mathlib.Data.List.Nodup
import Mathlib.Logic.Function.Basic

/-!
# Doubly linked lists

`Linked next prev a l b` : from `a` the links go through `l` to `b`, and back. A list whose ends
are marked by a node `s` that is no element (a null pointer, a list head) is a ring through `s`
(`Ring`) : `next s` is its first element and `prev s` its last. In this form unlinking an element
is one write in each direction, `unlink`, also at the ends, and putting one in front is `push`.
-/

namespace DoublyLinked

variable {α : Type*}

/-- From `a` the links go through the elements of the list to `b`, and back. -/
def Linked (next prev : α → α) : α → List α → α → Prop
  | a, [], b => next a = b ∧ prev b = a
  | a, c :: l, b => (next a = c ∧ prev c = a) ∧ Linked next prev c l b

variable {next prev next' prev' : α → α} {a b c s : α} {l l₁ l₂ : List α}

theorem linked_append : Linked next prev a (l₁ ++ c :: l₂) b ↔
    Linked next prev a l₁ c ∧ Linked next prev c l₂ b := by
  induction l₁ generalizing a with
  | nil => rfl
  | cons d l₁ ih => simp only [List.cons_append, Linked, ih, and_assoc]

/-- The links of the other nodes do not matter. -/
theorem Linked.congr (h : Linked next prev a l b) (hnext : ∀ x ∈ a :: l, next' x = next x)
    (hprev : ∀ x ∈ l ++ [b], prev' x = prev x) : Linked next' prev' a l b := by
  induction l generalizing a with
  | nil =>
    exact ⟨(hnext a List.mem_cons_self).trans h.1, (hprev b (List.mem_singleton_self b)).trans h.2⟩
  | cons c l ih =>
    refine ⟨⟨(hnext a List.mem_cons_self).trans h.1.1,
      (hprev c List.mem_cons_self).trans h.1.2⟩, ih h.2 (fun x hx => ?_) (fun x hx => ?_)⟩
    · exact hnext x (List.mem_cons_of_mem _ hx)
    · exact hprev x (List.mem_cons_of_mem _ hx)

/-- The list in the other direction. -/
theorem Linked.reverse (h : Linked next prev a l b) : Linked prev next b l.reverse a := by
  induction l generalizing a with
  | nil => exact ⟨h.2, h.1⟩
  | cons c l ih =>
    rw [List.reverse_cons, linked_append]
    exact ⟨ih h.2, h.1.2, h.1.1⟩

theorem Linked.prev_mem (h : Linked next prev a l b) : prev b ∈ a :: l := by
  induction l generalizing a with
  | nil =>
    rw [h.2]
    exact List.mem_cons_self
  | cons c l ih => exact List.mem_cons_of_mem _ (ih h.2)

/-- The links lead back. -/
theorem Linked.prev_next (h : Linked next prev a l b) {x : α} (hx : x ∈ a :: l) :
    prev (next x) = x := by
  induction l generalizing a with
  | nil =>
    rw [List.mem_singleton.1 hx, h.1]
    exact h.2
  | cons c l ih =>
    rcases List.mem_cons.1 hx with rfl | hx
    · rw [h.1.1]
      exact h.1.2
    · exact ih h.2 hx

/-! ## Rings -/

/-- The elements of `l` form a ring with `s`, each once. -/
structure Ring (next prev : α → α) (s : α) (l : List α) : Prop where
  linked : Linked next prev s l s
  nodup : (s :: l).Nodup

namespace Ring

theorem congr (h : Ring next prev s l) (hnext : ∀ x ∈ s :: l, next' x = next x)
    (hprev : ∀ x ∈ s :: l, prev' x = prev x) : Ring next' prev' s l :=
  ⟨h.linked.congr hnext fun x hx => hprev x (by simpa [or_comm] using hx), h.nodup⟩

theorem empty (hnext : next s = s) (hprev : prev s = s) : Ring next prev s [] :=
  ⟨⟨hnext, hprev⟩, List.nodup_singleton s⟩

/-- The ring is empty where its first element is the mark. -/
theorem eq_nil_iff (h : Ring next prev s l) : l = [] ↔ next s = s := by
  cases l with
  | nil => exact iff_of_true rfl h.linked.1
  | cons a l =>
    refine iff_of_false (List.cons_ne_nil a l) fun heq => ?_
    have hs := (List.nodup_cons.1 h.nodup).1
    rw [← h.linked.1.1, heq] at hs
    exact hs List.mem_cons_self

/-- The neighbours of an element are in the ring. -/
theorem neighbours (h : Ring next prev s l) (ha : a ∈ l) : next a ∈ s :: l ∧ prev a ∈ s :: l := by
  obtain ⟨l₁, l₂, rfl⟩ := List.append_of_mem ha
  obtain ⟨h1, h2⟩ := linked_append.1 h.linked
  have hprev := h1.prev_mem
  have hnext := h2.reverse.prev_mem
  simp only [List.mem_cons, List.mem_append, List.mem_reverse] at hprev hnext ⊢
  tauto

theorem erase_middle [DecidableEq α] (h : (l₁ ++ a :: l₂).Nodup) :
    (l₁ ++ a :: l₂).erase a = l₁ ++ l₂ := by
  have hnot : a ∉ l₁ := fun hmem => List.disjoint_of_nodup_append h hmem List.mem_cons_self
  rw [List.erase_append_right _ hnot, List.erase_cons_head]

theorem nodup_front (h : (s :: (l₁ ++ a :: l₂)).Nodup) : (a :: (s :: l₁ ++ l₂)).Nodup := by
  have hperm : ((s :: l₁) ++ a :: l₂).Perm (a :: (s :: l₁ ++ l₂)) := List.perm_middle
  exact hperm.nodup_iff.1 h

/-- An element is not its own neighbour. -/
theorem neighbours_ne (h : Ring next prev s l) (ha : a ∈ l) : next a ≠ a ∧ prev a ≠ a := by
  obtain ⟨l₁, l₂, rfl⟩ := List.append_of_mem ha
  obtain ⟨h1, h2⟩ := linked_append.1 h.linked
  have hnot : a ∉ s :: l₁ ++ l₂ := (List.nodup_cons.1 (nodup_front h.nodup)).1
  refine ⟨fun heq => hnot ?_, fun heq => hnot ?_⟩
  · have hmem := h2.reverse.prev_mem
    rw [heq] at hmem
    simp only [List.cons_append, List.mem_cons, List.mem_append, List.mem_reverse] at hmem ⊢
    tauto
  · have hmem := h1.prev_mem
    rw [heq] at hmem
    exact List.mem_append_left _ hmem

/-- The element in front is the one whose predecessor is the mark. -/
theorem next_eq_iff (h : Ring next prev s l) (ha : a ∈ l) : next s = a ↔ prev a = s := by
  obtain ⟨l₁, l₂, rfl⟩ := List.append_of_mem ha
  obtain ⟨h1, -⟩ := linked_append.1 h.linked
  cases l₁ with
  | nil => exact iff_of_true h1.1 h1.2
  | cons c l₁ =>
    obtain ⟨hs, hnodup⟩ := List.nodup_cons.1 h.nodup
    refine iff_of_false (fun heq => ?_) fun heq => hs ?_
    · rw [h1.1.1] at heq
      exact (List.nodup_cons.1 hnodup).1 (heq ▸ List.mem_append_right _ List.mem_cons_self)
    · have hmem := h1.2.prev_mem
      rw [heq] at hmem
      exact List.mem_append_left _ hmem

/-- The ring in the other direction. -/
theorem reverse (h : Ring next prev s l) : Ring prev next s l.reverse := by
  refine ⟨h.linked.reverse, ?_⟩
  rw [List.nodup_cons, List.mem_reverse, List.nodup_reverse]
  exact List.nodup_cons.1 h.nodup

/-- The ends of a ring are in it. -/
theorem ends_mem (h : Ring next prev s l) : next s ∈ s :: l ∧ prev s ∈ s :: l := by
  have hnext := h.linked.reverse.prev_mem
  rw [List.mem_cons, List.mem_reverse, ← List.mem_cons] at hnext
  exact ⟨hnext, h.linked.prev_mem⟩

/-- The links of a ring lead back, in both directions. -/
theorem leads_back (h : Ring next prev s l) {x : α} (hx : x ∈ s :: l) :
    prev (next x) = x ∧ next (prev x) = x := by
  refine ⟨h.linked.prev_next hx, h.reverse.linked.prev_next ?_⟩
  rwa [List.mem_cons, List.mem_reverse, ← List.mem_cons]

/-- The element at the end is the one whose successor is the mark. -/
theorem prev_eq_iff (h : Ring next prev s l) (ha : a ∈ l) : prev s = a ↔ next a = s :=
  h.reverse.next_eq_iff (List.mem_reverse.2 ha)

end Ring

/-! ## Unlinking and linking in -/

variable [DecidableEq α]

/-- Join the neighbours of `a`. -/
def unlink (links : (α → α) × (α → α)) (a : α) : (α → α) × (α → α) :=
  (Function.update links.1 (links.2 a) (links.1 a),
    Function.update links.2 (links.1 a) (links.2 a))

/-- Put `a` in front of the ring through `s`. -/
def push (links : (α → α) × (α → α)) (s a : α) : (α → α) × (α → α) :=
  (Function.update (Function.update links.1 a (links.1 s)) s a,
    Function.update (Function.update links.2 a s) (links.1 s) a)

/-- Linking in changes the links of the new element, of the mark and of the first element. -/
theorem push_other {x : α} (hs : x ≠ s) (ha : x ≠ a) (hfirst : x ≠ next s) :
    (push (next, prev) s a).1 x = next x ∧ (push (next, prev) s a).2 x = prev x := by
  simp only [push, Function.update_of_ne hs, Function.update_of_ne ha,
    Function.update_of_ne hfirst, and_self]

/-- The end of the list is joined to another node. -/
theorem Linked.retarget (h : Linked next prev a l c) (hnodup : (a :: l).Nodup) {n : α}
    (hn : n ∉ l) :
    Linked (Function.update next (prev c) n) (Function.update prev n (prev c)) a l n := by
  induction l generalizing a with
  | nil =>
    obtain ⟨-, hprev⟩ := h
    exact ⟨by rw [hprev, Function.update_self], by rw [Function.update_self, hprev]⟩
  | cons d l ih =>
    obtain ⟨ha, hl⟩ := List.nodup_cons.1 hnodup
    have hne : a ≠ prev c := fun heq => ha (heq ▸ h.2.prev_mem)
    have hd : d ≠ n := fun heq => hn (heq ▸ List.mem_cons_self)
    refine ⟨⟨?_, ?_⟩, ih h.2 hl fun hmem => hn (List.mem_cons_of_mem _ hmem)⟩
    · rw [Function.update_of_ne hne, h.1.1]
    · rw [Function.update_of_ne hd, h.1.2]

namespace Ring

/-- Unlinking an element of a ring. -/
theorem unlink_append (h : Ring next prev s (l₁ ++ a :: l₂)) :
    Ring (unlink (next, prev) a).1 (unlink (next, prev) a).2 s (l₁ ++ l₂) := by
  obtain ⟨h1, h2⟩ := linked_append.1 h.linked
  obtain ⟨hnot, hrest⟩ := List.nodup_cons.1 (nodup_front h.nodup)
  have hfirst : (s :: l₁).Nodup := hrest.of_append_left
  refine ⟨?_, hrest⟩
  -- the part up to `a` is joined to the element behind it, and the rest does not change
  cases l₂ with
  | nil =>
    obtain ⟨hnext, -⟩ := h2
    simp only [DoublyLinked.unlink, hnext, List.append_nil]
    exact h1.retarget hfirst (List.nodup_cons.1 hfirst).1
  | cons n l₂ =>
    obtain ⟨⟨hnext, -⟩, h3⟩ := h2
    have hdisj := List.disjoint_of_nodup_append hrest
    simp only [DoublyLinked.unlink, hnext]
    refine linked_append.2 ⟨h1.retarget hfirst fun hmem => ?_, h3.congr ?_ ?_⟩
    · exact hdisj (List.mem_cons_of_mem _ hmem) List.mem_cons_self
    · intro x hx
      exact Function.update_of_ne (fun heq => hdisj (heq ▸ h1.prev_mem) hx) _ _
    · intro x hx
      refine Function.update_of_ne ?_ _ _
      rintro rfl
      rcases List.mem_append.1 hx with hx | hx
      · exact (List.nodup_cons.1 hrest.of_append_right).1 hx
      · rw [List.mem_singleton.1 hx] at hdisj
        exact hdisj List.mem_cons_self List.mem_cons_self

theorem unlink (h : Ring next prev s l) (ha : a ∈ l) :
    Ring (unlink (next, prev) a).1 (unlink (next, prev) a).2 s (l.erase a) := by
  have hl := (List.nodup_cons.1 h.nodup).2
  obtain ⟨l₁, l₂, rfl⟩ := List.append_of_mem ha
  rw [erase_middle hl]
  exact h.unlink_append

theorem push (h : Ring next prev s l) (ha : a ∉ s :: l) :
    Ring (push (next, prev) s a).1 (push (next, prev) s a).2 s (a :: l) := by
  obtain ⟨hs, hl⟩ := List.nodup_cons.1 h.nodup
  have has : a ≠ s := fun heq => ha (heq ▸ List.mem_cons_self)
  have hal : a ∉ l := fun hmem => ha (List.mem_cons_of_mem _ hmem)
  have hnodup : (s :: a :: l).Nodup := by
    refine List.nodup_cons.2 ⟨fun hmem => ?_, List.nodup_cons.2 ⟨hal, hl⟩⟩
    exact (List.mem_cons.1 hmem).elim (fun heq => has heq.symm) hs
  refine ⟨⟨⟨Function.update_self _ _ _, ?_⟩, ?_⟩, hnodup⟩ <;> simp only [DoublyLinked.push]
  · cases l with
    | nil => rw [h.linked.1, Function.update_of_ne has, Function.update_self]
    | cons c l =>
      have hac : a ≠ c := fun heq => hal (heq ▸ List.mem_cons_self)
      rw [h.linked.1.1, Function.update_of_ne hac, Function.update_self]
  · cases l with
    | nil =>
      refine ⟨?_, ?_⟩
      · rw [Function.update_of_ne has, Function.update_self, h.linked.1]
      · rw [h.linked.1, Function.update_self]
    | cons c l =>
      obtain ⟨⟨hnext, -⟩, hrest⟩ := h.linked
      refine ⟨⟨?_, ?_⟩, hrest.congr (fun x hx => ?_) (fun x hx => ?_)⟩
      · rw [Function.update_of_ne has, Function.update_self, hnext]
      · rw [hnext, Function.update_self]
      · have hxs : x ≠ s := fun heq => hs (heq ▸ hx)
        have hxa : x ≠ a := fun heq => hal (heq ▸ hx)
        rw [Function.update_of_ne hxs, Function.update_of_ne hxa]
      · have hmem : x ∈ l ∨ x = s := by simpa using hx
        have hxc : x ≠ c := by
          rintro rfl
          exact hmem.elim (List.nodup_cons.1 hl).1 fun heq => hs (heq ▸ List.mem_cons_self)
        have hxa : x ≠ a := by
          rintro rfl
          exact hmem.elim (fun h => hal (List.mem_cons_of_mem _ h)) has
        rw [hnext, Function.update_of_ne hxc, Function.update_of_ne hxa]

end Ring

end DoublyLinked
