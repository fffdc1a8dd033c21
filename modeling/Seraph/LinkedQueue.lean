import Mathlib.Data.List.Nodup
import Seraph.Loops

/-!
# Singly linked queues

`Path next head l last` : from `head` the links go through `l` to `last`. A queue is a path to the
null pointer whose last element is the tail (`Queue`). Putting an element behind it, taking the
first one off and taking one out of the middle are one or two writes (`Queue.push`, `Queue.pop`,
`Queue.remove`), and the loop that looks for the element in front of another one finds it
(`findPrev_eq`).
-/

namespace LinkedQueue

variable {α : Type*}

/-- From `head` the links go through the elements of the list to `last`. -/
def Path (next : α → Option α) : Option α → List α → Option α → Prop
  | head, [], last => head = last
  | head, a :: l, last => head = some a ∧ Path next (next a) l last

variable {next next' : α → Option α} {head tail last : Option α} {a p : α} {l l₁ l₂ : List α}

theorem path_append : Path next head (l₁ ++ l₂) last ↔
    ∃ mid, Path next head l₁ mid ∧ Path next mid l₂ last := by
  induction l₁ generalizing head with
  | nil => exact ⟨fun h => ⟨head, rfl, h⟩, fun ⟨_, h₁, h₂⟩ => h₁ ▸ h₂⟩
  | cons b l₁ ih =>
    constructor
    · rintro ⟨hhead, h⟩
      obtain ⟨mid, h₁, h₂⟩ := ih.1 h
      exact ⟨mid, ⟨hhead, h₁⟩, h₂⟩
    · rintro ⟨mid, ⟨hhead, h₁⟩, h₂⟩
      exact ⟨hhead, ih.2 ⟨mid, h₁, h₂⟩⟩

/-- A path depends on the links of its elements only. -/
theorem Path.congr (h : Path next head l last) (hnext : ∀ x ∈ l, next' x = next x) :
    Path next' head l last := by
  induction l generalizing head with
  | nil => exact h
  | cons b l ih =>
    refine ⟨h.1, ?_⟩
    rw [hnext b List.mem_cons_self]
    exact ih h.2 fun x hx => hnext x (List.mem_cons_of_mem b hx)

/-- The head of a path to the null pointer is its first element. -/
theorem Path.head_eq (h : Path next head l none) : head = l.head? := by
  cases l with
  | nil => exact h
  | cons b l => exact h.1

/-- An element is taken off the front. -/
theorem Path.tail_of_head (h : Path next (some a) l none) :
    ∃ rest, l = a :: rest ∧ Path next (next a) rest none := by
  cases l with
  | nil => cases h
  | cons b l =>
    obtain ⟨heq, h⟩ := h
    cases heq
    exact ⟨l, rfl, h⟩

/-- An element behind another one is taken out of a path. -/
theorem Path.remove (h : Path next head (l₁ ++ p :: a :: l₂) last)
    (hnodup : (l₁ ++ p :: a :: l₂).Nodup) (hprev : next' p = next a)
    (hnext : ∀ x, x ≠ p → next' x = next x) : Path next' head (l₁ ++ p :: l₂) last := by
  obtain ⟨mid, h₁, hmid, -, h₂⟩ := path_append.1 h
  obtain ⟨-, hright, hapart⟩ := List.nodup_append.1 hnodup
  obtain ⟨hp, -⟩ := List.nodup_cons.1 hright
  refine path_append.2 ⟨mid, h₁.congr fun x hx => hnext x ?_, hmid, ?_⟩
  · exact hapart x hx p List.mem_cons_self
  · rw [hprev]
    refine h₂.congr fun x hx => hnext x ?_
    rintro rfl
    exact hp (List.mem_cons_of_mem a hx)

/-- An element of a path is the first one, or stands behind another one. -/
theorem Path.first_or_behind [DecidableEq α] (h : Path next head l none) (hnodup : l.Nodup)
    (ha : a ∈ l) : (∃ rest, l = a :: rest ∧ head = some a ∧ l.erase a = rest) ∨
      ∃ l₁ p l₂, l = l₁ ++ p :: a :: l₂ ∧ head ≠ some a ∧ l.erase a = l₁ ++ p :: l₂ := by
  obtain ⟨l₁, l₂, rfl⟩ := List.append_of_mem ha
  have hnot : a ∉ l₁ := fun hmem =>
    (List.nodup_append.1 hnodup).2.2 a hmem a List.mem_cons_self rfl
  have herase : (l₁ ++ a :: l₂).erase a = l₁ ++ l₂ := by
    rw [List.erase_append_right _ hnot, List.erase_cons_head]
  rcases List.eq_nil_or_concat l₁ with rfl | ⟨l₁, p, rfl⟩
  · exact .inl ⟨l₂, rfl, h.head_eq, herase⟩
  · rw [List.concat_eq_append] at herase hnot h ⊢
    refine .inr ⟨l₁, p, l₂, List.append_assoc .., fun heq => hnot ?_, ?_⟩
    · rw [heq] at h
      cases l₁ with
      | nil =>
        cases h.1
        exact List.mem_singleton_self a
      | cons c l₁ =>
        cases h.1
        exact List.mem_cons_self
    · rw [herase]
      exact List.append_assoc ..

/-! ## The element in front of another one -/

/-- A round of the loop. -/
def prevRound [DecidableEq α] (next : α → Option α) (a : α) : Option α → Option (Option α)
  | none => none
  | some prev => if next prev = some a then none else some (next prev)

/-- The loop, from a head that is not the element itself. -/
def findPrev [DecidableEq α] (next : α → Option α) (fuel : ℕ) (head : Option α) (a : α) :
    Option α :=
  Loops.loop (prevRound next a) fuel head

section

variable [DecidableEq α] {fuel : ℕ}

theorem findPrev_of_ne (hne : next p ≠ some a) :
    findPrev next (fuel + 1) (some p) a = findPrev next fuel (next p) a :=
  Loops.loop_of_some (by rw [prevRound, if_neg hne]) fuel

/-- The loop finds the element in front. -/
theorem findPrev_eq (h : Path next head (l₁ ++ p :: a :: l₂) none)
    (hnodup : (l₁ ++ p :: a :: l₂).Nodup) (hfuel : l₁.length < fuel) :
    findPrev next fuel head a = some p := by
  induction l₁ generalizing head fuel with
  | nil =>
    obtain ⟨rfl, hp, -⟩ := h
    exact Loops.loop_of_none (by rw [prevRound, if_pos hp]) fuel
  | cons b l₁ ih =>
    obtain ⟨fuel, rfl⟩ := Nat.exists_eq_succ_of_ne_zero (Nat.ne_zero_of_lt hfuel)
    obtain ⟨rfl, h⟩ := h
    obtain ⟨hb, hnodup⟩ := List.nodup_cons.1 hnodup
    have hne : next b ≠ some a := by
      rw [h.head_eq]
      cases l₁ with
      | nil =>
        intro heq
        cases heq
        exact (List.nodup_cons.1 hnodup).1 List.mem_cons_self
      | cons c l₁ =>
        intro heq
        cases heq
        exact (List.nodup_cons.1 hnodup).1 (by simp)
    rw [findPrev_of_ne hne]
    exact ih h hnodup (Nat.lt_of_succ_lt_succ hfuel)

end

/-! ## Queues -/

/-- The queue of the elements of a list, each once. -/
structure Queue (next : α → Option α) (head tail : Option α) (l : List α) : Prop where
  path : Path next head l none
  tail_eq : tail = l.getLast?
  nodup : l.Nodup

namespace Queue

theorem empty (next : α → Option α) : Queue next none none [] :=
  ⟨rfl, rfl, List.nodup_nil⟩

theorem congr (h : Queue next head tail l) (hnext : ∀ x ∈ l, next' x = next x) :
    Queue next' head tail l :=
  ⟨h.path.congr hnext, h.tail_eq, h.nodup⟩

theorem tail_eq_none (h : Queue next head tail l) : tail = none ↔ l = [] := by
  rw [h.tail_eq, List.getLast?_eq_none_iff]

/-- An element is put behind a queue that has none. -/
theorem push_empty (h : Queue next head none l) (ha : next' a = none) :
    Queue next' (some a) (some a) (l ++ [a]) := by
  obtain rfl := h.tail_eq_none.1 rfl
  exact ⟨⟨rfl, ha⟩, rfl, List.nodup_singleton a⟩

/-- An element is put behind a queue. -/
theorem push (h : Queue next head (some p) l) (ha : a ∉ l) (hnew : next' a = none)
    (hlast : next' p = some a) (hnext : ∀ x ∈ l, x ≠ p → next' x = next x) :
    Queue next' head (some a) (l ++ [a]) := by
  obtain ⟨l, rfl⟩ := List.getLast?_eq_some_iff.1 h.tail_eq.symm
  have hnodup := h.nodup
  have hp : p ∉ l := fun hmem =>
    (List.nodup_append.1 hnodup).2.2 p hmem p (List.mem_singleton_self p) rfl
  obtain ⟨mid, h₁, hmid, -⟩ := path_append.1 h.path
  have hpath : Path next' head l mid := h₁.congr fun x hx =>
    hnext x (List.mem_append_left _ hx) fun heq => hp (heq ▸ hx)
  refine ⟨path_append.2 ⟨some a, path_append.2 ⟨mid, hpath, hmid, hlast⟩, rfl, hnew⟩, ?_, ?_⟩
  · rw [List.getLast?_append]
    rfl
  · refine List.nodup_append.2 ⟨hnodup, List.nodup_singleton a, fun x hx y hy heq => ha ?_⟩
    rwa [← List.mem_singleton.1 hy, ← heq]

/-- The first element is taken off. -/
theorem pop (h : Queue next (some a) tail l) (hnext : ∀ x, x ≠ a → next' x = next x) :
    ∃ rest, l = a :: rest ∧ a ∉ rest ∧
      Queue next' (next a) (if next a = none then none else tail) rest := by
  obtain ⟨rest, rfl, hrest⟩ := h.path.tail_of_head
  obtain ⟨ha, hnodup⟩ := List.nodup_cons.1 h.nodup
  refine ⟨rest, rfl, ha, hrest.congr fun x hx => hnext x fun heq => ha (heq ▸ hx), ?_, hnodup⟩
  rw [hrest.head_eq, h.tail_eq]
  cases rest with
  | nil => rfl
  | cons b rest => rfl

/-- An element is taken out of the middle. -/
theorem remove [DecidableEq α] (h : Queue next head tail (l₁ ++ p :: a :: l₂))
    (hprev : next' p = next a) (hnext : ∀ x, x ≠ p → next' x = next x) :
    Queue next' head (if tail = some a then some p else tail) (l₁ ++ p :: l₂) := by
  have hnodup := h.nodup
  refine ⟨h.path.remove hnodup hprev hnext, ?_, ?_⟩
  · rw [h.tail_eq]
    cases l₂ with
    | nil => simp
    | cons b l₂ =>
      have hlong : (l₁ ++ p :: a :: b :: l₂).getLast? = (b :: l₂).getLast? := by
        rw [List.getLast?_append, List.getLast?_cons_cons, List.getLast?_cons_cons,
          List.getLast?_cons, Option.some_or]
      have hshort : (l₁ ++ p :: b :: l₂).getLast? = (b :: l₂).getLast? := by
        rw [List.getLast?_append, List.getLast?_cons_cons, List.getLast?_cons, Option.some_or]
      have ha : a ∉ b :: l₂ :=
        (List.nodup_cons.1 (List.nodup_cons.1 (List.nodup_append.1 hnodup).2.1).2).1
      rw [hlong, hshort, if_neg fun heq => ha (List.mem_of_getLast? heq)]
  · exact hnodup.sublist (List.Sublist.append_left
      (List.Sublist.cons_cons p (List.sublist_cons_self a l₂)) l₁)

end Queue

end LinkedQueue
