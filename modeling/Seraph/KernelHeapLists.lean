import Seraph.DoublyLinked
import Seraph.KernelHeap

/-!
# The slab lists of the kernel heap

The slabs of a list are linked through their headers, and the list's head is in the cache of its
size class. With the null pointer as the mark this is a ring (`SlabList`), where the last slab
is the predecessor of the mark. `slab_update_list` takes a slab out of the list it is in, without
knowing which, and puts it in front of the one it belongs to (`slabUpdateList_spec`).
-/

namespace Seraph

open ByteMem Memory DoublyLinked

/-- The successor of a slab, or of the mark, in the list from `head`. -/
def slabNext (m : Memory) (head x : ℕ) : ℕ :=
  if x = 0 then head else m.get x SlabHeader.next

/-- The predecessor of a slab, or of the mark, in the list that ends with `tail`. -/
def slabPrev (m : Memory) (tail x : ℕ) : ℕ :=
  if x = 0 then tail else m.get x SlabHeader.prev

/-- From `head` the links go through the slabs of the list, and back. -/
def SlabList (m : Memory) (head : ℕ) (slabs : List ℕ) : Prop :=
  ∃ tail, Ring (slabNext m head) (slabPrev m tail) 0 slabs

/-- The words that lists use in the headers of slabs. -/
def linkWords (slabs : List ℕ) : List Region :=
  slabs.map fun b => ⟨b, 16⟩

/-- Slabs that begin pages of 64-bit addresses. -/
def SlabPages (slabs : List ℕ) : Prop :=
  ∀ b ∈ slabs, b % 4096 = 0 ∧ b < 2 ^ 64

variable {m m' : Memory} {head b : ℕ} {slabs : List ℕ}

/-- The headers of two slabs are apart. -/
theorem get_set_slab {x y : ℕ} (hx : x % 4096 = 0) (hy : y % 4096 = 0) (hne : y ≠ x)
    {f g : StructField} (hf : f.Inside 4096) (hg : g.Inside 4096) (v : ℕ) :
    (m.set x f v).get y g = m.get y g := by
  refine load_store_of_disjoint m ?_
  unfold StructField.Inside at hf hg
  omega

/-- What a link reads after a link of a slab is written. -/
theorem get_set_next {x y : ℕ} (hx : x % 4096 = 0) (hy : y % 4096 = 0) {v : ℕ}
    (hv : v < 2 ^ 64) :
    (m.set x SlabHeader.next v).get y SlabHeader.next =
      if y = x then v else m.get y SlabHeader.next := by
  split
  · next h =>
    rw [h, get_set_same]
    exact Nat.mod_eq_of_lt hv
  · next h => exact get_set_slab hx hy h (by decide) (by decide) v

theorem get_set_prev {x y : ℕ} (hx : x % 4096 = 0) (hy : y % 4096 = 0) {v : ℕ}
    (hv : v < 2 ^ 64) :
    (m.set x SlabHeader.prev v).get y SlabHeader.prev =
      if y = x then v else m.get y SlabHeader.prev := by
  split
  · next h =>
    rw [h, get_set_same]
    exact Nat.mod_eq_of_lt hv
  · next h => exact get_set_slab hx hy h (by decide) (by decide) v

/-- The two links of a slab do not meet. -/
theorem get_set_links {x y : ℕ} (hx : x % 4096 = 0) (hy : y % 4096 = 0) (v : ℕ) :
    (m.set x SlabHeader.next v).get y SlabHeader.prev = m.get y SlabHeader.prev ∧
      (m.set x SlabHeader.prev v).get y SlabHeader.next = m.get y SlabHeader.next := by
  by_cases h : y = x
  · subst h
    exact ⟨get_set_apart m y (by decide) v, get_set_apart m y (by decide) v⟩
  · exact ⟨get_set_slab hx hy h (by decide) (by decide) v,
      get_set_slab hx hy h (by decide) (by decide) v⟩

namespace SlabList

theorem ne_zero (h : SlabList m head slabs) (hb : b ∈ slabs) : b ≠ 0 := by
  obtain ⟨tail, h⟩ := h
  rintro rfl
  exact (List.nodup_cons.1 h.nodup).1 hb

/-- A list depends on the links of its slabs. -/
theorem congr (h : SlabList m head slabs)
    (hlinks : ∀ x ∈ slabs, m'.get x SlabHeader.next = m.get x SlabHeader.next ∧
      m'.get x SlabHeader.prev = m.get x SlabHeader.prev) : SlabList m' head slabs := by
  obtain ⟨tail, h⟩ := h
  refine ⟨tail, h.congr (fun x hx => ?_) (fun x hx => ?_)⟩
  all_goals
    rcases List.mem_cons.1 hx with rfl | hx
    · rfl
    · have hne : x ≠ 0 := fun heq => (List.nodup_cons.1 h.nodup).1 (heq ▸ hx)
      simp only [slabNext, slabPrev, if_neg hne, hlinks x hx]

theorem empty (m : Memory) : SlabList m 0 [] :=
  ⟨0, .empty rfl rfl⟩

/-- The head is the first slab, or null. -/
theorem head_eq (h : SlabList m head slabs) : head = slabs.headD 0 := by
  obtain ⟨tail, h⟩ := h
  cases slabs with
  | nil => exact h.linked.1
  | cons b slabs => exact h.linked.1.1

/-- The links of a slab of the list lead to slabs of the list, or are null. -/
theorem links_mem (h : SlabList m head slabs) (hb : b ∈ slabs) :
    m.get b SlabHeader.next ∈ 0 :: slabs ∧ m.get b SlabHeader.prev ∈ 0 :: slabs := by
  have hne := h.ne_zero hb
  obtain ⟨tail, h⟩ := h
  have hmem := h.neighbours hb
  simpa only [slabNext, slabPrev, if_neg hne] using hmem

end SlabList

/-! ## Moving a slab -/

/-- What `pushSlab` does to the links. -/
theorem pushSlab_links (hhead : head % 4096 = 0) (hb : b % 4096 = 0) (hheadlt : head < 2 ^ 64)
    (hblt : b < 2 ^ 64) {x : ℕ} (hx : x % 4096 = 0) :
    (pushSlab m head b).get x SlabHeader.next =
        (if x = b then head else m.get x SlabHeader.next) ∧
      (pushSlab m head b).get x SlabHeader.prev =
        if x = head ∧ head ≠ 0 then b else if x = b then 0 else m.get x SlabHeader.prev := by
  have hzero : (0 : ℕ) < 2 ^ 64 := by norm_num
  have hnext : ∀ (m' : Memory) v, (m'.set b SlabHeader.prev v).get x SlabHeader.next =
      m'.get x SlabHeader.next := fun m' v => (get_set_links hb hx v).2
  have hnext' : ∀ (m' : Memory) v, (m'.set head SlabHeader.prev v).get x SlabHeader.next =
      m'.get x SlabHeader.next := fun m' v => (get_set_links hhead hx v).2
  unfold pushSlab
  split
  · next hne =>
    rw [hnext', hnext, get_set_next hb hx hheadlt, get_set_prev hhead hx hblt,
      get_set_prev hb hx hzero, (get_set_links hb hx head).1]
    simp [hne]
  · next hne =>
    rw [hnext, get_set_next hb hx hheadlt, get_set_prev hb hx hzero, (get_set_links hb hx head).1]
    simp [hne]

/-- A slab comes in front of a list. -/
theorem SlabList.push (h : SlabList m head slabs) (hpages : SlabPages (b :: slabs))
    (hb : b ∉ slabs) (hne : b ≠ 0) : SlabList (pushSlab m head b) b (b :: slabs) := by
  have hhead : head % 4096 = 0 ∧ head < 2 ^ 64 := by
    rw [h.head_eq]
    cases slabs with
    | nil => exact ⟨rfl, by norm_num⟩
    | cons c slabs => exact hpages c (by simp)
  obtain ⟨hmod, hlt⟩ := hpages b List.mem_cons_self
  obtain ⟨tail, hring⟩ := h
  have hnot : b ∉ 0 :: slabs := by simp [hne, hb]
  have hpush := hring.push hnot
  have hnot0 : 0 ∉ slabs := (List.nodup_cons.1 hring.nodup).1
  refine ⟨(DoublyLinked.push (slabNext m head, slabPrev m tail) 0 b).2 0,
    hpush.congr (fun x hx => ?_) (fun x hx => ?_)⟩
  · by_cases hx0 : x = 0
    · rw [hx0]
      simp [slabNext, DoublyLinked.push]
    · have hmem : x ∈ b :: slabs := List.mem_of_ne_of_mem hx0 hx
      have hlinks := (pushSlab_links (m := m) hhead.1 hmod hhead.2 hlt (hpages x hmem).1).1
      simp only [slabNext, if_neg hx0, hlinks, DoublyLinked.push, Function.update_apply, if_true]
  · by_cases hx0 : x = 0
    · rw [hx0]
      rfl
    · have hmem : x ∈ b :: slabs := List.mem_of_ne_of_mem hx0 hx
      have hlinks := (pushSlab_links (m := m) hhead.1 hmod hhead.2 hlt (hpages x hmem).1).2
      have hand : x = head ∧ head ≠ 0 ↔ x = head := and_iff_left_of_imp fun heq => heq ▸ hx0
      simp only [slabPrev, slabNext, if_neg hx0, hlinks, DoublyLinked.push, Function.update_apply,
        if_true, hand]

/-- Writing one link. -/
theorem changesOnly_link (m : Memory) {rs : List ℕ} {x : ℕ} {f : StructField} (hx : x ∈ rs)
    (hf : f.Inside 16) (v : ℕ) : ChangesOnly (linkWords rs) m (m.set x f v) := by
  refine (changesOnly_set m x hf v).mono fun r hr => ?_
  rw [List.mem_singleton.1 hr]
  exact ⟨_, List.mem_map_of_mem hx, le_rfl, le_rfl⟩

/-- `pushSlab` writes the links of the slab and of the head. -/
theorem changesOnly_pushSlab {rs : List ℕ} (hb : b ∈ rs) (hhead : head = 0 ∨ head ∈ rs) :
    ChangesOnly (linkWords rs) m (pushSlab m head b) := by
  have hfirst := (changesOnly_link m (f := SlabHeader.next) hb (by decide) head).comp
    (changesOnly_link _ (f := SlabHeader.prev) hb (by decide) 0)
  unfold pushSlab
  split
  · next hne =>
    exact hfirst.comp (changesOnly_link _ (hhead.resolve_left hne) (by decide) b)
  · exact hfirst

/-- The neighbours of a slab, as it is unlinked. -/
structure Neighbours (m : Memory) (b prev next : ℕ) : Prop where
  prev_eq : m.get b SlabHeader.prev = prev
  next_eq : m.get b SlabHeader.next = next
  prev_mod : prev % 4096 = 0
  next_mod : next % 4096 = 0
  prev_ne : prev ≠ b
  next_ne : next ≠ b

/-- What `unlinkSlab` does to the links. -/
theorem unlinkSlab_links {p n : ℕ} (hb : b % 4096 = 0) (h : Neighbours m b p n) {x : ℕ}
    (hx : x % 4096 = 0) :
    (unlinkSlab m b).get x SlabHeader.next =
        (if x = p ∧ p ≠ 0 then n else m.get x SlabHeader.next) ∧
      (unlinkSlab m b).get x SlabHeader.prev =
        if x = n ∧ n ≠ 0 then p else m.get x SlabHeader.prev := by
  have hp : p < 2 ^ 64 := h.prev_eq ▸ get_lt m b SlabHeader.prev
  have hn : n < 2 ^ 64 := h.next_eq ▸ get_lt m b SlabHeader.next
  -- the first write leaves the links of the slab itself alone
  obtain ⟨m₁, hm₁, hnext, hprev⟩ : ∃ m₁ : Memory,
      m₁ = (if p ≠ 0 then m.set p SlabHeader.next n else m) ∧
      (∀ y, y % 4096 = 0 → m₁.get y SlabHeader.next =
        if y = p ∧ p ≠ 0 then n else m.get y SlabHeader.next) ∧
      ∀ y, y % 4096 = 0 → m₁.get y SlabHeader.prev = m.get y SlabHeader.prev := by
    refine ⟨_, rfl, fun y hy => ?_, fun y hy => ?_⟩
    · split
      · next hne => simp [get_set_next h.prev_mod hy hn, hne]
      · next hne => simp [hne]
    · split
      · exact (get_set_links h.prev_mod hy n).1
      · rfl
  have hself : m₁.get b SlabHeader.next = n := by
    rw [hnext b hb, if_neg fun hand => h.prev_ne hand.1.symm, h.next_eq]
  have hunlink : unlinkSlab m b = if n ≠ 0 then m₁.set n SlabHeader.prev p else m₁ := by
    simp only [unlinkSlab, h.prev_eq, h.next_eq, ← hm₁, hself, hprev b hb]
  rw [hunlink]
  split
  · next hne =>
    rw [(get_set_links h.next_mod hx p).2, get_set_prev h.next_mod hx hp, hnext x hx, hprev x hx]
    simp [hne]
  · next hne =>
    rw [hnext x hx, hprev x hx]
    simp [hne]

/-- `unlinkSlab` writes the links of the neighbours. -/
theorem changesOnly_unlinkSlab {rs : List ℕ} {p n : ℕ} (hb : b % 4096 = 0)
    (h : Neighbours m b p n) (hp : p = 0 ∨ p ∈ rs) (hn : n = 0 ∨ n ∈ rs) :
    ChangesOnly (linkWords rs) m (unlinkSlab m b) := by
  obtain ⟨m₁, hm₁, hfirst⟩ : ∃ m₁ : Memory,
      m₁ = (if p ≠ 0 then m.set p SlabHeader.next n else m) ∧
      ChangesOnly (linkWords rs) m m₁ := by
    refine ⟨_, rfl, ?_⟩
    split
    · next hne => exact changesOnly_link m (hp.resolve_left hne) (by decide) n
    · exact ChangesOnly.refl _ _
  have hself : m₁.get b SlabHeader.next = n := by
    rw [hm₁]
    split
    · exact (get_set_slab h.prev_mod hb h.prev_ne.symm (by decide) (by decide) n).trans h.next_eq
    · exact h.next_eq
  simp only [unlinkSlab, h.prev_eq, h.next_eq, ← hm₁, hself]
  split
  · next hne => exact hfirst.comp (changesOnly_link m₁ (hn.resolve_left hne) (by decide) _)
  · exact hfirst

/-- The list of the slab loses it, and a list without its neighbours stays as it is. -/
theorem SlabList.unlink (h : SlabList m head slabs) (hpages : SlabPages slabs) (hne : b ≠ 0)
    (hb : b % 4096 = 0) {p n : ℕ} (hn : Neighbours m b p n)
    (hmem : b ∈ slabs ∨ b ∉ slabs ∧ p ∉ slabs ∧ n ∉ slabs) :
    SlabList (unlinkSlab m b) (if head = b then n else head) (slabs.erase b) := by
  rcases hmem with hmem | ⟨hmem, hpnot, hnnot⟩
  · obtain ⟨tail, hring⟩ := h
    have hunlink := hring.unlink hmem
    have hhead : head = b ↔ p = 0 := by
      have hiff := hring.next_eq_iff hmem
      simpa only [slabNext, slabPrev, if_true, if_neg hne, hn.prev_eq] using hiff
    have hnot0 : 0 ∉ slabs := (List.nodup_cons.1 hring.nodup).1
    have hnext : slabNext m head b = n := by rw [slabNext, if_neg hne, hn.next_eq]
    have hprev : slabPrev m tail b = p := by rw [slabPrev, if_neg hne, hn.prev_eq]
    simp only [DoublyLinked.unlink, hnext, hprev] at hunlink
    refine ⟨Function.update (slabPrev m tail) n p 0,
      hunlink.congr (fun x hx => ?_) (fun x hx => ?_)⟩
    · by_cases hx0 : x = 0
      · rw [hx0, slabNext, if_pos rfl, Function.update_apply, slabNext, if_pos rfl]
        simp only [hhead, eq_comm]
      · have hx' : x ∈ slabs := List.mem_of_mem_erase (List.mem_of_ne_of_mem hx0 hx)
        have hand : x = p ∧ p ≠ 0 ↔ x = p := and_iff_left_of_imp fun heq => heq ▸ hx0
        simp only [slabNext, if_neg hx0, (unlinkSlab_links hb hn (hpages x hx').1).1,
          Function.update_apply, hand]
    · by_cases hx0 : x = 0
      · rw [hx0, slabPrev, if_pos rfl]
      · have hx' : x ∈ slabs := List.mem_of_mem_erase (List.mem_of_ne_of_mem hx0 hx)
        have hand : x = n ∧ n ≠ 0 ↔ x = n := and_iff_left_of_imp fun heq => heq ▸ hx0
        simp only [slabPrev, if_neg hx0, (unlinkSlab_links hb hn (hpages x hx').1).2,
          Function.update_apply, hand]
  · have hhead : head ≠ b := by
      rw [h.head_eq]
      cases slabs with
      | nil => exact hne.symm
      | cons c slabs => exact fun heq => hmem (heq ▸ List.mem_cons_self)
    rw [if_neg hhead, List.erase_of_not_mem hmem]
    refine h.congr fun x hx => ?_
    obtain ⟨hnext, hprev⟩ := unlinkSlab_links hb hn (hpages x hx).1
    rw [hnext, hprev, if_neg fun hand : x = p ∧ p ≠ 0 => hpnot (hand.1 ▸ hx),
      if_neg fun hand : x = n ∧ n ≠ 0 => hnnot (hand.1 ▸ hx)]
    exact ⟨rfl, rfl⟩

/-- A list without the slab and the head does not change. -/
theorem SlabList.push_other {head' : ℕ} (h : SlabList m head' slabs) (hpages : SlabPages slabs)
    (hhead : head % 4096 = 0 ∧ head < 2 ^ 64) (hb : b % 4096 = 0 ∧ b < 2 ^ 64) (hnot : b ∉ slabs)
    (hnothead : head ∉ slabs) : SlabList (pushSlab m head b) head' slabs := by
  refine h.congr fun x hx => ?_
  obtain ⟨hnext, hprev⟩ := pushSlab_links (m := m) hhead.1 hb.1 hhead.2 hb.2 (hpages x hx).1
  have hxb : x ≠ b := fun heq => hnot (heq ▸ hx)
  rw [hnext, hprev, if_neg hxb, if_neg fun hand : x = head ∧ head ≠ 0 => hnothead (hand.1 ▸ hx),
    if_neg hxb]
  exact ⟨rfl, rfl⟩

/-- The words of a header behind the links do not depend on the lists. -/
theorem get_of_linkWords {rs : List ℕ} (h : ChangesOnly (linkWords rs) m m') (hrs : SlabPages rs)
    {y : ℕ} (hy : y % 4096 = 0) {f : StructField} (hoff : 16 ≤ f.off) (hf : f.Inside 4096) :
    m'.get y f = m.get y f := by
  refine h.load fun r hr => ?_
  obtain ⟨x, hx, rfl⟩ := List.mem_map.1 hr
  have hmod := (hrs x hx).1
  simp only [StructField.Inside, Region.Disjoint] at hf ⊢
  omega

/-- The neighbours of a slab in its list. -/
theorem SlabList.neighbours (h : SlabList m head slabs) (hpages : SlabPages slabs)
    (hb : b ∈ slabs) :
    Neighbours m b (m.get b SlabHeader.prev) (m.get b SlabHeader.next) := by
  have hmod : ∀ x ∈ 0 :: slabs, x % 4096 = 0 := fun x hx =>
    (List.mem_cons.1 hx).elim (fun heq => by rw [heq]) fun hx => (hpages x hx).1
  obtain ⟨hnext, hprev⟩ := h.links_mem hb
  have hne := h.ne_zero hb
  obtain ⟨tail, hring⟩ := h
  have hself := hring.neighbours_ne hb
  simp only [slabNext, slabPrev, if_neg hne] at hself
  exact ⟨rfl, rfl, hmod _ hprev, hmod _ hnext, hself.2, hself.1⟩

/-- The neighbours of a slab are in no other list. -/
theorem SlabList.neighbours_apart (h : SlabList m head slabs) (hb : b ∈ slabs) {others : List ℕ}
    (hzero : 0 ∉ others) (hdisj : slabs.Disjoint others) :
    b ∉ others ∧ m.get b SlabHeader.prev ∉ others ∧ m.get b SlabHeader.next ∉ others := by
  have hnot : ∀ x ∈ 0 :: slabs, x ∉ others := fun x hx hmem =>
    (List.mem_cons.1 hx).elim (fun heq => hzero (heq ▸ hmem)) fun hx => hdisj hx hmem
  obtain ⟨hnext, hprev⟩ := h.links_mem hb
  exact ⟨hdisj hb, hnot _ hprev, hnot _ hnext⟩

namespace KMalloc

variable {k : KMalloc} {idx : ℕ} {P F : List ℕ}

/-- The two lists of a size class. -/
structure ClassLists (k : KMalloc) (idx : ℕ) (P F : List ℕ) : Prop where
  partialList : SlabList k.mem (k.caches idx).partialSlabs P
  fullList : SlabList k.mem (k.caches idx).fullSlabs F
  nodup : (P ++ F).Nodup
  pages : SlabPages (P ++ F)

/-- What stays the same when slabs are moved between lists. -/
structure SameHeap (k k' : KMalloc) (idx : ℕ) : Prop where
  heapEnd : k'.heapEnd = k.heapEnd
  initialized : k'.initialized = k.initialized
  objectSize : (k'.caches idx).objectSize = (k.caches idx).objectSize
  caches : ∀ i, i ≠ idx → k'.caches i = k.caches i

/-- The lists of a class depend on its heads and on the links of its slabs. -/
theorem ClassLists.congr {k' : KMalloc} (h : ClassLists k idx P F)
    (hfirst : (k'.caches idx).partialSlabs = (k.caches idx).partialSlabs)
    (hfull : (k'.caches idx).fullSlabs = (k.caches idx).fullSlabs)
    (hlinks : ∀ x ∈ P ++ F, k'.mem.get x SlabHeader.next = k.mem.get x SlabHeader.next ∧
      k'.mem.get x SlabHeader.prev = k.mem.get x SlabHeader.prev) : ClassLists k' idx P F := by
  refine ⟨?_, ?_, h.nodup, h.pages⟩
  · rw [hfirst]
    exact h.partialList.congr fun x hx => hlinks x (List.mem_append_left _ hx)
  · rw [hfull]
    exact h.fullList.congr fun x hx => hlinks x (List.mem_append_right _ hx)

theorem ClassLists.unlinked (h : ClassLists k idx P F) (hb : b ∈ P ++ F) :
    SlabList (unlinkSlab k.mem b)
        (if (k.caches idx).partialSlabs = b then k.mem.get b SlabHeader.next
          else (k.caches idx).partialSlabs) (P.erase b) ∧
      SlabList (unlinkSlab k.mem b)
        (if (k.caches idx).fullSlabs = b then k.mem.get b SlabHeader.next
          else (k.caches idx).fullSlabs) (F.erase b) ∧
      (unlinkSlab k.mem b).get b SlabHeader.next = k.mem.get b SlabHeader.next ∧
      ChangesOnly (linkWords (P ++ F)) k.mem (unlinkSlab k.mem b) := by
  obtain ⟨hmod, hlt⟩ := h.pages b hb
  have hP : SlabPages P := fun x hx => h.pages x (List.mem_append_left _ hx)
  have hF : SlabPages F := fun x hx => h.pages x (List.mem_append_right _ hx)
  have hdisj := List.disjoint_of_nodup_append h.nodup
  have hPzero : 0 ∉ P := fun hmem => h.partialList.ne_zero hmem rfl
  have hFzero : 0 ∉ F := fun hmem => h.fullList.ne_zero hmem rfl
  -- the neighbours are in the list the slab is in
  obtain ⟨hne, hn, hmemP, hmemF, hp, hnx⟩ : b ≠ 0 ∧
      Neighbours k.mem b (k.mem.get b SlabHeader.prev) (k.mem.get b SlabHeader.next) ∧
      (b ∈ P ∨ b ∉ P ∧ k.mem.get b SlabHeader.prev ∉ P ∧ k.mem.get b SlabHeader.next ∉ P) ∧
      (b ∈ F ∨ b ∉ F ∧ k.mem.get b SlabHeader.prev ∉ F ∧ k.mem.get b SlabHeader.next ∉ F) ∧
      k.mem.get b SlabHeader.prev ∈ 0 :: (P ++ F) ∧
      k.mem.get b SlabHeader.next ∈ 0 :: (P ++ F) := by
    rcases List.mem_append.1 hb with hbP | hbF
    · have hlinks := h.partialList.links_mem hbP
      have hsub : 0 :: P ⊆ 0 :: (P ++ F) := List.cons_subset_cons _ (List.subset_append_left _ _)
      exact ⟨h.partialList.ne_zero hbP, h.partialList.neighbours hP hbP, .inl hbP,
        .inr (h.partialList.neighbours_apart hbP hFzero hdisj), hsub hlinks.2, hsub hlinks.1⟩
    · have hlinks := h.fullList.links_mem hbF
      have hsub : 0 :: F ⊆ 0 :: (P ++ F) := List.cons_subset_cons _ (List.subset_append_right _ _)
      exact ⟨h.fullList.ne_zero hbF, h.fullList.neighbours hF hbF,
        .inr (h.fullList.neighbours_apart hbF hPzero fun x hF hP => hdisj hP hF), .inl hbF,
        hsub hlinks.2,
        hsub hlinks.1⟩
  refine ⟨h.partialList.unlink hP hne hmod hn hmemP, h.fullList.unlink hF hne hmod hn hmemF, ?_,
    changesOnly_unlinkSlab hmod hn (List.mem_cons.1 hp) (List.mem_cons.1 hnx)⟩
  rw [(unlinkSlab_links hmod hn hmod).1, if_neg fun hand => hn.prev_ne hand.1.symm]

/-- The head of a list, if there is one, begins a page. -/
theorem head_page (h : SlabList m head slabs) (hpages : SlabPages slabs) :
    head % 4096 = 0 ∧ head < 2 ^ 64 := by
  rw [h.head_eq]
  cases slabs with
  | nil => exact ⟨rfl, by norm_num⟩
  | cons c slabs => exact hpages c List.mem_cons_self

/-- A slab comes in front of one of two lists. -/
theorem push_lists {head' : ℕ} {others : List ℕ} (h : SlabList m head slabs)
    (h' : SlabList m head' others) (hpages : SlabPages (slabs ++ others))
    (hdisj : slabs.Disjoint others) (hb : b % 4096 = 0 ∧ b < 2 ^ 64) (hne : b ≠ 0)
    (hnot : b ∉ slabs) (hnot' : b ∉ others) :
    SlabList (pushSlab m head b) b (b :: slabs) ∧ SlabList (pushSlab m head b) head' others := by
  have hslabs : SlabPages slabs := fun x hx => hpages x (List.mem_append_left _ hx)
  have hothers : SlabPages others := fun x hx => hpages x (List.mem_append_right _ hx)
  refine ⟨h.push (List.forall_mem_cons.2 ⟨hb, hslabs⟩) hnot hne,
    h'.push_other hothers (head_page h hslabs) hb hnot' ?_⟩
  rw [h.head_eq]
  cases slabs with
  | nil => exact fun hmem => h'.ne_zero hmem rfl
  | cons c slabs => exact hdisj List.mem_cons_self

/-- The writes of `pushSlab` are in the headers of the lists. -/
theorem changes_push {rs : List ℕ} (h : SlabList m head slabs) (hb : b ∈ rs) (hsub : slabs ⊆ rs) :
    ChangesOnly (linkWords rs) m (pushSlab m head b) := by
  refine changesOnly_pushSlab hb ?_
  rw [h.head_eq]
  cases slabs with
  | nil => exact .inl rfl
  | cons c slabs => exact .inr (hsub List.mem_cons_self)

theorem sameHeap_setCache (k : KMalloc) (m : Memory) (idx : ℕ) {c : SlabCache}
    (hc : c.objectSize = (k.caches idx).objectSize) :
    SameHeap k ({ k with mem := m }.setCache idx c) idx :=
  ⟨rfl, rfl, by simp [setCache, hc], fun i hi => by simp [setCache, hi]⟩

/-- The heads of the two lists while the slab is in neither. -/
theorem slabUpdateList_eq (k : KMalloc) (idx b : ℕ) :
    let m := unlinkSlab k.mem b
    let p := if (k.caches idx).partialSlabs = b then m.get b SlabHeader.next
      else (k.caches idx).partialSlabs
    let f := if (k.caches idx).fullSlabs = b then m.get b SlabHeader.next
      else (k.caches idx).fullSlabs
    k.slabUpdateList idx b =
      if m.get b SlabHeader.freeCount = 0 then
        { k with mem := pushSlab m f b }.setCache idx
          { k.caches idx with partialSlabs := p, fullSlabs := b }
      else
        { k with mem := pushSlab m p b }.setCache idx
          { k.caches idx with partialSlabs := b, fullSlabs := f } := by
  unfold slabUpdateList
  by_cases hp : (k.caches idx).partialSlabs = b <;> by_cases hf : (k.caches idx).fullSlabs = b <;>
    simp [hp, hf]

/-- `slab_update_list` puts the slab in front of the list it belongs to. -/
theorem slabUpdateList_spec (h : ClassLists k idx P F) (hb : b ∈ P ++ F) :
    let full := k.mem.get b SlabHeader.freeCount = 0
    let k' := k.slabUpdateList idx b
    SameHeap k k' idx ∧ ChangesOnly (linkWords (P ++ F)) k.mem k'.mem ∧
      ClassLists k' idx (if full then P.erase b else b :: P.erase b)
        (if full then b :: F.erase b else F.erase b) := by
  obtain ⟨hPl, hFl, hself, hchanges⟩ := h.unlinked hb
  obtain ⟨hmod, hlt⟩ := h.pages b hb
  have hPsub : ∀ x ∈ P.erase b, x ∈ P ++ F := fun x hx =>
    List.mem_append_left _ (List.mem_of_mem_erase hx)
  have hFsub : ∀ x ∈ F.erase b, x ∈ P ++ F := fun x hx =>
    List.mem_append_right _ (List.mem_of_mem_erase hx)
  have hPpages : SlabPages (P.erase b) := fun x hx => h.pages x (hPsub x hx)
  have hFpages : SlabPages (F.erase b) := fun x hx => h.pages x (hFsub x hx)
  have hcount : (unlinkSlab k.mem b).get b SlabHeader.freeCount =
      k.mem.get b SlabHeader.freeCount :=
    get_of_linkWords hchanges h.pages hmod (by decide) (by decide)
  have hne : b ≠ 0 := (List.mem_append.1 hb).elim h.partialList.ne_zero h.fullList.ne_zero
  have hPnodup := (List.nodup_append.1 h.nodup).1
  have hFnodup := (List.nodup_append.1 h.nodup).2.1
  have hdisj := List.disjoint_of_nodup_append h.nodup
  have hbP : b ∉ P.erase b := hPnodup.not_mem_erase
  have hbF : b ∉ F.erase b := hFnodup.not_mem_erase
  have hpages : SlabPages (P.erase b ++ F.erase b) := fun x hx =>
    (List.mem_append.1 hx).elim (fun hx => h.pages x (hPsub x hx)) fun hx => h.pages x (hFsub x hx)
  have hdisj' : (P.erase b).Disjoint (F.erase b) := fun x hP hF =>
    hdisj (List.mem_of_mem_erase hP) (List.mem_of_mem_erase hF)
  have heq := slabUpdateList_eq k idx b
  simp only [hself, hcount] at heq
  simp only [heq]
  generalize (if (k.caches idx).partialSlabs = b then k.mem.get b SlabHeader.next
    else (k.caches idx).partialSlabs) = p at hPl ⊢
  generalize (if (k.caches idx).fullSlabs = b then k.mem.get b SlabHeader.next
    else (k.caches idx).fullSlabs) = f at hFl ⊢
  split
  · obtain ⟨hF', hP'⟩ := push_lists hFl hPl (fun x hx => hpages x (by simpa [or_comm] using hx))
      (fun x hF hP => hdisj' hP hF) ⟨hmod, hlt⟩ hne hbF hbP
    refine ⟨sameHeap_setCache k _ idx rfl, hchanges.comp (changes_push hFl hb hFsub),
      ?_, ?_, ?_, ?_⟩
    · simpa only [setCache, Function.update_self] using hP'
    · simpa only [setCache, Function.update_self] using hF'
    · exact List.nodup_middle.2 (List.nodup_cons.2 ⟨by simp [hbP, hbF],
        List.Nodup.append (hPnodup.erase b) (hFnodup.erase b) hdisj'⟩)
    · intro x hx
      have hmem : x = b ∨ x ∈ P.erase b ++ F.erase b := by simpa [or_left_comm] using hx
      exact hmem.elim (fun heq => heq ▸ ⟨hmod, hlt⟩) (hpages x)
  · obtain ⟨hP', hF'⟩ := push_lists hPl hFl hpages hdisj' ⟨hmod, hlt⟩ hne hbP hbF
    refine ⟨sameHeap_setCache k _ idx rfl, hchanges.comp (changes_push hPl hb hPsub),
      ?_, ?_, ?_, ?_⟩
    · simpa only [setCache, Function.update_self] using hP'
    · simpa only [setCache, Function.update_self] using hF'
    · exact List.nodup_cons.2 ⟨by simp [hbP, hbF],
        List.Nodup.append (hPnodup.erase b) (hFnodup.erase b) hdisj'⟩
    · exact List.forall_mem_cons.2 ⟨⟨hmod, hlt⟩, hpages⟩

end KMalloc

end Seraph
