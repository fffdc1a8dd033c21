import Seraph.AetherCacheOrder
import Seraph.Recency

/-!
# The operations of the page cache

`CacheOrder` : the valid entries, in the order of their links, have distinct addresses and are
counted. What they hold, in this order, is a list of pages by recency, and every operation on the
cache does to this list what its name says (`CacheOrder.touch`, `CacheOrder.insert`,
`CacheOrder.invalidate`, `CacheOrder.revise`, `CacheOrder.clear`).
-/

namespace Seraph

open ByteMem DoublyLinked

namespace AetherCache

variable {c : AetherCache} {order : List ℕ} {i : ℕ}

/-! ## Taking an entry out -/

/-- The successor of a slot, or of the mark, becomes `q`. -/
def writeNext (c : AetherCache) (q : Option ℕ) : Option ℕ → AetherCache
  | some p => c.setNext q (some p)
  | none => { c with lruHead := q }

/-- The predecessor of a slot, or of the mark, becomes `q`. -/
def writePrev (c : AetherCache) (q : Option ℕ) : Option ℕ → AetherCache
  | some n => c.setPrev q (some n)
  | none => { c with lruTail := q }

theorem lruRemove_eq (c : AetherCache) (i : ℕ) :
    c.lruRemove i =
      let c := c.writeNext (c.entries i).lruNext (c.entries i).lruPrev
      let c := c.writePrev (c.entries i).lruPrev (c.entries i).lruNext
      c.modify i fun e => { e with lruPrev := none, lruNext := none } :=
  rfl

theorem writeNext_links (c : AetherCache) (q p : Option ℕ) :
    (c.writeNext q p).nextOf = Function.update c.nextOf p q ∧
      (c.writeNext q p).prevOf = c.prevOf := by
  cases p with
  | none =>
    refine ⟨funext fun x => ?_, funext fun x => ?_⟩
    all_goals cases x <;> rfl
  | some p => exact c.setNext_links q (some p)

theorem writePrev_links (c : AetherCache) (q p : Option ℕ) :
    (c.writePrev q p).nextOf = c.nextOf ∧
      (c.writePrev q p).prevOf = Function.update c.prevOf p q := by
  cases p with
  | none =>
    refine ⟨funext fun x => ?_, funext fun x => ?_⟩
    all_goals cases x <;> rfl
  | some p => exact c.setPrev_links q (some p)

/-- The links after an entry has been taken out. -/
theorem lruRemove_links (c : AetherCache) (i : ℕ) :
    (c.lruRemove i).nextOf =
        Function.update (unlink (c.nextOf, c.prevOf) (some i)).1 (some i) none ∧
      (c.lruRemove i).prevOf =
        Function.update (unlink (c.nextOf, c.prevOf) (some i)).2 (some i) none := by
  obtain ⟨c₁, hc₁⟩ : ∃ c₁, c₁ = c.writeNext (c.entries i).lruNext (c.entries i).lruPrev :=
    ⟨_, rfl⟩
  obtain ⟨hnext₁, hprev₁⟩ := c.writeNext_links (c.entries i).lruNext (c.entries i).lruPrev
  rw [← hc₁] at hnext₁ hprev₁
  have hprev : (c₁.entries i).lruPrev = (c.entries i).lruPrev := congrFun hprev₁ (some i)
  have hnext : (c₁.entries i).lruNext = (c.entries i).lruNext := by
    refine (congrFun hnext₁ (some i)).trans ?_
    rw [Function.update_apply]
    exact ite_self _
  obtain ⟨hnext₂, hprev₂⟩ := c₁.writePrev_links (c.entries i).lruPrev (c.entries i).lruNext
  obtain ⟨hnext₃, hprev₃⟩ := modify_links
    (c₁.writePrev (c.entries i).lruPrev (c.entries i).lruNext) i
    fun e => { e with lruPrev := none, lruNext := none }
  rw [lruRemove_eq, ← hc₁]
  dsimp only
  rw [hprev, hnext, hnext₃, hprev₃, hnext₂, hprev₂, hnext₁, hprev₁]
  exact ⟨rfl, rfl⟩

end AetherCache

theorem LruLinks.remove {c : AetherCache} {order : List ℕ} {i : ℕ} (h : LruLinks c order)
    (hi : i ∈ order) : LruLinks (c.lruRemove i) (order.erase i) := by
  obtain ⟨hnext, hprev⟩ := c.lruRemove_links i
  obtain ⟨hn, hp⟩ := h.ring.neighbours (List.mem_map_of_mem hi)
  have hmem : ∀ j, j ∈ order.erase i ↔ j ≠ i ∧ j ∈ order := fun j => h.nodup.mem_erase_iff
  refine ⟨?_, stale_congr h.stale (fun j => List.mem_of_mem_erase) (fun j hj hnot => ?_)
    fun j hj => ?_⟩
  · have hnot : ∀ x ∈ none :: (order.erase i).map some, x ≠ some i := by
      rintro x hx rfl
      simp [hmem] at hx
    rw [hnext, hprev]
    exact (h.unlink_ring hi).congr (fun x hx => Function.update_of_ne (hnot x hx) _ _) fun x hx =>
      Function.update_of_ne (hnot x hx) _ _
  · -- the entry itself has no links left
    have hji : j = i := by
      by_contra hne
      exact hnot ((hmem j).2 ⟨hne, hj⟩)
    rw [hji, hnext, hprev, Function.update_self, Function.update_self]
    exact ⟨rfl, rfl⟩
  · have hne : some j ≠ some i := fun heq => hj (Option.some.inj heq ▸ hi)
    have hout : some j ∉ none :: order.map some := by simp [hj]
    rw [hnext, hprev, Function.update_of_ne hne, Function.update_of_ne hne]
    exact ⟨Function.update_of_ne (ne_of_mem_of_not_mem hp hout).symm _ _,
      Function.update_of_ne (ne_of_mem_of_not_mem hn hout).symm _ _⟩

namespace SamePages

theorem writeNext (c : AetherCache) (q p : Option ℕ) : SamePages c (c.writeNext q p) := by
  cases p with
  | none => exact ⟨rfl, rfl, fun _ => rfl, fun _ => rfl⟩
  | some p => exact setNext c q (some p)

theorem writePrev (c : AetherCache) (q p : Option ℕ) : SamePages c (c.writePrev q p) := by
  cases p with
  | none => exact ⟨rfl, rfl, fun _ => rfl, fun _ => rfl⟩
  | some p => exact setPrev c q (some p)

theorem detach (c : AetherCache) (i : ℕ) : SamePages c (c.detach i) := by
  rw [AetherCache.detach]
  split
  · exact ((setNext c _ _).trans (setPrev _ _ _)).trans (writePrev _ _ none)
  · exact (setNext c _ _).trans (setPrev _ _ _)

theorem pushFront (c : AetherCache) (i : ℕ) : SamePages c (c.pushFront i) := by
  have hset := ((modify c i (f := fun e => { e with lruPrev := none, lruNext := c.lruHead })
    fun _ => ⟨rfl, rfl⟩).trans (setPrev _ (some i) c.lruHead)).trans (writeNext _ (some i) none)
  rw [AetherCache.pushFront]
  dsimp only
  split
  · exact hset.trans (writePrev _ (some i) none)
  · exact hset

theorem lruTouch (c : AetherCache) (i : ℕ) : SamePages c (c.lruTouch i) := by
  rw [AetherCache.lruTouch_eq]
  split
  · exact refl c
  · exact (detach c i).trans (pushFront _ i)

theorem lruRemove (c : AetherCache) (i : ℕ) : SamePages c (c.lruRemove i) := by
  rw [AetherCache.lruRemove_eq]
  dsimp only
  exact ((writeNext c _ _).trans (writePrev _ _ _)).trans
    (modify _ i (f := fun e => { e with lruPrev := none, lruNext := none }) fun _ => ⟨rfl, rfl⟩)

end SamePages

namespace AetherCache

variable {c c' : AetherCache} {order : List ℕ} {i addr : ℕ}

/-- What the entries of a list of slots say of their pages. -/
def pages (c : AetherCache) (order : List ℕ) : List PageInfo :=
  order.map fun i => (c.entries i).info

theorem mem_pages (hi : i ∈ order) : (c.entries i).info ∈ c.pages order :=
  List.mem_map_of_mem hi

theorem pages_same (h : SamePages c c') (order : List ℕ) : c'.pages order = c.pages order :=
  List.map_congr_left fun i _ => h.info i

/-- Assignments to what the entries say of their pages. -/
theorem pages_map {f : PageInfo → PageInfo}
    (h : ∀ i ∈ order, (c'.entries i).info = f (c.entries i).info) :
    c'.pages order = (c.pages order).map f := by
  rw [pages, pages, List.map_map]
  exact List.map_congr_left h

theorem entries_modify (c : AetherCache) (i : ℕ) (f : CacheEntry → CacheEntry) (j : ℕ) :
    (c.modify i f).entries j = if j = i then f (c.entries i) else c.entries j :=
  Function.update_apply ..

/-- Assignments to an entry that keep its links. -/
theorem links_modify (c : AetherCache) (i : ℕ) {f : CacheEntry → CacheEntry}
    (hf : ∀ e, (f e).lruNext = e.lruNext ∧ (f e).lruPrev = e.lruPrev) :
    (c.modify i f).nextOf = c.nextOf ∧ (c.modify i f).prevOf = c.prevOf := by
  obtain ⟨hnext, hprev⟩ := c.modify_links i f
  rw [(hf _).1] at hnext
  rw [(hf _).2] at hprev
  exact ⟨hnext.trans (Function.update_eq_self _ _), hprev.trans (Function.update_eq_self _ _)⟩

/-- The pages of other slots do not change. -/
theorem pages_modify (hi : i ∉ order) (f : CacheEntry → CacheEntry) :
    (c.modify i f).pages order = c.pages order := by
  refine List.map_congr_left fun j hj => ?_
  rw [entries_modify, if_neg (ne_of_mem_of_not_mem hj hi)]

/-- An entry is taken out of the list and is no longer valid. -/
def discard (c : AetherCache) (i : ℕ) : AetherCache :=
  let c := (c.lruRemove i).modify i fun e => { e with valid := false }
  { c with count := u64 (2 ^ 64 - 1 + c.count) }

theorem info_discard (c : AetherCache) (i j : ℕ) :
    ((c.discard i).entries j).info = (c.entries j).info := by
  rw [← (SamePages.lruRemove c i).info j]
  by_cases h : j = i
  · simp [discard, modify, h, CacheEntry.info]
  · simp [discard, modify, h]

theorem pages_discard (c : AetherCache) (i : ℕ) (order : List ℕ) :
    (c.discard i).pages order = c.pages order :=
  List.map_congr_left fun j _ => c.info_discard i j

end AetherCache

theorem LruLinks.congr {c c' : AetherCache} {order : List ℕ} (h : LruLinks c order)
    (hlinks : c'.nextOf = c.nextOf ∧ c'.prevOf = c.prevOf) : LruLinks c' order :=
  ⟨by rw [hlinks.1, hlinks.2]; exact h.ring, by rw [hlinks.1, hlinks.2]; exact h.stale⟩

/-- The valid entries in the order of their links, the one used last in front. -/
structure CacheOrder (c : AetherCache) (order : List ℕ) : Prop where
  links : LruLinks c order
  mem_iff : ∀ i, i ∈ order ↔ i < c.capacity ∧ (c.entries i).valid = true
  count : c.count = order.length
  distinct : Recency.Distinct PageInfo.aetherAddr (c.pages order)
  bound : c.capacity < 2 ^ 64

namespace CacheOrder

open AetherCache

variable {c c' : AetherCache} {order order' : List ℕ} {i addr : ℕ}

theorem nodup (h : CacheOrder c order) : order.Nodup :=
  h.links.nodup

theorem subperm (h : CacheOrder c order) : order.Subperm (List.range c.capacity) :=
  List.subperm_of_subset h.nodup fun i hi => List.mem_range.2 ((h.mem_iff i).1 hi).1

theorem length_le (h : CacheOrder c order) : order.length ≤ c.capacity := by
  simpa using h.subperm.length_le

/-- A slot outside of the order leaves room in it. -/
theorem length_lt (h : CacheOrder c order) (hlt : i < c.capacity) (hi : i ∉ order) :
    order.length < c.capacity := by
  refine Nat.lt_of_le_of_ne h.length_le fun hfull => hi ?_
  have hperm := h.subperm.perm_of_length_le (by rw [List.length_range, hfull])
  exact hperm.mem_iff.2 (List.mem_range.2 hlt)

/-- Valid entries with the same address are the same. -/
theorem unique (h : CacheOrder c order) {i j : ℕ} (hi : i ∈ order) (hj : j ∈ order)
    (heq : (c.entries i).aetherAddr = (c.entries j).aetherAddr) : i = j := by
  have hmap : (order.map fun i => (c.entries i).aetherAddr).Nodup := by
    have hdistinct := h.distinct
    rw [Recency.Distinct, pages, List.map_map] at hdistinct
    exact hdistinct
  exact List.inj_on_of_nodup_map hmap hi hj heq

/-- Only the links change, and the order of the same slots. -/
theorem reorder (h : CacheOrder c order) (hsame : SamePages c c') (hlinks : LruLinks c' order')
    (hperm : order'.Perm order) : CacheOrder c' order' where
  links := hlinks
  mem_iff i := by rw [hperm.mem_iff, h.mem_iff, hsame.capacity, hsame.valid]
  count := by rw [hsame.count, h.count, hperm.length_eq]
  distinct := by
    rw [pages_same hsame]
    exact ((hperm.map _).map _).nodup_iff.2 h.distinct
  bound := hsame.capacity ▸ h.bound

/-- A slot that goes from the order leaves its page out. -/
theorem pages_erase (h : CacheOrder c order) (hi : i ∈ order) :
    c.pages (order.erase i) =
      Recency.drop PageInfo.aetherAddr (c.entries i).aetherAddr (c.pages order) := by
  have hnodup := h.nodup
  have hdistinct := h.distinct
  obtain ⟨l₁, l₂, rfl⟩ := List.append_of_mem hi
  rw [Ring.erase_middle hnodup]
  rw [pages, List.map_append, List.map_cons] at hdistinct
  have hdrop := Recency.drop_append hdistinct
  rw [pages, pages, List.map_append, List.map_append, List.map_cons]
  exact hdrop.symm

/-! ## Looking up -/

theorem lookup_some (h : CacheOrder c order) (hi : c.lookup addr = some i) :
    i ∈ order ∧ (c.entries i).aetherAddr = aetherPageAlign addr := by
  have hsome := List.find?_some hi
  have hmem := List.mem_of_find?_eq_some hi
  rw [Bool.and_eq_true, decide_eq_true_eq] at hsome
  exact ⟨(h.mem_iff i).2 ⟨List.mem_range.1 hmem, hsome.1⟩, hsome.2⟩

theorem lookup_none (h : CacheOrder c order) (hnone : c.lookup addr = none) (hi : i ∈ order) :
    (c.entries i).aetherAddr ≠ aetherPageAlign addr := by
  intro heq
  obtain ⟨hlt, hvalid⟩ := (h.mem_iff i).1 hi
  have hnot := List.find?_eq_none.1 hnone i (List.mem_range.2 hlt)
  simp [hvalid, heq] at hnot

/-- The entry that is found is the one of the list. -/
theorem find_pages (h : CacheOrder c order) (addr : ℕ) :
    Recency.find PageInfo.aetherAddr (aetherPageAlign addr) (c.pages order) =
      (c.lookup addr).map fun i => (c.entries i).info := by
  cases hfind : c.lookup addr with
  | none =>
    refine Recency.find_eq_none.2 fun a ha => ?_
    obtain ⟨i, hi, rfl⟩ := List.mem_map.1 ha
    exact h.lookup_none hfind hi
  | some i =>
    obtain ⟨hi, heq⟩ := h.lookup_some hfind
    rw [← heq]
    exact Recency.find_of_mem h.distinct (mem_pages hi)

/-! ## Hits and invalidations -/

/-- A page that is used comes to the front. -/
theorem touch (h : CacheOrder c order) (hi : i ∈ order) :
    CacheOrder (c.lruTouch i) (i :: order.erase i) :=
  h.reorder (SamePages.lruTouch c i) (h.links.touch_mem hi) (List.perm_cons_erase hi).symm

theorem pages_touch (h : CacheOrder c order) (hi : i ∈ order) :
    (c.lruTouch i).pages (i :: order.erase i) =
      Recency.use PageInfo.aetherAddr (c.entries i).aetherAddr (c.pages order) := by
  have hfind : Recency.find PageInfo.aetherAddr (c.entries i).aetherAddr (c.pages order) =
      some (c.entries i).info := Recency.find_of_mem h.distinct (mem_pages hi)
  rw [pages_same (SamePages.lruTouch c i), Recency.use_of_find hfind]
  exact congrArg _ (h.pages_erase hi)

/-- An entry that goes is gone, and the others stay in their order. -/
theorem discard (h : CacheOrder c order) (hi : i ∈ order) :
    CacheOrder (c.discard i) (order.erase i) := by
  have hsame := SamePages.lruRemove c i
  have hlength := List.length_erase_of_mem hi
  have hpos := List.length_pos_of_mem hi
  have hle := h.length_le
  have hbound := h.bound
  have hlinks : LruLinks (c.discard i) (order.erase i) := (h.links.remove hi).congr
    (links_modify (c.lruRemove i) i (f := fun e => { e with valid := false }) fun _ => ⟨rfl, rfl⟩)
  refine ⟨hlinks, fun j => ?_, ?_, ?_, ?_⟩
  · rw [h.nodup.mem_erase_iff, h.mem_iff]
    by_cases hji : j = i
    · simp [hji, AetherCache.discard, AetherCache.modify]
    · have hvalid := hsame.valid j
      simp [hji, AetherCache.discard, AetherCache.modify, hsame.capacity, hvalid]
  · have hcount : (c.lruRemove i).count = order.length := hsame.count.trans h.count
    change u64 (2 ^ 64 - 1 + (c.lruRemove i).count) = _
    rw [hcount, hlength, u64]
    omega
  · rw [pages_discard, h.pages_erase hi]
    exact h.distinct.drop
  · exact hsame.capacity ▸ h.bound

/-- An entry whose page is invalidated is gone. -/
theorem invalidate (h : CacheOrder c order) (addr : ℕ) :
    ∃ order', CacheOrder (c.invalidate addr) order' ∧
      (c.invalidate addr).capacity = c.capacity ∧
      (c.invalidate addr).pages order' =
        Recency.drop PageInfo.aetherAddr (aetherPageAlign addr) (c.pages order) := by
  rw [AetherCache.invalidate]
  cases hfind : c.lookup addr with
  | none =>
    refine ⟨order, h, rfl, (Recency.drop_of_none ?_).symm⟩
    rw [h.find_pages, hfind, Option.map_none]
  | some i =>
    obtain ⟨hi, heq⟩ := h.lookup_some hfind
    refine ⟨order.erase i, h.discard hi, (SamePages.lruRemove c i).capacity, ?_⟩
    rw [← heq, ← h.pages_erase hi]
    exact c.pages_discard i _

/-- Assignments to what the entries say of their pages, but not to the addresses. -/
theorem revise (h : CacheOrder c order) (hlinks : c'.nextOf = c.nextOf ∧ c'.prevOf = c.prevOf)
    (hcapacity : c'.capacity = c.capacity) (hcount : c'.count = c.count)
    (hvalid : ∀ i, (c'.entries i).valid = (c.entries i).valid)
    (haddr : ∀ i ∈ order, (c'.entries i).aetherAddr = (c.entries i).aetherAddr) :
    CacheOrder c' order where
  links := h.links.congr hlinks
  mem_iff i := by rw [h.mem_iff, hcapacity, hvalid]
  count := hcount.trans h.count
  distinct := by
    have hmap : (c'.pages order).map PageInfo.aetherAddr =
        (c.pages order).map PageInfo.aetherAddr := by
      rw [pages, pages, List.map_map, List.map_map]
      exact List.map_congr_left fun i hi => haddr i hi
    rw [Recency.Distinct, hmap]
    exact h.distinct
  bound := hcapacity ▸ h.bound

/-- Assignments to one entry. -/
theorem modify (h : CacheOrder c order) (i : ℕ) {f : CacheEntry → CacheEntry}
    (hf : ∀ e, (f e).lruNext = e.lruNext ∧ (f e).lruPrev = e.lruPrev ∧ (f e).valid = e.valid ∧
      (f e).aetherAddr = e.aetherAddr) : CacheOrder (c.modify i f) order := by
  have hentry : ∀ j, ((c.modify i f).entries j).valid = (c.entries j).valid ∧
      ((c.modify i f).entries j).aetherAddr = (c.entries j).aetherAddr := by
    intro j
    by_cases hji : j = i
    · simp [entries_modify, hji, hf]
    · simp [entries_modify, hji]
  exact h.revise (links_modify c i fun e => ⟨(hf e).1, (hf e).2.1⟩) rfl rfl
    (fun j => (hentry j).1) fun j _ => (hentry j).2

/-- A cache that is cleared is empty. Its slots keep links to one another. -/
theorem clear (h : CacheOrder c order) : CacheOrder c.clear [] := by
  have hnext : ∀ i, c.clear.nextOf (some i) = c.nextOf (some i) := by
    intro i
    simp only [nextOf, AetherCache.clear]
    split <;> rfl
  have hprev : ∀ i, c.clear.prevOf (some i) = c.prevOf (some i) := by
    intro i
    simp only [prevOf, AetherCache.clear]
    split <;> rfl
  refine ⟨⟨Ring.empty rfl rfl, fun i _ j => ?_⟩, fun i => ?_, rfl, List.nodup_nil, h.bound⟩
  · rw [hnext, hprev, hnext, hprev]
    by_cases hi : i ∈ order
    · obtain ⟨hback, hforth⟩ := h.links.ring.leads_back
        (List.mem_cons_of_mem none (List.mem_map_of_mem hi))
      exact ⟨fun heq => ⟨List.not_mem_nil, heq ▸ hback⟩,
        fun heq => ⟨List.not_mem_nil, heq ▸ hforth⟩⟩
    · exact ⟨fun heq => ⟨List.not_mem_nil, ((h.links.stale i hi j).1 heq).2⟩,
        fun heq => ⟨List.not_mem_nil, ((h.links.stale i hi j).2 heq).2⟩⟩
  · refine iff_of_false List.not_mem_nil fun hin => ?_
    have hlt : i < c.capacity := hin.1
    have hvalid := hin.2
    simp [AetherCache.clear, hlt] at hvalid

/-- The empty cache. -/
theorem init {capacity : ℕ} (h : capacity < 2 ^ 64) : CacheOrder (.init capacity) [] := by
  refine ⟨⟨Ring.empty rfl rfl, fun i _ j => ?_⟩, fun i => ?_, rfl, List.nodup_nil, h⟩
  · exact ⟨fun heq => (nomatch heq), fun heq => (nomatch heq)⟩
  · exact iff_of_false List.not_mem_nil fun ⟨_, hvalid⟩ => (nomatch hvalid)

/-! ## Insertions -/

/-- The slot for a new page is outside of the order, in which there is room for it. -/
theorem findSlot (h : CacheOrder c order) (hpos : 0 < c.capacity) :
    ∃ i order', c.findSlot.2 = some i ∧ i < c.capacity ∧ i ∉ order' ∧
      CacheOrder c.findSlot.1 order' ∧ c.findSlot.1.capacity = c.capacity ∧
      c.findSlot.1.pages order' = Recency.room c.capacity (c.pages order) := by
  rw [AetherCache.findSlot]
  cases hfind : (List.range c.capacity).find? fun i => !(c.entries i).valid with
  | some i =>
    have hmem := List.mem_range.1 (List.mem_of_find?_eq_some hfind)
    have hinvalid : (c.entries i).valid = false := by simpa using List.find?_some hfind
    have hi : i ∉ order := fun hi => by simp [((h.mem_iff i).1 hi).2] at hinvalid
    refine ⟨i, order, rfl, hmem, hi, h, rfl, (Recency.room_of_lt ?_).symm⟩
    rw [pages, List.length_map]
    exact h.length_lt hmem hi
  | none =>
    have hsub : (List.range c.capacity).Subperm order :=
      List.subperm_of_subset List.nodup_range fun i hi => (h.mem_iff i).2
        ⟨List.mem_range.1 hi, by simpa using List.find?_eq_none.1 hfind i hi⟩
    have hfull : order.length = c.capacity :=
      Nat.le_antisymm h.length_le (by simpa using hsub.length_le)
    -- the last of the order is the tail
    rcases List.eq_nil_or_concat order with rfl | ⟨l, v, rfl⟩
    · exact absurd hfull (Nat.ne_of_lt hpos)
    · rw [List.concat_eq_append] at h hfull ⊢
      have hv : v ∈ l ++ [v] := List.mem_append_right _ (List.mem_singleton_self v)
      have htail : c.lruTail = some v := by
        have hring := h.links.ring
        rw [List.map_append, List.map_cons] at hring
        exact (linked_append.1 hring.linked).2.2
      have herase : (l ++ [v]).erase v = l := by
        rw [Ring.erase_middle h.nodup, List.append_nil]
      have hdiscard := h.discard hv
      rw [herase] at hdiscard
      rw [htail]
      refine ⟨v, l, rfl, ((h.mem_iff v).1 hv).1, fun hl => ?_, hdiscard,
        (SamePages.lruRemove c v).capacity, ?_⟩
      · exact (List.nodup_append.1 h.nodup).2.2 v hl v (List.mem_singleton_self v) rfl
      · rw [pages, pages, List.map_append, List.map_cons, List.map_nil, Recency.room_append]
        · exact c.pages_discard v l
        · rwa [List.length_append, List.length_map, List.length_singleton, ← List.length_concat,
            List.concat_eq_append]

/-- The slot of a new page comes to the front of the order. -/
theorem enter (h : CacheOrder c order) (hi : i ∉ order) (hlt : i < c.capacity)
    {f : CacheEntry → CacheEntry}
    (hf : ∀ e, (f e).lruNext = e.lruNext ∧ (f e).lruPrev = e.lruPrev ∧ (f e).valid = true)
    (hnew : Recency.find PageInfo.aetherAddr (f (c.entries i)).aetherAddr (c.pages order) = none) :
    CacheOrder (lruTouch { c.modify i f with count := u64 (c.count + 1) } i) (i :: order) ∧
      (lruTouch { c.modify i f with count := u64 (c.count + 1) } i).pages (i :: order) =
        (f (c.entries i)).info :: c.pages order := by
  obtain ⟨d, hd⟩ : ∃ d, d = { c.modify i f with count := u64 (c.count + 1) } := ⟨_, rfl⟩
  have hlinks : LruLinks d order := by
    rw [hd]
    exact h.links.congr (links_modify c i fun e => ⟨(hf e).1, (hf e).2.1⟩)
  have hself : d.entries i = f (c.entries i) := by
    rw [hd]
    exact Function.update_self _ _ _
  have hother : ∀ {j}, j ≠ i → d.entries j = c.entries j := fun {j} hj => by
    rw [hd]
    exact Function.update_of_ne hj _ _
  have hsame := SamePages.lruTouch d i
  have hcapacity : d.capacity = c.capacity := by rw [hd]; rfl
  have hroom := h.length_lt hlt hi
  have hpages : (d.lruTouch i).pages (i :: order) = (f (c.entries i)).info :: c.pages order := by
    rw [pages_same hsame, pages, List.map_cons, hself]
    refine congrArg _ (List.map_congr_left fun j hj => ?_)
    rw [hother (ne_of_mem_of_not_mem hj hi)]
  rw [← hd]
  refine ⟨⟨hlinks.touch_new hi, fun j => ?_, ?_, ?_, ?_⟩, hpages⟩
  · rw [hsame.capacity, hsame.valid, hcapacity]
    by_cases hj : j = i
    · rw [hj, hself, (hf _).2.2]
      exact iff_of_true List.mem_cons_self ⟨hlt, rfl⟩
    · rw [hother hj, List.mem_cons, or_iff_right hj, h.mem_iff]
  · have hbound := h.bound
    rw [hsame.count, hd]
    dsimp only
    rw [h.count, List.length_cons, u64_of_lt (by omega)]
  · rw [hpages]
    exact h.distinct.cons hnew
  · rw [hsame.capacity, hcapacity]
    exact h.bound

end CacheOrder

/-- What an insertion does to the pages of a cache, and the page that it returns. -/
def insertPage (bound : ℕ) (new : PageInfo) (clock : Bool) (l : List PageInfo) :
    List PageInfo × Option PageInfo :=
  match Recency.find PageInfo.aetherAddr new.aetherAddr l with
  | some old =>
    let old := { old with localPage := new.localPage, generation := new.generation, dirty := false }
    (old :: Recency.drop PageInfo.aetherAddr new.aetherAddr l, some old)
  | none =>
    if bound = 0 then (l, none)
    else if clock then (new :: Recency.room bound l, some new)
    else (Recency.room bound l, none)

namespace CacheOrder

open AetherCache

variable {c c' : AetherCache} {order order' : List ℕ} {i addr : ℕ}

/-- An older copy of the page is replaced. -/
theorem insert_found (h : CacheOrder c order) (hfind : c.lookup addr = some i) (page : Memory)
    (ownerNode generation : ℕ) (clock : Bool) :
    ∃ c', c.insert addr page ownerNode generation clock = (c', some i) ∧
      CacheOrder c' (i :: order.erase i) ∧ c'.capacity = c.capacity ∧
      (c'.entries i).info =
        { (c.entries i).info with localPage := page, generation := generation, dirty := false } ∧
      c'.pages (i :: order.erase i) = (c'.entries i).info ::
        Recency.drop PageInfo.aetherAddr (aetherPageAlign addr) (c.pages order) := by
  obtain ⟨hi, heq⟩ := h.lookup_some hfind
  obtain ⟨d, hd⟩ : ∃ d, d = c.modify i fun e =>
    { e with localPage := page, generation := generation, dirty := false } := ⟨_, rfl⟩
  have hmodify : CacheOrder d order := hd ▸ h.modify i fun _ => ⟨rfl, rfl, rfl, rfl⟩
  have hself : (d.entries i).info =
      { (c.entries i).info with localPage := page, generation := generation, dirty := false } := by
    rw [hd, entries_modify, if_pos rfl]
    rfl
  have hsame := SamePages.lruTouch d i
  refine ⟨d.lruTouch i, ?_, hmodify.touch hi, ?_, (hsame.info i).trans hself, ?_⟩
  · rw [AetherCache.insert, hfind, hd]
  · rw [hsame.capacity, hd]
    rfl
  · rw [pages_same hsame, pages, List.map_cons, ← hsame.info i, ← heq, ← h.pages_erase hi,
      ← pages, hd, pages_modify h.nodup.not_mem_erase]

/-- A new page comes to the front, for which the page used longest ago goes if the cache is full.
Without a clock for the new page, only that one goes. -/
theorem insert_missed (h : CacheOrder c order) (hfind : c.lookup addr = none)
    (hpos : 0 < c.capacity) (page : Memory) (ownerNode generation : ℕ) (clock : Bool) :
    ∃ c' slot order', c.insert addr page ownerNode generation clock = (c', slot) ∧
      CacheOrder c' order' ∧ c'.capacity = c.capacity ∧
      (c'.pages order', slot.map fun i => (c'.entries i).info) =
        if clock then (⟨aetherPageAlign addr, page, ownerNode, generation, false⟩ ::
            Recency.room c.capacity (c.pages order),
          some ⟨aetherPageAlign addr, page, ownerNode, generation, false⟩)
        else (Recency.room c.capacity (c.pages order), none) := by
  obtain ⟨i, order', hslot, hlt, hi, horder, hcapacity, hpages⟩ := h.findSlot hpos
  obtain ⟨f, hf⟩ : ∃ f : CacheEntry → CacheEntry, f = fun e =>
    { e with
      aetherAddr := aetherPageAlign addr
      localPage := page
      ownerNode := ownerNode
      generation := generation
      dirty := false
      valid := true } := ⟨_, rfl⟩
  have hinsert : c.insert addr page ownerNode generation clock =
      if clock then (lruTouch { c.findSlot.1.modify i f with
        count := u64 (c.findSlot.1.count + 1) } i, some i)
      else ((c.findSlot.1.modify i f).modify i fun e => { e with valid := false }, none) := by
    rw [AetherCache.insert, hfind]
    dsimp only
    rw [hslot, hf]
    rfl
  cases clock with
  | true =>
    have hnew : Recency.find PageInfo.aetherAddr (aetherPageAlign addr)
        (c.findSlot.1.pages order') = none := by
      refine Recency.find_eq_none.2 fun a ha => ?_
      rw [hpages] at ha
      refine Recency.find_eq_none.1 ?_ a (List.mem_of_mem_take ha)
      rw [h.find_pages, hfind, Option.map_none]
    obtain ⟨henter, hfront⟩ := horder.enter hi (hcapacity ▸ hlt) (f := f)
      (fun _ => hf ▸ ⟨rfl, rfl, rfl⟩) (hf ▸ hnew)
    refine ⟨_, some i, _, hinsert, henter, (SamePages.lruTouch _ i).capacity.trans hcapacity, ?_⟩
    subst hf
    rw [hpages] at hfront
    exact Prod.ext hfront (congrArg some (List.head_eq_of_cons_eq hfront))
  | false =>
    have hinvalid : (c.findSlot.1.entries i).valid = false := by
      by_contra hvalid
      exact hi ((horder.mem_iff i).2 ⟨hcapacity ▸ hlt, by simpa using hvalid⟩)
    refine ⟨_, none, order', hinsert, horder.revise ?_ rfl rfl (fun j => ?_) fun j hj => ?_,
      hcapacity, ?_⟩
    · obtain ⟨hnext, hprev⟩ := links_modify (c.findSlot.1.modify i f) i
        (f := fun e => { e with valid := false }) fun _ => ⟨rfl, rfl⟩
      obtain ⟨hnext', hprev'⟩ := links_modify c.findSlot.1 i (f := f) fun _ => hf ▸ ⟨rfl, rfl⟩
      exact ⟨hnext.trans hnext', hprev.trans hprev'⟩
    · rw [entries_modify]
      split
      · next hj => rw [hj, hinvalid]
      · next hj => rw [entries_modify, if_neg hj]
    · have hne := ne_of_mem_of_not_mem hj hi
      rw [entries_modify, if_neg hne, entries_modify, if_neg hne]
    · rw [pages_modify hi, pages_modify hi, hpages]
      rfl

/-- A cache without slots takes no page. -/
theorem insert_void (h : CacheOrder c order) (hfind : c.lookup addr = none)
    (hzero : c.capacity = 0) (page : Memory) (ownerNode generation : ℕ) (clock : Bool) :
    c.insert addr page ownerNode generation clock = (c, none) := by
  have hempty : order = [] := List.eq_nil_of_length_eq_zero (by have := h.length_le; omega)
  have hslot : c.findSlot = (c, none) := by
    rw [AetherCache.findSlot, hzero, h.links.tail_eq_none.2 hempty]
    rfl
  rw [AetherCache.insert, hfind]
  dsimp only
  rw [hslot]

/-- An insertion does to the pages of the cache what `insertPage` does, and returns the same. -/
theorem insert (h : CacheOrder c order) (addr : ℕ) (page : Memory) (ownerNode generation : ℕ)
    (clock : Bool) :
    ∃ c' slot order', c.insert addr page ownerNode generation clock = (c', slot) ∧
      CacheOrder c' order' ∧ c'.capacity = c.capacity ∧
      (c'.pages order', slot.map fun i => (c'.entries i).info) =
        insertPage c.capacity ⟨aetherPageAlign addr, page, ownerNode, generation, false⟩ clock
          (c.pages order) := by
  rw [insertPage, h.find_pages]
  cases hfind : c.lookup addr with
  | some i =>
    obtain ⟨c', heq, horder, hcapacity, hinfo, hpages⟩ :=
      h.insert_found hfind page ownerNode generation clock
    refine ⟨c', some i, _, heq, horder, hcapacity, ?_⟩
    rw [hpages, Option.map_some, hinfo]
    rfl
  | none =>
    rcases Nat.eq_zero_or_pos c.capacity with hzero | hpos
    · refine ⟨c, none, order, h.insert_void hfind hzero page ownerNode generation clock, h, rfl, ?_⟩
      simp [hzero]
    · rw [Option.map_none]
      dsimp only
      rw [if_neg (Nat.ne_of_gt hpos)]
      exact h.insert_missed hfind hpos page ownerNode generation clock

end CacheOrder

end Seraph
