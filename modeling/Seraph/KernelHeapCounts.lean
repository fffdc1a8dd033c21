import Seraph.KernelHeapCalls

/-!
# The counters of the kernel heap

What the calls do to `total_allocated` and `large_alloc_count`. A call that gives a block adds its
size class, or the bytes of its pages and one large block (`kmalloc_counters`); a call of
`seraph_kfree` for such a block takes the same away (`Holds.kfree_counters`).
-/

namespace Seraph

open ByteMem Memory KMalloc

variable {limit : ℕ} {k k' : KMalloc} {g : HeapShape} {idx b size ptr : ℕ} {a : PageAnswers}

namespace KMalloc

/-- Two heaps with the same counters. -/
structure SameCounters (k k' : KMalloc) : Prop where
  total : k'.totalAllocated = k.totalAllocated
  large : k'.largeAllocCount = k.largeAllocCount
  sizes : ∀ i, (k'.caches i).objectSize = (k.caches i).objectSize

theorem SameCounters.refl (k : KMalloc) : SameCounters k k :=
  ⟨rfl, rfl, fun _ => rfl⟩

theorem SameCounters.trans {k'' : KMalloc} (h : SameCounters k k') (h' : SameCounters k' k'') :
    SameCounters k k'' :=
  ⟨h'.total.trans h.total, h'.large.trans h.large, fun i => (h'.sizes i).trans (h.sizes i)⟩

theorem sameCounters_setCache (k : KMalloc) (m : Memory) {c : SlabCache}
    (hsize : c.objectSize = (k.caches idx).objectSize) :
    SameCounters k ({ k with mem := m }.setCache idx c) := by
  refine ⟨rfl, rfl, fun i => ?_⟩
  by_cases hi : i = idx
  · subst hi
    simp [setCache, hsize]
  · simp [setCache, Function.update_of_ne hi]

theorem sameCounters_slabUpdateList (k : KMalloc) (idx slab : ℕ) :
    SameCounters k (k.slabUpdateList idx slab) := by
  unfold slabUpdateList
  dsimp only
  split
  · refine sameCounters_setCache k _ ?_
    split_ifs <;> rfl
  · refine sameCounters_setCache k _ ?_
    split_ifs <;> rfl

theorem sameCounters_slabAllocObject (k : KMalloc) (slab : ℕ) :
    SameCounters k (k.slabAllocObject slab).1 := by
  unfold slabAllocObject
  split
  · exact .refl k
  · exact ⟨rfl, rfl, fun _ => rfl⟩

theorem sameCounters_slabAllocNew (k : KMalloc) (idx : ℕ) (a : PageAnswers) :
    SameCounters k (k.slabAllocNew idx a).1 := by
  unfold slabAllocNew
  split
  · exact .refl k
  · dsimp only
    refine ⟨rfl, rfl, fun i => ?_⟩
    by_cases hi : i = idx
    · subst hi
      simp [setCache]
    · simp [setCache, Function.update_of_ne hi]

/-- A call that returns `ptr` has counted a block of `bytes` bytes, or none if it has failed. -/
structure Counts (k k' : KMalloc) (ptr bytes : ℕ) (large : Bool) : Prop where
  failed : ptr = voidU64 → k'.totalAllocated = k.totalAllocated ∧
    k'.largeAllocCount = k.largeAllocCount
  gave : ptr ≠ voidU64 → k'.totalAllocated = u64 (k.totalAllocated + bytes) ∧
    k'.largeAllocCount = if large then u64 (k.largeAllocCount + 1) else k.largeAllocCount

theorem counts_void (h : SameCounters k k') {bytes : ℕ} {large : Bool} :
    Counts k k' voidU64 bytes large :=
  ⟨fun _ => ⟨h.total, h.large⟩, fun hne => absurd rfl hne⟩

theorem takeObject_counters (k : KMalloc) (idx slab : ℕ) :
    Counts k (k.takeObject idx slab).1 (k.takeObject idx slab).2 (k.caches idx).objectSize
      false := by
  have htake := sameCounters_slabAllocObject k slab
  unfold takeObject
  dsimp only
  generalize k.slabAllocObject slab = r at htake
  split
  · next hvoid =>
    rw [hvoid]
    exact counts_void htake
  · next hvoid =>
    have hboth : SameCounters k (if r.1.mem.get slab SlabHeader.freeCount = 0 then
        r.1.slabUpdateList idx slab else r.1) := by
      split
      · exact htake.trans (sameCounters_slabUpdateList r.1 idx slab)
      · exact htake
    generalize (if r.1.mem.get slab SlabHeader.freeCount = 0 then
      r.1.slabUpdateList idx slab else r.1) = k₁ at hboth
    refine ⟨fun heq => absurd heq hvoid, fun _ => ⟨?_, hboth.large⟩⟩
    rw [← hboth.sizes idx, ← hboth.total]
    rfl

theorem kmallocPages_counters (hmod : k.heapEnd % 4096 = 0) (n : ℕ) (a : PageAnswers) :
    Counts k (k.kmallocPages n a).1 (k.kmallocPages n a).2 (n * 4096) true := by
  unfold kmallocPages
  split
  · exact counts_void (.refl k)
  · split
    · refine ⟨fun heq => ?_, fun _ => ⟨rfl, rfl⟩⟩
      simp only [u64, LargeHeader.size, voidU64] at heq
      omega
    · exact counts_void (.refl k)

/-- The bytes that `seraph_kmalloc` adds to `total_allocated` for a size, and whether it counts a
large block. -/
def countedBytes (size : ℕ) : ℕ × Bool :=
  match kmallocSizeClassIndex size with
  | some idx => (kmallocSizeClass idx, false)
  | none => (largePages size * 4096, true)

theorem kmalloc_counters (hsizes : ∀ i, (k.caches i).objectSize = kmallocSizeClass i)
    (hmod : k.heapEnd % 4096 = 0) (size : ℕ) (a : PageAnswers) :
    Counts k (k.kmalloc size a).1 (k.kmalloc size a).2 (countedBytes size).1
      (countedBytes size).2 := by
  unfold kmalloc countedBytes
  split
  · exact counts_void (.refl k)
  · cases hclass : kmallocSizeClassIndex size with
    | none => exact kmallocPages_counters hmod _ a
    | some idx =>
      dsimp only
      have hnew := sameCounters_slabAllocNew k idx a
      split
      · split
        · exact counts_void hnew
        · have htake := takeObject_counters (k.slabAllocNew idx a).1 idx (k.slabAllocNew idx a).2
          rw [hnew.sizes, hsizes] at htake
          refine ⟨fun heq => ?_, fun hne => ?_⟩
          · rw [← hnew.total, ← hnew.large]
            exact htake.failed heq
          · rw [← hnew.total, ← hnew.large]
            exact htake.gave hne
      · rw [← hsizes idx]
        exact takeObject_counters k idx _

end KMalloc

/-- The counters after a call of `seraph_kfree` for a block of `bytes` bytes. -/
structure Uncounts (k k' : KMalloc) (bytes : ℕ) (large : Bool) : Prop where
  total : k'.totalAllocated = u64 (2 ^ 64 - bytes + k.totalAllocated)
  large : k'.largeAllocCount = if large then u64 (2 ^ 64 - 1 + k.largeAllocCount)
    else k.largeAllocCount

theorem sameCounters_slabFreeObject (k : KMalloc) (slab obj : ℕ) :
    SameCounters k (k.slabFreeObject slab obj) := by
  unfold slabFreeObject
  split
  · exact .refl k
  · exact ⟨rfl, rfl, fun _ => rfl⟩

/-- The object goes back, with the lists as they are then. -/
def putBack (k : KMalloc) (ptr : ℕ) : KMalloc :=
  let slab := getSlabFromObject ptr
  let k' := k.slabFreeObject slab ptr
  if k.mem.get slab SlabHeader.freeCount = 0 then
    match kmallocSizeClassIndex (k'.mem.get slab SlabHeader.objectSize) with
    | some idx =>
      let k' := k'.slabUpdateList idx slab
      k'.setCache idx { k'.caches idx with freeCount := u64 ((k'.caches idx).freeCount + 1) }
    | none => k'
  else k'

theorem sameCounters_putBack (k : KMalloc) (ptr : ℕ) : SameCounters k (putBack k ptr) := by
  have hfree := sameCounters_slabFreeObject k (getSlabFromObject ptr) ptr
  unfold putBack
  dsimp only
  generalize k.slabFreeObject (getSlabFromObject ptr) ptr = k₁ at hfree
  split
  · cases kmallocSizeClassIndex (k₁.mem.get (getSlabFromObject ptr) SlabHeader.objectSize) with
    | none => exact hfree
    | some idx =>
      have hlist := sameCounters_slabUpdateList k₁ idx (getSlabFromObject ptr)
      dsimp only
      generalize k₁.slabUpdateList idx (getSlabFromObject ptr) = k₂ at hlist
      exact (hfree.trans hlist).trans (sameCounters_setCache k₂ k₂.mem rfl)
  · exact hfree

theorem putObject_eq (k : KMalloc) (ptr : ℕ) :
    k.putObject ptr = { putBack k ptr with
      totalAllocated := u64 (2 ^ 64 - kmallocRoundSize ((putBack k ptr).mem.get
        (getSlabFromObject ptr) SlabHeader.objectSize) + (putBack k ptr).totalAllocated) } :=
  rfl

/-- `seraph_kfree` of an object of a slab. -/
theorem Holds.putObject_counters (h : Holds limit k g) (hs : (b, idx) ∈ g.slabs) {o : ℕ}
    (hobject : IsObject b (kmallocSizeClass idx) o) (hnot : o ∉ g.free b) :
    Uncounts k (k.putObject o) (kmallocSizeClass idx) false := by
  obtain ⟨hidx, hmod, -, hhigh⟩ := h.slab _ hs
  have hobj := hobject.bounds (sizeClass_bounds hidx).1
  have hend := h.end_le
  have hlimit := h.limit_lt
  dsimp only at hmod hhigh
  have hpage : getSlabFromObject o = b :=
    Holds.getSlabFromObject_eq hmod (by omega) (by omega) (by omega)
  obtain ⟨-, P, F, hnew, -⟩ := h.putObject hs hobject hnot
  have hslab := (hnew.slabAt (b, idx) hs).objectSize
  have hround : kmallocRoundSize (kmallocSizeClass idx) = kmallocSizeClass idx := by
    have hall : ∀ i < kmallocNumSlabs,
        kmallocRoundSize (kmallocSizeClass i) = kmallocSizeClass i := by
      decide
    exact hall idx hidx
  have hsame := sameCounters_putBack k o
  rw [putObject_eq, hpage] at hslab ⊢
  dsimp only at hslab
  rw [hslab, hround]
  exact ⟨by rw [← hsame.total], hsame.large⟩

/-- `seraph_kfree` of a block that the heap has given out. -/
theorem Holds.kfree_counters (h : Holds limit k g) (hblock : Offered g ptr size)
    (htranslated : a.translated = true) :
    Uncounts k (k.kfree ptr a) (if size ≤ 2048 then size else size + LargeHeader.size)
      (decide (2048 < size)) := by
  obtain ⟨h0, hvoid, hlow, hhigh, hlt⟩ := h.ptr_spec hblock
  unfold KMalloc.kfree
  rw [if_neg (by simp [h0, hvoid, h.initialized]), if_pos ⟨hlow, hhigh⟩]
  rcases hblock with ⟨⟨b, idx⟩, hs, hobject, hnot, rfl⟩ | ⟨l, hl, rfl, rfl⟩
  · obtain ⟨hidx, hmod, -, -⟩ := h.slab _ hs
    obtain ⟨hmin, hmax⟩ := sizeClass_bounds hidx
    have hobj := hobject.bounds hmin
    dsimp only at hmod hobj
    have hpage := Holds.getSlabFromObject_eq hmod (x := ptr) (by omega) (by omega) hlt
    simp only [hpage, if_neg (h.magic_ne hs), if_pos hmax, decide_eq_false (Nat.not_lt.2 hmax)]
    exact h.putObject_counters hs hobject hnot
  · obtain ⟨hne, hmod, hbase, hend⟩ := h.large l hl
    have hpage := Holds.getSlabFromObject_eq hmod (x := l.1 + LargeHeader.size)
      (Nat.le_add_right _ _) (by simp only [LargeHeader.size]; omega) hlt
    have hle := h.end_le
    have hlimit := h.limit_lt
    have hbytes : l.2 * 4096 - LargeHeader.size + LargeHeader.size = l.2 * 4096 := by
      simp only [LargeHeader.size]
      omega
    have hbig : 2048 < l.2 * 4096 - LargeHeader.size := by
      simp only [LargeHeader.size]
      omega
    have hpages : u64 (l.2 * 4096) = l.2 * 4096 := u64_of_lt (by omega)
    simp only [hpage, if_pos (h.header l hl).1, (h.header l hl).2.2, if_neg (Nat.not_le.2 hbig),
      hbytes, decide_eq_true hbig]
    rw [kfreePages, if_neg (by
      have hpos : 0 < kheapBase := by decide
      have hmax : voidU64 = 2 ^ 64 - 1 := rfl
      simp only [h.initialized, Bool.not_true, Bool.false_eq_true, false_or, not_or]
      omega), if_pos htranslated, hpages]
    exact ⟨rfl, rfl⟩

end Seraph
