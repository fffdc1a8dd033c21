import Seraph.KernelHeapSteps

/-!
# What the calls of the kernel heap do

A call that allocates fails or offers a new block, and a block that is given back is the only one
that is lost (`Holds.kmalloc`, `Holds.kcalloc`, `Holds.kfree`). The other blocks keep their bytes.
The pages that a call asks for must lie below the limit of the heap, and the size of a large block
must not wrap around, which the code does not check.
-/

namespace Seraph

open ByteMem Memory KMalloc

/-- The managers of pages give `n` pages to a call. -/
def PageAnswers.Grants (a : PageAnswers) (n : ℕ) : Prop :=
  a.granted = true ∧ ∀ i < n, a.mapped i = true

/-- The pages that `seraph_kmalloc` asks for. -/
def KMalloc.pagesWanted (k : KMalloc) (size : ℕ) : ℕ :=
  if size = 0 then 0
  else
    match kmallocSizeClassIndex size with
    | some idx => if (k.caches idx).partialSlabs = 0 then 1 else 0
    | none => largePages size

/-- The pages that `seraph_kmalloc` gets lie below `limit`. -/
def KMalloc.Fits (limit : ℕ) (k : KMalloc) (size : ℕ) (a : PageAnswers) : Prop :=
  k.pagesWanted size ≠ 0 → a.Grants (k.pagesWanted size) →
    k.heapEnd + k.pagesWanted size * 4096 ≤ limit

/-- The pages that `seraph_kmalloc` gets are enough for the block, and lie below `limit`. -/
def KMalloc.Served (limit : ℕ) (k : KMalloc) (size : ℕ) (a : PageAnswers) : Prop :=
  k.pagesWanted size ≠ 0 → a.Grants (k.pagesWanted size) →
    size + 4127 < 2 ^ 64 ∧ k.heapEnd + k.pagesWanted size * 4096 ≤ limit

/-- The bytes of the block that `seraph_kmalloc` gives for a size. -/
def KMalloc.blockBytes (size : ℕ) : ℕ :=
  match kmallocSizeClassIndex size with
  | some idx => kmallocSizeClass idx
  | none => largePages size * 4096 - LargeHeader.size

/-- The slabs after a call for `size` bytes : a heap that grew has a new one. -/
def newSlabs (k k' : KMalloc) (size : ℕ) (slabs : List (ℕ × ℕ)) : List (ℕ × ℕ) :=
  if k'.heapEnd = k.heapEnd then slabs
  else
    match kmallocSizeClassIndex size with
    | some idx => (k.heapEnd, idx) :: slabs
    | none => slabs

/-- The large blocks after a call for `size` bytes. -/
def newLarges (k k' : KMalloc) (size : ℕ) (larges : List ℕ) : List ℕ :=
  if k'.heapEnd = k.heapEnd then larges
  else
    match kmallocSizeClassIndex size with
    | some _ => larges
    | none => k.heapEnd :: larges

/-- A call for `size` bytes gives the block `ptr`, or fails. -/
structure Allocates (limit : ℕ) (k k' : KMalloc) (g g' : HeapShape) (size ptr : ℕ) : Prop where
  holds : Holds limit k' g'
  slabs : g'.slabs = newSlabs k k' size g.slabs
  larges : g'.larges.map Prod.fst = newLarges k k' size (g.larges.map Prod.fst)
  keeps : KeepsBlocks g k.mem k'.mem
  offered : ∀ p s, Offered g p s → Offered g' p s
  new : ptr ≠ voidU64 → (∀ s, ¬ Offered g ptr s) ∧
    ∃ n, Offered g' ptr n ∧ (size + 4127 < 2 ^ 64 → size ≤ n)

/-- The block `ptr` is given back. -/
structure Releases (limit : ℕ) (k k' : KMalloc) (g g' : HeapShape) (ptr : ℕ) : Prop where
  holds : Holds limit k' g'
  heapEnd : k'.heapEnd = k.heapEnd
  slabs : g'.slabs = g.slabs
  larges : g'.larges = g.larges
  keeps : KeepsBlocks g' k.mem k'.mem
  offered : ∀ p s, Offered g p s → p ≠ ptr → Offered g' p s

variable {limit : ℕ} {k k' : KMalloc} {g g' : HeapShape} {idx b size ptr : ℕ} {a : PageAnswers}

/-- The class of a size has room for it. -/
theorem sizeClassIndex_spec (h : kmallocSizeClassIndex size = some idx) :
    idx < kmallocNumSlabs ∧ size ≤ kmallocSizeClass idx := by
  unfold kmallocSizeClassIndex at h
  split_ifs at h
  all_goals
    cases h
    exact ⟨by decide, ‹size ≤ _›⟩

theorem KeepsBlocks.refl (g : HeapShape) (m : Memory) : KeepsBlocks g m m :=
  fun _ _ _ _ _ => rfl

/-- A call that fails. -/
theorem Holds.allocates_void (h : Holds limit k g) (size : ℕ) :
    Allocates limit k k g g size voidU64 where
  holds := h
  slabs := (if_pos rfl).symm
  larges := (if_pos rfl).symm
  keeps := .refl g k.mem
  offered := fun _ _ hoffered => hoffered
  new := fun hvoid => absurd rfl hvoid

/-- A free object is no block. -/
theorem Holds.not_offered (h : Holds limit k g) (hs : (b, idx) ∈ g.slabs) {o : ℕ}
    (ho : o ∈ g.free b) (s : ℕ) : ¬ Offered g o s := by
  intro hoffered
  have hpos := (h.bounds hoffered).2.1
  refine h.not_kept hoffered (x := o) ?_ (.inl ⟨_, hs, .inr ⟨o, ho, ?_⟩⟩)
  all_goals
    simp only [Region.mem_def]
    omega

/-- A slab with other free objects offers the objects that are in none of its lists. -/
theorem offered_withSlab {slabs : List (ℕ × ℕ)} {P F free : List ℕ} (hslabs : g.slabs ⊆ slabs)
    {p s : ℕ} (hoffered : Offered g p s)
    (hsub : ∀ i, (b, i) ∈ g.slabs → p ∈ free → p ∈ g.free b) :
    Offered (g.withSlab slabs idx b P F free) p s := by
  rcases hoffered with ⟨t, ht, hobject, hnot, hsize⟩ | hlarge
  · refine .inl ⟨t, hslabs ht, hobject, ?_, hsize⟩
    by_cases heq : t.1 = b
    · simp only [HeapShape.withSlab, heq, Function.update_self]
      exact fun hmem => hnot (heq ▸ hsub t.2 (heq ▸ ht) hmem)
    · simpa only [HeapShape.withSlab, Function.update_of_ne heq] using hnot
  · exact .inr hlarge

/-- Taking an object allocates it. -/
theorem Holds.allocates_object (h : Holds limit k g) (hs : (b, idx) ∈ g.slabs)
    (hclass : kmallocSizeClassIndex size = some idx) (hfree : g.free b ≠ []) :
    (k.takeObject idx b).1.heapEnd = k.heapEnd ∧
      ∃ g', Allocates limit k (k.takeObject idx b).1 g g' size (k.takeObject idx b).2 ∧
        Offered g' (k.takeObject idx b).2 (kmallocSizeClass idx) := by
  obtain ⟨o, rest, hcons⟩ := List.exists_cons_of_ne_nil hfree
  obtain ⟨hptr, hend, ⟨P, F, hnew⟩, hkeeps⟩ := h.takeObject hs hcons
  have hold := h.slabAt _ hs
  dsimp only at hold
  rw [hcons] at hold
  rw [hptr]
  have hblock : Offered (g.withSlab g.slabs idx b P F rest) o (kmallocSizeClass idx) := by
    refine .inl ⟨_, hs, hold.objects o List.mem_cons_self, ?_, rfl⟩
    simpa [HeapShape.withSlab] using (List.nodup_cons.1 hold.threads.nodup).1
  refine ⟨hend, _, ⟨hnew, (if_pos hend).symm, (if_pos hend).symm, hkeeps, fun p s hoffered =>
    offered_withSlab (List.Subset.refl _) hoffered fun _ _ hmem => ?_,
    fun _ => ⟨fun s => h.not_offered hs ?_ s, kmallocSizeClass idx, hblock,
    fun _ => (sizeClassIndex_spec hclass).2⟩⟩, hblock⟩
  · rw [hcons]
    exact List.mem_cons_of_mem _ hmem
  · rw [hcons]
    exact List.mem_cons_self

/-- An object of a new slab. -/
theorem Holds.allocates_newSlab (h : Holds limit k g)
    (hclass : kmallocSizeClassIndex size = some idx) (hgrants : a.Grants 1)
    (hfits : k.heapEnd + 4096 ≤ limit) :
    let k₁ := (k.slabAllocNew idx a).1
    (k.slabAllocNew idx a).2 = k.heapEnd ∧
      ∃ g', Allocates limit k (k₁.takeObject idx k.heapEnd).1 g g' size
          (k₁.takeObject idx k.heapEnd).2 ∧
        Offered g' (k₁.takeObject idx k.heapEnd).2 (kmallocSizeClass idx) := by
  obtain ⟨hidx, -⟩ := sizeClassIndex_spec hclass
  obtain ⟨hptr, hend, hnew, hkeeps⟩ :=
    h.slabAllocNew hidx hgrants.1 (hgrants.2 0 one_pos) hfits
  generalize (k.slabAllocNew idx a).1 = k₁ at hend hnew hkeeps ⊢
  have hsize := sizeClass_bounds hidx
  have hs : (k.heapEnd, idx) ∈ (g.newSlab idx k.heapEnd).slabs := List.mem_cons_self
  have hfree : (g.newSlab idx k.heapEnd).free k.heapEnd ≠ [] := by
    simpa [HeapShape.newSlab, HeapShape.withSlab] using slabObjects_ne_nil hsize.1 hsize.2
  have hoffered : ∀ p s, Offered g p s → Offered (g.newSlab idx k.heapEnd) p s := by
    refine fun p s hp => offered_withSlab (List.subset_cons_self _ _) hp fun i hi => ?_
    have hhigh := (h.slab _ hi).2.2.2
    dsimp only at hhigh
    omega
  obtain ⟨hend', g', hobject, hblock⟩ := hnew.allocates_object hs hclass hfree
  have hgrown : ¬ (k₁.takeObject idx k.heapEnd).1.heapEnd = k.heapEnd := by omega
  refine ⟨hptr, g', ⟨hobject.holds, ?_, ?_, hkeeps.trans fun p s hp => hobject.keeps p s
    (hoffered p s hp), fun p s hp => hobject.offered p s (hoffered p s hp), fun hvoid => ?_⟩,
    hblock⟩
  · rw [hobject.slabs, newSlabs, newSlabs, if_pos hend', if_neg hgrown, hclass]
    rfl
  · rw [hobject.larges, newLarges, newLarges, if_pos hend', if_neg hgrown, hclass]
    rfl
  · obtain ⟨hnot, hn⟩ := hobject.new hvoid
    exact ⟨fun s hp => hnot s (hoffered _ s hp), hn⟩

/-! ## Large blocks -/

theorem Holds.kept_lt (h : Holds limit k g) {x : ℕ} (hx : Kept g x) : x < k.heapEnd := by
  simp only [Kept, Region.mem_def, SlabHeader.size, LargeHeader.size] at hx
  rcases hx with ⟨s, hs, hhead | ⟨o, ho, hlink⟩⟩ | ⟨l, hl, hhead⟩
  · have hhigh := (h.slab s hs).2.2.2
    omega
  · obtain ⟨hidx, -, -, hhigh⟩ := h.slab s hs
    have hsize := (sizeClass_bounds hidx).1
    have hobj := ((h.slabAt s hs).objects o ho).bounds hsize
    omega
  · obtain ⟨hne, -, -, hhigh⟩ := h.large l hl
    omega

/-- The shape with new pages at the end. -/
def HeapShape.newLarge (g : HeapShape) (b n : ℕ) : HeapShape :=
  { g with larges := (b, n) :: g.larges }

/-- The heap grows by a large block. -/
theorem Holds.grow (h : Holds limit k g) {n : ℕ} (hn : n ≠ 0)
    (hfits : k.heapEnd + n * 4096 ≤ limit) {m : Memory}
    (hc : ChangesOnly [⟨k.heapEnd, n * 4096⟩] k.mem m)
    (hheader : m.get k.heapEnd LargeHeader.magic = largeHeaderMagic ∧
      m.get k.heapEnd LargeHeader.blockSize = n * 4096 - LargeHeader.size ∧
      m.get k.heapEnd LargeHeader.pages = n) :
    Holds limit { k with mem := m, heapEnd := k.heapEnd + n * 4096 }
      (g.newLarge k.heapEnd n) := by
  have hmod := h.end_mod
  have hbase := h.base_le
  have hsame := h.congr_mem (m := m) fun x hx => hc x fun r hr hmem => by
    have hlt := h.kept_lt hx
    rw [List.mem_singleton.1 hr] at hmem
    simp only [Region.mem_def] at hmem
    omega
  exact { hsame with
    end_mod := by dsimp only; omega
    end_le := hfits
    base_le := by dsimp only; omega
    slab := fun s hs => by
      obtain ⟨h1, h2, h3, h4⟩ := h.slab s hs
      exact ⟨h1, h2, h3, h4.trans (Nat.le_add_right _ _)⟩
    large := List.forall_mem_cons.2 ⟨⟨hn, hmod, hbase, le_rfl⟩, fun l hl => by
      obtain ⟨h1, h2, h3, h4⟩ := h.large l hl
      exact ⟨h1, h2, h3, h4.trans (Nat.le_add_right _ _)⟩⟩
    larges_apart := List.pairwise_cons.2 ⟨fun l hl => .inr (h.large l hl).2.2.2, h.larges_apart⟩
    slab_large := fun s hs => List.forall_mem_cons.2
      ⟨.inr (h.slab s hs).2.2.2, h.slab_large s hs⟩
    lists := fun i hi => (hsame.lists i hi).congr rfl rfl fun _ _ => ⟨rfl, rfl⟩
    header := List.forall_mem_cons.2 ⟨hheader, hsame.header⟩ }

/-- The header that `seraph_kmalloc_pages` writes. -/
theorem largeHeader_assign (m : Memory) (b : ℕ) {n : ℕ} (hn : n ≠ 0) (hlt : n * 4096 < 2 ^ 64) :
    let m' := m.assign b [(LargeHeader.magic, largeHeaderMagic),
      (LargeHeader.blockSize, 2 ^ 64 - LargeHeader.size + n * 4096), (LargeHeader.pages, n)]
    m'.get b LargeHeader.magic = largeHeaderMagic ∧
      m'.get b LargeHeader.blockSize = n * 4096 - LargeHeader.size ∧
      m'.get b LargeHeader.pages = n := by
  have hsize : (2 ^ 64 - LargeHeader.size + n * 4096) % 256 ^ 8 = n * 4096 - LargeHeader.size := by
    simp only [LargeHeader.size]
    omega
  have hpages : n % 256 ^ 8 = n := Nat.mod_eq_of_lt (by omega)
  simp (disch := decide) only [assign, get_set_apart, get_set_same]
  exact ⟨by decide, hsize, hpages⟩

/-- `seraph_kmalloc_pages` gives a block behind a new header. -/
theorem Holds.kmallocPages (h : Holds limit k g) {n : ℕ}
    (hfits : n ≠ 0 → a.Grants n → k.heapEnd + n * 4096 ≤ limit)
    (hclass : kmallocSizeClassIndex size = none)
    (hroom : size + 4127 < 2 ^ 64 → size + LargeHeader.size ≤ n * 4096) :
    ∃ g', Allocates limit k (k.kmallocPages n a).1 g g' size (k.kmallocPages n a).2 ∧
      ((k.kmallocPages n a).2 ≠ voidU64 →
        Offered g' (k.kmallocPages n a).2 (n * 4096 - LargeHeader.size)) := by
  unfold KMalloc.kmallocPages
  by_cases hn : n = 0
  · rw [if_pos (.inr hn)]
    exact ⟨g, h.allocates_void size, fun hvoid => absurd rfl hvoid⟩
  · rw [if_neg (by simp [h.initialized, hn])]
    by_cases hgrants : a.granted = true ∧ ∀ i < n, a.mapped i = true
    · rw [if_pos hgrants]
      have hle := hfits hn hgrants
      have hlimit := h.limit_lt
      have hbytes : u64 (n * 4096) = n * 4096 := u64_of_lt (by omega)
      have hend : u64 (k.heapEnd + n * 4096) = k.heapEnd + n * 4096 := u64_of_lt (by omega)
      have hptr : u64 (k.heapEnd + LargeHeader.size) = k.heapEnd + LargeHeader.size :=
        u64_of_lt (by simp only [LargeHeader.size]; omega)
      have hheader := largeHeader_assign (mapPages k.mem a.fresh k.heapEnd n) k.heapEnd hn
        (by omega)
      have hchanges : ChangesOnly [⟨k.heapEnd, n * 4096⟩] k.mem
          ((mapPages k.mem a.fresh k.heapEnd n).assign k.heapEnd
            [(LargeHeader.magic, largeHeaderMagic),
              (LargeHeader.blockSize, 2 ^ 64 - LargeHeader.size + n * 4096),
              (LargeHeader.pages, n)]) :=
        (changesOnly_mapPages k.mem a.fresh k.heapEnd n).comp (changesOnly_assign _ _ _ (by
          simp only [List.mem_cons, List.not_mem_nil, or_false, forall_eq_or_imp, forall_eq,
            StructField.Inside, LargeHeader.magic, LargeHeader.blockSize, LargeHeader.pages]
          omega))
      have hgrown : ¬ k.heapEnd + n * 4096 = k.heapEnd := by omega
      simp only [hbytes, hend, hptr]
      have hnew := h.grow hn hle hchanges hheader
      have hblock : Offered (g.newLarge k.heapEnd n) (k.heapEnd + LargeHeader.size)
          (n * 4096 - LargeHeader.size) :=
        .inr ⟨_, List.mem_cons_self, rfl, rfl⟩
      refine ⟨g.newLarge k.heapEnd n, ⟨hnew.counters _ _, ?_, ?_, h.keepsBlocks hchanges
        fun r hr x hx => .inr ?_, fun p s hp => ?_, fun _ => ⟨fun s hp => ?_,
        n * 4096 - LargeHeader.size, hblock, fun hlt => ?_⟩⟩, fun _ => hblock⟩
      · rw [newSlabs, if_neg hgrown, hclass]
        rfl
      · rw [newLarges, if_neg hgrown, hclass]
        rfl
      · rw [List.mem_singleton.1 hr] at hx
        exact hx.1
      · rcases hp with hp | ⟨l, hl, hrest⟩
        · exact .inl hp
        · exact .inr ⟨l, List.mem_cons_of_mem _ hl, hrest⟩
      · have hbounds := h.bounds hp
        simp only [LargeHeader.size] at hbounds
        omega
      · have hle := hroom hlt
        omega
    · rw [if_neg hgrants]
      exact ⟨g, h.allocates_void size, fun hvoid => absurd rfl hvoid⟩

/-! ## `seraph_kmalloc` -/

/-- The pages of a large block have room for it, where its size does not wrap around. -/
theorem largePages_room (hlt : size + 4127 < 2 ^ 64) :
    size + LargeHeader.size ≤ largePages size * 4096 := by
  have hsum : u64 (size + LargeHeader.size + 4095) = size + 4127 := u64_of_lt hlt
  rw [largePages, hsum]
  simp only [LargeHeader.size]
  omega

/-- The slabs that can give an object. -/
theorem Holds.partial_head (h : Holds limit k g) (hidx : idx < kmallocNumSlabs)
    (hne : (k.caches idx).partialSlabs ≠ 0) :
    ((k.caches idx).partialSlabs, idx) ∈ g.slabs ∧ g.free (k.caches idx).partialSlabs ≠ [] := by
  have hhead := (h.lists idx hidx).partialList.head_eq
  rw [← h.mem_partials idx hidx]
  cases hP : g.partials idx with
  | nil => exact absurd (by rw [hhead, hP]; rfl) hne
  | cons b P =>
    rw [hhead, hP]
    exact List.mem_cons_self

/-- `seraph_kmalloc` fails or gives a new block. -/
theorem Holds.kmalloc (h : Holds limit k g) (hfits : k.Fits limit size a) :
    ∃ g', Allocates limit k (k.kmalloc size a).1 g g' size (k.kmalloc size a).2 ∧
      ((k.kmalloc size a).2 ≠ voidU64 → Offered g' (k.kmalloc size a).2 (blockBytes size)) := by
  unfold KMalloc.kmalloc blockBytes
  unfold KMalloc.Fits KMalloc.pagesWanted at hfits
  by_cases hzero : size = 0
  · rw [if_pos (.inr hzero)]
    exact ⟨g, h.allocates_void size, fun hvoid => absurd rfl hvoid⟩
  · rw [if_neg (by simp [h.initialized, hzero])]
    rw [if_neg hzero] at hfits
    cases hclass : kmallocSizeClassIndex size with
    | none =>
      rw [hclass] at hfits
      exact h.kmallocPages hfits hclass largePages_room
    | some idx =>
      rw [hclass] at hfits
      dsimp only at hfits ⊢
      obtain ⟨hidx, -⟩ := sizeClassIndex_spec hclass
      by_cases hhead : (k.caches idx).partialSlabs = 0
      · rw [if_pos hhead] at hfits ⊢
        by_cases hgrants : a.Grants 1
        · obtain ⟨hptr, g', hnew, hblock⟩ :=
            h.allocates_newSlab hclass hgrants (hfits one_ne_zero hgrants)
          have hne : k.heapEnd ≠ 0 := by
            have hbase := h.base_le
            have hpos : 0 < kheapBase := by decide
            omega
          rw [hptr, if_neg hne]
          exact ⟨g', hnew, fun _ => hblock⟩
        · have hfail : k.slabAllocNew idx a = (k, 0) := by
            refine if_pos ?_
            by_contra hnot
            simp only [Bool.or_eq_true, Bool.not_eq_true', not_or, Bool.not_eq_false] at hnot
            exact hgrants ⟨hnot.1, fun i hi => by rw [Nat.lt_one_iff.1 hi]; exact hnot.2⟩
          rw [hfail, if_pos rfl]
          exact ⟨g, h.allocates_void size, fun hvoid => absurd rfl hvoid⟩
      · rw [if_neg hhead, if_neg hhead]
        obtain ⟨hs, hfree⟩ := h.partial_head hidx hhead
        obtain ⟨-, g', hnew, hblock⟩ := h.allocates_object hs hclass hfree
        exact ⟨g', hnew, fun _ => hblock⟩

/-- A call that gives a block had room for it. -/
theorem KMalloc.Served.no_wrap (h : k.Served limit size a)
    (hvoid : (k.kmalloc size a).2 ≠ voidU64) : size + 4127 < 2 ^ 64 := by
  unfold KMalloc.Served KMalloc.pagesWanted at h
  unfold KMalloc.kmalloc at hvoid
  split at hvoid
  · exact absurd rfl hvoid
  · next hstart =>
    rw [if_neg fun hzero => hstart (.inr hzero)] at h
    cases hclass : kmallocSizeClassIndex size with
    | none =>
      rw [hclass] at h hvoid
      dsimp only at h hvoid
      unfold KMalloc.kmallocPages at hvoid
      split at hvoid
      · exact absurd rfl hvoid
      · next hpages =>
        split at hvoid
        · next hgrants => exact (h (fun hzero => hpages (.inr hzero)) hgrants).1
        · exact absurd rfl hvoid
    | some idx =>
      obtain ⟨hidx, hle⟩ := sizeClassIndex_spec hclass
      have hmax := (sizeClass_bounds hidx).2
      omega

theorem KMalloc.Served.fits (h : k.Served limit size a) : k.Fits limit size a :=
  fun hne hgrants => (h hne hgrants).2

/-! ## `seraph_kfree` -/

/-- A call of `seraph_kfree` that does nothing. -/
theorem Holds.releases_none (h : Holds limit k g) (ptr : ℕ) : Releases limit k k g g ptr :=
  ⟨h, rfl, rfl, rfl, .refl g k.mem, fun _ _ hp _ => hp⟩

/-- `seraph_kfree` of a null pointer. -/
theorem kfree_null (hnull : ptr = 0 ∨ ptr = voidU64) : k.kfree ptr a = k :=
  if_pos (hnull.imp_right .inl)

/-- `seraph_kfree` gives a block back. -/
theorem Holds.kfree (h : Holds limit k g) (hblock : Offered g ptr size) :
    ∃ g', Releases limit k (k.kfree ptr a) g g' ptr := by
  obtain ⟨h0, hvoid, hlow, hhigh, hlt⟩ := h.ptr_spec hblock
  unfold KMalloc.kfree
  rw [if_neg (by simp [h0, hvoid, h.initialized]), if_pos ⟨hlow, hhigh⟩]
  rcases hblock with ⟨⟨b, idx⟩, hs, hobject, hnot, rfl⟩ | ⟨l, hl, rfl, rfl⟩
  · obtain ⟨hidx, hmod, -, -⟩ := h.slab _ hs
    have hsize := (sizeClass_bounds hidx).1
    have hobj := hobject.bounds hsize
    dsimp only at hmod hobj
    have hpage := Holds.getSlabFromObject_eq hmod (x := ptr) (by omega) (by omega) hlt
    simp only [hpage, if_neg (h.magic_ne hs)]
    obtain ⟨hend, P, F, hnew, hkeeps⟩ := h.putObject hs hobject hnot
    refine ⟨_, hnew, hend, rfl, rfl, hkeeps, fun p s hp hne =>
      offered_withSlab (List.Subset.refl _) hp fun i _ hmem => ?_⟩
    exact (List.mem_cons.1 hmem).resolve_left hne
  · have hmod := (h.large l hl).2.1
    have hpage := Holds.getSlabFromObject_eq hmod (x := l.1 + LargeHeader.size)
      (Nat.le_add_right _ _) (by simp only [LargeHeader.size]; omega) hlt
    simp only [hpage, if_pos (h.header l hl).1]
    unfold KMalloc.kfreePages
    split
    · exact ⟨g, h.releases_none _⟩
    · split
      · exact ⟨g, h.counters _ _, rfl, rfl, rfl, .refl g k.mem, fun _ _ hp _ => hp⟩
      · exact ⟨g, h.releases_none _⟩

/-! ## `seraph_kcalloc` and `seraph_krealloc` -/

/-- Writing into the new block. -/
theorem Allocates.write (h : Allocates limit k k' g g' size ptr) (hvoid : ptr ≠ voidU64) {n : ℕ}
    (hn : Offered g' ptr n) {m : Memory} (hc : ChangesOnly [⟨ptr, n⟩] k'.mem m) :
    Allocates limit k { k' with mem := m } g g' size ptr where
  holds := h.holds.write hn hc
  slabs := h.slabs
  larges := h.larges
  keeps := fun p s hp x hx => by
    have hne : p ≠ ptr := fun heq => (h.new hvoid).1 s (heq ▸ hp)
    have hapart := h.holds.blocks_apart (h.offered p s hp) hn hne
    rw [← h.keeps p s hp x hx]
    refine hc x fun r hr => ?_
    rw [List.mem_singleton.1 hr]
    exact hapart.not_mem hx
  offered := h.offered
  new := h.new

/-- A product that `seraph_kcalloc` accepts did not wrap around. -/
theorem kcalloc_total {count : ℕ} (hdiv : u64 (count * size) / count = size) :
    u64 (count * size) = count * size := by
  have hle : count * (u64 (count * size) / count) ≤ u64 (count * size) := Nat.mul_div_le _ _
  rw [hdiv] at hle
  exact le_antisymm (Nat.mod_le _ _) hle

/-- `seraph_kcalloc` fails or gives a new block. -/
theorem Holds.kcalloc (h : Holds limit k g) {count : ℕ}
    (hserved : count ≠ 0 → size ≠ 0 → u64 (count * size) / count = size →
      k.Served limit (count * size) a) :
    ∃ g', Allocates limit k (k.kcalloc count size a).1 g g' (count * size)
        (k.kcalloc count size a).2 ∧
      ((k.kcalloc count size a).2 ≠ voidU64 → count * size + 4127 < 2 ^ 64) := by
  unfold KMalloc.kcalloc
  split
  · exact ⟨g, h.allocates_void _, fun hvoid => absurd rfl hvoid⟩
  · next hzero =>
    obtain ⟨hcount, hsize⟩ := not_or.1 hzero
    by_cases hdiv : u64 (count * size) / count = size
    · have htotal := kcalloc_total hdiv
      have hserved := hserved hcount hsize hdiv
      rw [if_neg (by simp [hdiv]), htotal]
      obtain ⟨g', hnew, -⟩ := h.kmalloc hserved.fits
      by_cases hvoid : (k.kmalloc (count * size) a).2 = voidU64
      · rw [if_neg (by simp [hvoid])]
        exact ⟨g', hnew, fun hne => absurd hvoid hne⟩
      · rw [if_pos hvoid]
        obtain ⟨-, n, hn, hroom⟩ := hnew.new hvoid
        refine ⟨g', hnew.write hvoid hn ((changesOnly_fill _ _ _ _).mono fun r hr => ?_),
          hserved.no_wrap⟩
        rw [List.mem_singleton.1 hr]
        exact ⟨_, List.mem_singleton_self _, le_rfl,
          Nat.add_le_add_left (hroom (hserved.no_wrap hvoid)) _⟩
    · rw [if_pos hdiv]
      exact ⟨g, h.allocates_void _, fun hvoid => absurd rfl hvoid⟩

/-- A call for `size` bytes in place of the block `ptr` gives the block `new`, or fails. -/
structure Reallocates (limit : ℕ) (k k' : KMalloc) (g g' : HeapShape) (ptr size new : ℕ) :
    Prop where
  holds : Holds limit k' g'
  slabs : g'.slabs = newSlabs k k' size g.slabs
  larges : g'.larges.map Prod.fst = newLarges k k' size (g.larges.map Prod.fst)
  offered : ∀ p s, Offered g p s → p ≠ ptr ∨ new = voidU64 → Offered g' p s
  new : new ≠ voidU64 → (∀ p s, Offered g p s → p ≠ ptr → p ≠ new) ∧
    ∃ n, Offered g' new n ∧ size ≤ n

/-- `seraph_krealloc` fails or gives a block with the old contents. -/
theorem Holds.krealloc (h : Holds limit k g) {old : ℕ} (hblock : Offered g ptr old)
    (hsize : size ≠ 0) (hserved : old < size → k.Served limit size a) :
    ∃ g', Reallocates limit k (k.krealloc ptr size a).1 g g' ptr size (k.krealloc ptr size a).2 ∧
      ((k.krealloc ptr size a).2 ≠ voidU64 → SameBytes k.mem ptr (k.krealloc ptr size a).1.mem
        (k.krealloc ptr size a).2 (min old size)) := by
  obtain ⟨h0, hvoid, -⟩ := h.ptr_spec hblock
  have hpos := (h.bounds hblock).2.1
  have hrealloc : k.krealloc ptr size a = if size ≤ old then (k, ptr)
      else if (k.kmalloc size a).2 ≠ voidU64 then
        (KMalloc.kfree { (k.kmalloc size a).1 with
          mem := (k.kmalloc size a).1.mem.copy (k.kmalloc size a).2 ptr old } ptr a,
          (k.kmalloc size a).2)
      else k.kmalloc size a := by
    rw [KMalloc.krealloc, if_neg (by simp [h0, hvoid]), if_neg hsize, h.usableSize_eq hblock,
      if_neg hpos.ne']
  rw [hrealloc]
  by_cases hle : size ≤ old
  · rw [if_pos hle]
    exact ⟨g, ⟨h, (if_pos rfl).symm, (if_pos rfl).symm, fun _ _ hp _ => hp,
      fun _ => ⟨fun _ _ _ hne => hne, old, hblock, hle⟩⟩, fun _ => SameBytes.refl _ _ _⟩
  · rw [if_neg hle]
    have hserved := hserved (by omega)
    obtain ⟨g₁, hnew, -⟩ := h.kmalloc hserved.fits
    by_cases hfail : (k.kmalloc size a).2 = voidU64
    · rw [if_neg (by simp [hfail])]
      exact ⟨g₁, ⟨hnew.holds, hnew.slabs, hnew.larges, fun p s hp _ => hnew.offered p s hp,
        fun hne => absurd hfail hne⟩, fun hne => absurd hfail hne⟩
    · rw [if_pos hfail]
      have hlt := hserved.no_wrap hfail
      generalize k.kmalloc size a = r at hnew hfail ⊢
      obtain ⟨hfresh, n, hn, hroom⟩ := hnew.new hfail
      have hroom := hroom hlt
      have hne : r.2 ≠ ptr := fun heq => hfresh old (heq ▸ hblock)
      -- the old contents are copied, then the old block is given back
      have hcopied := hnew.write hfail hn ((changesOnly_copy r.1.mem r.2 ptr old).mono
        fun p hp => ⟨_, List.mem_singleton_self _, by
          rw [List.mem_singleton.1 hp]
          exact ⟨le_rfl, by dsimp only; omega⟩⟩)
      obtain ⟨g₂, hreleased⟩ := hcopied.holds.kfree (a := a) (hcopied.offered ptr old hblock)
      refine ⟨g₂, ⟨hreleased.holds, ?_, ?_, fun p s hp hp' => ?_, fun _ => ⟨fun p s hp _ heq => ?_,
        n, hreleased.offered _ _ hn hne, hroom⟩⟩, fun _ i hi => ?_⟩
      · rw [hreleased.slabs, hcopied.slabs, newSlabs, newSlabs, hreleased.heapEnd]
      · rw [hreleased.larges, hcopied.larges, newLarges, newLarges, hreleased.heapEnd]
      · exact hreleased.offered p s (hcopied.offered p s hp) (hp'.resolve_right hfail)
      · exact hfresh s (heq ▸ hp)
      · have hold : SameBytes k.mem ptr r.1.mem ptr old := fun i hi =>
          hnew.keeps ptr old hblock _ ⟨Nat.le_add_right _ _, Nat.add_lt_add_left hi _⟩
        have hi' : i < n := by omega
        rw [hreleased.keeps r.2 n (hreleased.offered _ _ hn hne) _
          ⟨Nat.le_add_right _ _, Nat.add_lt_add_left hi' _⟩]
        exact hold.copy r.2 i (by omega)

end Seraph
