import Mathlib.Data.List.Pairwise
import Seraph.KernelHeapSlabs

/-!
# The shape of the kernel heap

The pages of the heap are slabs and large blocks (`HeapShape`), and `Holds` says that the memory and
the caches have that shape : every slab has its list of free objects and is in the list of its size
class that it belongs to, and every large block has its header. What the heap gives out are the
objects in no free list and the large blocks (`Offered`); they are apart from each other and from
what the heap keeps for itself. Writing into such a block keeps the shape (`Holds.write`).
-/

namespace Seraph

open ByteMem Memory KMalloc

/-- The pages that are slabs, with their size classes, and those of large blocks, with their
numbers; the lists of the size classes, and the free objects of the slabs. -/
structure HeapShape where
  slabs : List (ℕ × ℕ)
  larges : List (ℕ × ℕ)
  partials : ℕ → List ℕ
  fulls : ℕ → List ℕ
  free : ℕ → List ℕ

/-- The pages of a large block. -/
def largeRegion (l : ℕ × ℕ) : Region :=
  ⟨l.1, l.2 * 4096⟩

/-- Two large blocks have no page in common. -/
def LargesApart (l l' : ℕ × ℕ) : Prop :=
  (largeRegion l).Disjoint (largeRegion l')

instance : Std.Symm LargesApart :=
  ⟨fun _ _ => Region.Disjoint.symm⟩

/-- The heap has the shape `g`, below `limit`. -/
structure Holds (limit : ℕ) (k : KMalloc) (g : HeapShape) : Prop where
  initialized : k.initialized = true
  sizes : ∀ idx, (k.caches idx).objectSize = kmallocSizeClass idx
  end_mod : k.heapEnd % 4096 = 0
  end_le : k.heapEnd ≤ limit
  limit_lt : limit < 2 ^ 64
  base_le : kheapBase ≤ k.heapEnd
  slab : ∀ s ∈ g.slabs,
    s.2 < kmallocNumSlabs ∧ s.1 % 4096 = 0 ∧ kheapBase ≤ s.1 ∧ s.1 + 4096 ≤ k.heapEnd
  large : ∀ l ∈ g.larges,
    l.2 ≠ 0 ∧ l.1 % 4096 = 0 ∧ kheapBase ≤ l.1 ∧ l.1 + l.2 * 4096 ≤ k.heapEnd
  slabs_apart : (g.slabs.map Prod.fst).Nodup
  larges_apart : g.larges.Pairwise LargesApart
  slab_large : ∀ s ∈ g.slabs, ∀ l ∈ g.larges, (largeRegion l).Disjoint ⟨s.1, 4096⟩
  lists : ∀ idx < kmallocNumSlabs, ClassLists k idx (g.partials idx) (g.fulls idx)
  mem_partials : ∀ idx < kmallocNumSlabs, ∀ b,
    b ∈ g.partials idx ↔ (b, idx) ∈ g.slabs ∧ g.free b ≠ []
  mem_fulls : ∀ idx < kmallocNumSlabs, ∀ b,
    b ∈ g.fulls idx ↔ (b, idx) ∈ g.slabs ∧ g.free b = []
  slabAt : ∀ s ∈ g.slabs, SlabAt k.mem s.1 (kmallocSizeClass s.2) (g.free s.1)
  header : ∀ l ∈ g.larges, k.mem.get l.1 LargeHeader.magic = largeHeaderMagic ∧
    k.mem.get l.1 LargeHeader.blockSize = l.2 * 4096 - LargeHeader.size ∧
    k.mem.get l.1 LargeHeader.pages = l.2

/-- The shape of a new heap. -/
def HeapShape.empty : HeapShape :=
  ⟨[], [], fun _ => [], fun _ => [], fun _ => []⟩

theorem holds_init {limit : ℕ} (mem : Memory) (hbase : kheapBase ≤ limit)
    (hlimit : limit < 2 ^ 64) : Holds limit (KMalloc.init mem) HeapShape.empty where
  initialized := rfl
  sizes := fun _ => rfl
  end_mod := show kheapBase % 4096 = 0 by decide
  end_le := hbase
  limit_lt := hlimit
  base_le := le_rfl
  slab := fun s hs => absurd hs List.not_mem_nil
  large := fun l hl => absurd hl List.not_mem_nil
  slabs_apart := List.nodup_nil
  larges_apart := List.Pairwise.nil
  slab_large := fun s hs => absurd hs List.not_mem_nil
  lists := fun _ _ => ⟨.empty mem, .empty mem, List.nodup_nil,
    fun b hb => absurd hb List.not_mem_nil⟩
  mem_partials := fun _ _ b => by simp [HeapShape.empty]
  mem_fulls := fun _ _ b => by simp [HeapShape.empty]
  slabAt := fun s hs => absurd hs List.not_mem_nil
  header := fun l hl => absurd hl List.not_mem_nil

/-- A block that is given out, with the number of bytes that it has. -/
def Offered (g : HeapShape) (ptr size : ℕ) : Prop :=
  (∃ s ∈ g.slabs, IsObject s.1 (kmallocSizeClass s.2) ptr ∧ ptr ∉ g.free s.1 ∧
      size = kmallocSizeClass s.2) ∨
    ∃ l ∈ g.larges, ptr = l.1 + LargeHeader.size ∧ size = l.2 * 4096 - LargeHeader.size

/-- The bytes that the heap keeps for itself : headers, and the links of free objects. -/
def Kept (g : HeapShape) (x : ℕ) : Prop :=
  (∃ s ∈ g.slabs, x ∈ Region.mk s.1 SlabHeader.size ∨ ∃ o ∈ g.free s.1, x ∈ Region.mk o 8) ∨
    ∃ l ∈ g.larges, x ∈ Region.mk l.1 LargeHeader.size

/-- The size of a class. -/
theorem sizeClass_bounds {idx : ℕ} (h : idx < kmallocNumSlabs) :
    16 ≤ kmallocSizeClass idx ∧ kmallocSizeClass idx ≤ 2048 := by
  have hall : ∀ idx < kmallocNumSlabs,
      16 ≤ kmallocSizeClass idx ∧ kmallocSizeClass idx ≤ 2048 := by decide
  exact hall idx h

variable {limit : ℕ} {k : KMalloc} {g : HeapShape}

namespace Holds

/-- A page is a slab of one size class. -/
theorem slab_unique (h : Holds limit k g) {s t : ℕ × ℕ} (hs : s ∈ g.slabs) (ht : t ∈ g.slabs)
    (heq : s.1 = t.1) : s = t :=
  List.inj_on_of_nodup_map h.slabs_apart hs ht heq

/-- The shape depends on the bytes that the heap keeps for itself. -/
theorem congr_mem (h : Holds limit k g) {m : Memory} (hm : ∀ x, Kept g x → m x = k.mem x) :
    Holds limit { k with mem := m } g := by
  have hslab : ∀ s ∈ g.slabs, ∀ f : StructField, f.Inside SlabHeader.size →
      m.get s.1 f = k.mem.get s.1 f := by
    intro s hs f hf
    refine load_congr fun x hx => hm x (.inl ⟨s, hs, .inl ?_⟩)
    simp only [Region.mem_def, StructField.Inside] at hx hf ⊢
    omega
  have hlarge : ∀ l ∈ g.larges, ∀ f : StructField, f.Inside LargeHeader.size →
      m.get l.1 f = k.mem.get l.1 f := by
    intro l hl f hf
    refine load_congr fun x hx => hm x (.inr ⟨l, hl, ?_⟩)
    simp only [Region.mem_def, StructField.Inside] at hx hf ⊢
    omega
  refine { h with lists := fun idx hidx => ?_, slabAt := fun s hs => ?_, header := fun l hl => ?_ }
  · have hlinks : ∀ b, (b, idx) ∈ g.slabs → m.get b SlabHeader.next = k.mem.get b SlabHeader.next ∧
        m.get b SlabHeader.prev = k.mem.get b SlabHeader.prev := fun b hb =>
      ⟨hslab _ hb _ (by decide), hslab _ hb _ (by decide)⟩
    exact (h.lists idx hidx).congr rfl rfl fun b hb => hlinks b <| (List.mem_append.1 hb).elim
      (fun hb => ((h.mem_partials idx hidx b).1 hb).1) fun hb => ((h.mem_fulls idx hidx b).1 hb).1
  · refine (h.slabAt s hs).congr (fun x h1 h2 => hm x (.inl ⟨s, hs, .inl ?_⟩))
      fun o ho x h1 h2 => hm x (.inl ⟨s, hs, .inr ⟨o, ho, h1, h2⟩⟩)
    simp only [Region.mem_def, SlabHeader.size]
    omega
  · simp only [hlarge l hl _ (show LargeHeader.magic.Inside _ by decide),
      hlarge l hl _ (show LargeHeader.blockSize.Inside _ by decide),
      hlarge l hl _ (show LargeHeader.pages.Inside _ by decide)]
    exact h.header l hl

end Holds

/-! ## Blocks -/

namespace Holds

/-- A block lies behind a header, in the pages of the heap. -/
theorem bounds (h : Holds limit k g) {ptr size : ℕ} (hblock : Offered g ptr size) :
    kheapBase + 32 ≤ ptr ∧ 0 < size ∧ ptr + size ≤ k.heapEnd := by
  rcases hblock with ⟨s, hs, hobject, -, rfl⟩ | ⟨l, hl, rfl, rfl⟩
  · obtain ⟨hidx, -, hlow, hhigh⟩ := h.slab s hs
    have hsize := (sizeClass_bounds hidx).1
    have hobj := hobject.bounds hsize
    omega
  · obtain ⟨hne, -, hlow, hhigh⟩ := h.large l hl
    simp only [LargeHeader.size]
    omega

/-- Two blocks are apart. -/
theorem blocks_apart (h : Holds limit k g) {p q size size' : ℕ} (hp : Offered g p size)
    (hq : Offered g q size') (hne : p ≠ q) : (Region.mk p size).Disjoint ⟨q, size'⟩ := by
  simp only [Region.Disjoint]
  rcases hp with ⟨s, hs, hobject, -, rfl⟩ | ⟨l, hl, rfl, rfl⟩
  · obtain ⟨hidx, hmod, -, -⟩ := h.slab s hs
    have hobj := hobject.bounds (sizeClass_bounds hidx).1
    rcases hq with ⟨t, ht, hobject', -, rfl⟩ | ⟨l, hl, rfl, rfl⟩
    · obtain ⟨hidx', hmod', -, -⟩ := h.slab t ht
      have hobj' := hobject'.bounds (sizeClass_bounds hidx').1
      by_cases heq : s.1 = t.1
      · obtain rfl := h.slab_unique hs ht heq
        exact hobject.apart hobject' hne
      · omega
    · have hd := h.slab_large s hs l hl
      simp only [Region.Disjoint, largeRegion, LargeHeader.size] at hd ⊢
      omega
  · rcases hq with ⟨t, ht, hobject', -, rfl⟩ | ⟨l', hl', rfl, rfl⟩
    · have hobj' := hobject'.bounds (sizeClass_bounds (h.slab t ht).1).1
      have hd := h.slab_large t ht l hl
      simp only [Region.Disjoint, largeRegion, LargeHeader.size] at hd ⊢
      omega
    · have hll : l ≠ l' := fun heq => hne (by rw [heq])
      have hd := h.larges_apart.forall hl hl' hll
      simp only [LargesApart, Region.Disjoint, largeRegion, LargeHeader.size] at hd ⊢
      omega

/-- A block has no byte that the heap keeps. -/
theorem not_kept (h : Holds limit k g) {ptr size x : ℕ} (hblock : Offered g ptr size)
    (hx : x ∈ Region.mk ptr size) : ¬ Kept g x := by
  simp only [Kept, Region.mem_def, SlabHeader.size, LargeHeader.size] at hx ⊢
  rcases hblock with ⟨s, hs, hobject, hnot, rfl⟩ | ⟨l, hl, rfl, rfl⟩
  · obtain ⟨hidx, hmod, -, -⟩ := h.slab s hs
    have hobj := hobject.bounds (sizeClass_bounds hidx).1
    rintro (⟨t, ht, hhead | ⟨o, ho, hlink⟩⟩ | ⟨l, hl, hhead⟩)
    · have hmod' := (h.slab t ht).2.1
      omega
    · have hobject' := (h.slabAt t ht).objects o ho
      have hobj' := hobject'.bounds (sizeClass_bounds (h.slab t ht).1).1
      have hmod' := (h.slab t ht).2.1
      by_cases heq : s.1 = t.1
      · obtain rfl := h.slab_unique hs ht heq
        have hapart := hobject.apart hobject' fun heq => hnot (heq ▸ ho)
        have hsize := (sizeClass_bounds hidx).1
        omega
      · have hsize := (sizeClass_bounds (h.slab t ht).1).1
        omega
    · have hd := h.slab_large s hs l hl
      have hne := (h.large l hl).1
      simp only [Region.Disjoint, largeRegion] at hd
      omega
  · simp only [LargeHeader.size] at hx
    rintro (⟨t, ht, hhead | ⟨o, ho, hlink⟩⟩ | ⟨l', hl', hhead⟩)
    · have hd := h.slab_large t ht l hl
      simp only [Region.Disjoint, largeRegion] at hd
      omega
    · have hsize := (sizeClass_bounds (h.slab t ht).1).1
      have hobj' := ((h.slabAt t ht).objects o ho).bounds hsize
      have hd := h.slab_large t ht l hl
      simp only [Region.Disjoint, largeRegion] at hd
      omega
    · by_cases heq : l = l'
      · subst heq
        omega
      · have hd := h.larges_apart.forall hl hl' heq
        have hne := (h.large l' hl').1
        simp only [LargesApart, Region.Disjoint, largeRegion] at hd
        omega

/-- Writing into a block keeps the shape. -/
theorem write (h : Holds limit k g) {ptr size : ℕ} (hblock : Offered g ptr size) {m : Memory}
    (hm : ChangesOnly [⟨ptr, size⟩] k.mem m) : Holds limit { k with mem := m } g := by
  refine h.congr_mem fun x hx => hm x fun r hr => ?_
  rw [List.mem_singleton.1 hr]
  exact fun hmem => h.not_kept hblock hmem hx

/-- A slab is in one of the lists of its class. -/
theorem mem_lists (h : Holds limit k g) {s : ℕ × ℕ} (hs : s ∈ g.slabs) :
    s.1 ∈ g.partials s.2 ++ g.fulls s.2 := by
  have hidx := (h.slab s hs).1
  rw [List.mem_append, h.mem_partials s.2 hidx, h.mem_fulls s.2 hidx]
  by_cases hfree : g.free s.1 = []
  · exact .inr ⟨hs, hfree⟩
  · exact .inl ⟨hs, hfree⟩

theorem mem_slabs (h : Holds limit k g) {idx b : ℕ} (hidx : idx < kmallocNumSlabs)
    (hb : b ∈ g.partials idx ++ g.fulls idx) : (b, idx) ∈ g.slabs :=
  (List.mem_append.1 hb).elim (fun hb => ((h.mem_partials idx hidx b).1 hb).1)
    fun hb => ((h.mem_fulls idx hidx b).1 hb).1

/-- The header of a slab is not taken for that of a large block. -/
theorem magic_ne (h : Holds limit k g) {s : ℕ × ℕ} (hs : s ∈ g.slabs) :
    k.mem.get s.1 LargeHeader.magic ≠ largeHeaderMagic := by
  have hidx := (h.slab s hs).1
  have hlists := h.lists s.2 hidx
  have hlink : ∀ b ∈ 0 :: (g.partials s.2 ++ g.fulls s.2), b ≠ largeHeaderMagic := by
    intro b hb
    rcases List.mem_cons.1 hb with rfl | hb
    · decide
    · have hlow := (h.slab _ (h.mem_slabs hidx hb)).2.2.1
      simp only [kheapBase, largeHeaderMagic] at hlow ⊢
      omega
  have hnext : k.mem.get s.1 SlabHeader.next ∈ 0 :: (g.partials s.2 ++ g.fulls s.2) := by
    rcases List.mem_append.1 (h.mem_lists hs) with hmem | hmem
    · exact List.cons_subset_cons _ (List.subset_append_left _ _)
        (hlists.partialList.links_mem hmem).1
    · exact List.cons_subset_cons _ (List.subset_append_right _ _)
        (hlists.fullList.links_mem hmem).1
  exact hlink _ hnext

/-- The page of an address. -/
theorem getSlabFromObject_eq {b x : ℕ} (hb : b % 4096 = 0) (hlow : b ≤ x) (hhigh : x < b + 4096)
    (hx : x < 2 ^ 64) : getSlabFromObject x = b := by
  have hclear : getSlabFromObject x = x / 4096 * 4096 := and_clear_low (k := 12) hx (by norm_num)
  omega

/-- A block is no null pointer, and in the heap. -/
theorem ptr_spec (h : Holds limit k g) {ptr size : ℕ} (hblock : Offered g ptr size) :
    ptr ≠ 0 ∧ ptr ≠ voidU64 ∧ kheapBase ≤ ptr ∧ ptr < k.heapEnd ∧ ptr < 2 ^ 64 := by
  have hbounds := h.bounds hblock
  have hle := h.end_le
  have hlt := h.limit_lt
  have hvoid : voidU64 = 2 ^ 64 - 1 := rfl
  have hbase : 0 < kheapBase := by decide
  omega

theorem usableSize_eq (h : Holds limit k g) {ptr size : ℕ} (hblock : Offered g ptr size) :
    k.usableSize ptr = size := by
  obtain ⟨h0, hvoid, hlow, hhigh, hlt⟩ := h.ptr_spec hblock
  rw [usableSize, if_neg (by simp [h0, hvoid, h.initialized]), if_neg (by omega)]
  rcases hblock with ⟨s, hs, hobject, -, rfl⟩ | ⟨l, hl, rfl, rfl⟩
  · obtain ⟨hidx, hmod, -, -⟩ := h.slab s hs
    have hobj := hobject.bounds (sizeClass_bounds hidx).1
    have hsize := (sizeClass_bounds hidx).1
    rw [getSlabFromObject_eq hmod (by omega) (by omega) hlt]
    simp only [if_neg (h.magic_ne hs)]
    exact (h.slabAt s hs).objectSize
  · have hmod := (h.large l hl).2.1
    rw [getSlabFromObject_eq hmod (Nat.le_add_right _ _) (by simp only [LargeHeader.size]; omega)
      hlt]
    simp only [if_pos (h.header l hl).1]
    exact (h.header l hl).2.1

end Holds

end Seraph
