import Seraph.ByteMemory
import Seraph.Words

/-!
# The kernel heap

`seraph_kmalloc` takes small blocks from slabs, pages of one size class with a header of 32 bytes,
and large ones from whole pages behind a header of their own. A slab keeps its free objects in a
list that is threaded through them, and a size class keeps its slabs in two doubly linked lists,
those with free objects and the full ones.

The heap is in one virtual memory. What the managers of physical and virtual pages answer to a call
is a parameter of the call (`PageAnswers`) : whether the pages are granted and mapped, and what
new pages hold.
-/

namespace Seraph

open ByteMem Memory

/-- `SERAPH_KHEAP_BASE`. -/
def kheapBase : ℕ :=
  0xFFFFC00000000000

/-- `SERAPH_KSTACK_BASE`. -/
def kstackBase : ℕ :=
  0xFFFFD00000000000

/-- `heap_max` : 4 GB are left for stacks. -/
def heapMax : ℕ :=
  kstackBase - 0x100000000

/-- `SERAPH_KMALLOC_NUM_SLABS`. -/
def kmallocNumSlabs : ℕ :=
  8

/-- `SERAPH_KMALLOC_SIZE_CLASS`. -/
def kmallocSizeClass (idx : ℕ) : ℕ :=
  16 <<< idx

/-- `seraph_kmalloc_size_class_index`, where `none` is -1. -/
def kmallocSizeClassIndex (size : ℕ) : Option ℕ :=
  if size ≤ 16 then some 0
  else if size ≤ 32 then some 1
  else if size ≤ 64 then some 2
  else if size ≤ 128 then some 3
  else if size ≤ 256 then some 4
  else if size ≤ 512 then some 5
  else if size ≤ 1024 then some 6
  else if size ≤ 2048 then some 7
  else none

/-- `seraph_kmalloc_round_size`. -/
def kmallocRoundSize (size : ℕ) : ℕ :=
  if size ≤ 16 then 16
  else if size ≤ 32 then 32
  else if size ≤ 64 then 64
  else if size ≤ 128 then 128
  else if size ≤ 256 then 256
  else if size ≤ 512 then 512
  else if size ≤ 1024 then 1024
  else if size ≤ 2048 then 2048
  else u64 (size + 4095) &&& (2 ^ 64 - 1 - 4095)

/-! ### Fields of `Seraph_Slab`. -/

namespace SlabHeader

/-- `next`. -/
def next : StructField := ⟨0, 8⟩

/-- `prev`. -/
def prev : StructField := ⟨8, 8⟩

/-- `free_list`. -/
def freeList : StructField := ⟨16, 8⟩

/-- `object_size`. -/
def objectSize : StructField := ⟨24, 2⟩

/-- `object_count`. -/
def objectCount : StructField := ⟨26, 2⟩

/-- `free_count`. -/
def freeCount : StructField := ⟨28, 2⟩

/-- `flags`. -/
def flags : StructField := ⟨30, 2⟩

/-- `sizeof(Seraph_Slab)`. -/
def size : ℕ := 32

end SlabHeader

/-! ### Fields of `Seraph_LargeHeader`. -/

namespace LargeHeader

/-- `magic`. -/
def magic : StructField := ⟨0, 8⟩

/-- `size`. -/
def blockSize : StructField := ⟨8, 8⟩

/-- `pages`. -/
def pages : StructField := ⟨16, 8⟩

/-- `sizeof(Seraph_LargeHeader)`. -/
def size : ℕ := 32

end LargeHeader

/-- `Seraph_SlabFreeObject` is its link. -/
def freeObjectNext : StructField :=
  ⟨0, 8⟩

/-- `LARGE_HEADER_MAGIC`. -/
def largeHeaderMagic : ℕ :=
  0x4C41524745484452

/-- `Seraph_SlabCache`, with the lists `partial` and `full` by their first slabs. -/
structure SlabCache where
  partialSlabs : ℕ
  fullSlabs : ℕ
  objectSize : ℕ
  slabCount : ℕ
  allocCount : ℕ
  freeCount : ℕ

/-- `Seraph_KMalloc`, and the memory it lives in. -/
structure KMalloc where
  mem : Memory
  caches : ℕ → SlabCache
  heapEnd : ℕ
  largeAllocCount : ℕ
  totalAllocated : ℕ
  initialized : Bool

/-- The answers to one call : of `seraph_pmm_alloc_page` or `seraph_pmm_alloc_pages`, of
`seraph_vmm_map` for each page in turn, of `seraph_vmm_virt_to_phys`, and the bytes of a page that
has been mapped. -/
structure PageAnswers where
  granted : Bool
  mapped : ℕ → Bool
  translated : Bool
  fresh : Memory

/-- The address of the page of an object. -/
def getSlabFromObject (obj : ℕ) : ℕ :=
  obj &&& (2 ^ 64 - 1 - 0xFFF)

/-- `slab_object_area`. -/
def slabObjectArea (slab : ℕ) : ℕ :=
  u64 (slab + SlabHeader.size + 15) &&& (2 ^ 64 - 1 - 15)

/-- `slab_objects_per_page`. -/
def slabObjectsPerPage (objectSize : ℕ) : ℕ :=
  u16 ((4096 - SlabHeader.size - 16) / objectSize)

/-- New pages in the memory. -/
def mapPages (m fresh : Memory) (virt count : ℕ) : Memory :=
  fun x => if virt ≤ x ∧ x < virt + count * 4096 then fresh x else m x

/-- Object `i` comes to the end of the free list, behind `prev` if that is not null. -/
def linkObject (slab objectSize : ℕ) (s : Memory × ℕ) (i : ℕ) : Memory × ℕ :=
  let obj := u64 (slabObjectArea slab + i * objectSize)
  let m := s.1.set obj freeObjectNext 0
  (if s.2 ≠ 0 then m.set s.2 freeObjectNext obj else m.set slab SlabHeader.freeList obj, obj)

/-- The header and the free list of a new slab. -/
def initSlab (m : Memory) (slab objectSize : ℕ) : Memory :=
  let m := (m.fill slab SlabHeader.size 0).assign slab [(SlabHeader.objectSize, objectSize),
    (SlabHeader.objectCount, slabObjectsPerPage objectSize)]
  let m := m.assign slab [(SlabHeader.freeCount, m.get slab SlabHeader.objectCount),
    (SlabHeader.flags, 0)]
  ((List.range (m.get slab SlabHeader.objectCount)).foldl (linkObject slab objectSize) (m, 0)).1

/-- The slab comes in front of a list. -/
def pushSlab (m : Memory) (head slab : ℕ) : Memory :=
  let m := m.set slab SlabHeader.next head
  let m := m.set slab SlabHeader.prev 0
  if head ≠ 0 then m.set head SlabHeader.prev slab else m

/-- The neighbours of a slab in its list are joined. -/
def unlinkSlab (m : Memory) (slab : ℕ) : Memory :=
  let m := if m.get slab SlabHeader.prev ≠ 0 then
    m.set (m.get slab SlabHeader.prev) SlabHeader.next (m.get slab SlabHeader.next) else m
  if m.get slab SlabHeader.next ≠ 0 then
    m.set (m.get slab SlabHeader.next) SlabHeader.prev (m.get slab SlabHeader.prev)
  else m

namespace KMalloc

variable (k : KMalloc)

/-- The cache of a size class. -/
def setCache (idx : ℕ) (cache : SlabCache) : KMalloc :=
  { k with caches := Function.update k.caches idx cache }

/-- `seraph_kmalloc_init`. -/
def init (mem : Memory) : KMalloc where
  mem := mem
  caches := fun idx => ⟨0, 0, kmallocSizeClass idx, 0, 0, 0⟩
  heapEnd := kheapBase
  largeAllocCount := 0
  totalAllocated := 0
  initialized := true

/-- `slab_alloc_new`. A null slab is 0. Where the page is not mapped, `heap_end` goes back to where
it was. -/
def slabAllocNew (idx : ℕ) (a : PageAnswers) : KMalloc × ℕ :=
  if !a.granted || !a.mapped 0 then (k, 0)
  else
    let cache := k.caches idx
    let slab := k.heapEnd
    let m := initSlab (mapPages k.mem a.fresh slab 1) slab cache.objectSize
    let k := { k with mem := pushSlab m cache.partialSlabs slab, heapEnd := u64 (k.heapEnd + 4096) }
    (k.setCache idx { cache with partialSlabs := slab, slabCount := u32 (cache.slabCount + 1) },
      slab)

/-- `slab_alloc_object`. -/
def slabAllocObject (slab : ℕ) : KMalloc × ℕ :=
  if slab = 0 ∨ k.mem.get slab SlabHeader.freeList = 0 then (k, voidU64)
  else
    let obj := k.mem.get slab SlabHeader.freeList
    let m := k.mem.set slab SlabHeader.freeList (k.mem.get obj freeObjectNext)
    let m := m.set slab SlabHeader.freeCount (2 ^ 16 - 1 + m.get slab SlabHeader.freeCount)
    ({ k with mem := m }, obj)

/-- `slab_free_object`. -/
def slabFreeObject (slab obj : ℕ) : KMalloc :=
  if slab = 0 ∨ obj = 0 then k
  else
    let m := k.mem.set obj freeObjectNext (k.mem.get slab SlabHeader.freeList)
    let m := m.set slab SlabHeader.freeList obj
    { k with mem := m.set slab SlabHeader.freeCount (m.get slab SlabHeader.freeCount + 1) }

/-- `slab_update_list`. -/
def slabUpdateList (idx slab : ℕ) : KMalloc :=
  let m := unlinkSlab k.mem slab
  let cache := k.caches idx
  let cache := if cache.partialSlabs = slab then
    { cache with partialSlabs := m.get slab SlabHeader.next } else cache
  let cache := if cache.fullSlabs = slab then
    { cache with fullSlabs := m.get slab SlabHeader.next } else cache
  if m.get slab SlabHeader.freeCount = 0 then
    { k with mem := pushSlab m cache.fullSlabs slab }.setCache idx { cache with fullSlabs := slab }
  else
    { k with mem := pushSlab m cache.partialSlabs slab }.setCache idx
      { cache with partialSlabs := slab }

/-- `seraph_kmalloc_pages`. Where a page is not mapped, those before it are unmapped and `heap_end`
goes back to where it was. -/
def kmallocPages (pageCount : ℕ) (a : PageAnswers) : KMalloc × ℕ :=
  if !k.initialized ∨ pageCount = 0 then (k, voidU64)
  else if a.granted = true ∧ ∀ i < pageCount, a.mapped i = true then
    let virt := k.heapEnd
    let m := (mapPages k.mem a.fresh virt pageCount).assign virt
      [(LargeHeader.magic, largeHeaderMagic),
        (LargeHeader.blockSize, 2 ^ 64 - LargeHeader.size + u64 (pageCount * 4096)),
        (LargeHeader.pages, pageCount)]
    ({ k with
      mem := m
      heapEnd := u64 (k.heapEnd + pageCount * 4096)
      largeAllocCount := u64 (k.largeAllocCount + 1)
      totalAllocated := u64 (k.totalAllocated + pageCount * 4096) },
      u64 (virt + LargeHeader.size))
  else (k, voidU64)

/-- The pages of a large block. -/
def largePages (size : ℕ) : ℕ :=
  u64 (size + LargeHeader.size + 4095) / 4096

/-- An object of a slab that has one. -/
def takeObject (idx slab : ℕ) : KMalloc × ℕ :=
  let r := k.slabAllocObject slab
  if r.2 = voidU64 then r
  else
    let k := if r.1.mem.get slab SlabHeader.freeCount = 0 then r.1.slabUpdateList idx slab
      else r.1
    let cache := k.caches idx
    ({ k with totalAllocated := u64 (k.totalAllocated + cache.objectSize) }.setCache idx
      { cache with allocCount := u64 (cache.allocCount + 1) }, r.2)

/-- `seraph_kmalloc`. -/
def kmalloc (size : ℕ) (a : PageAnswers) : KMalloc × ℕ :=
  if !k.initialized ∨ size = 0 then (k, voidU64)
  else
    match kmallocSizeClassIndex size with
    | some idx =>
      let slab := (k.caches idx).partialSlabs
      let r := if slab = 0 then k.slabAllocNew idx a else (k, slab)
      if r.2 = 0 then (r.1, voidU64) else r.1.takeObject idx r.2
    | none => k.kmallocPages (largePages size) a

/-- `seraph_kcalloc`. -/
def kcalloc (count size : ℕ) (a : PageAnswers) : KMalloc × ℕ :=
  if count = 0 ∨ size = 0 then (k, voidU64)
  else
    let total := u64 (count * size)
    if total / count ≠ size then (k, voidU64)
    else
      let r := k.kmalloc total a
      if r.2 ≠ voidU64 then ({ r.1 with mem := r.1.mem.fill r.2 total 0 }, r.2) else r

/-- `seraph_kfree_pages`. Unmapped pages keep their place in the address space. -/
def kfreePages (ptr pageCount : ℕ) (a : PageAnswers) : KMalloc :=
  if ptr = 0 ∨ ptr = voidU64 ∨ !k.initialized ∨ pageCount = 0 then k
  else if a.translated then
    { k with
      largeAllocCount := u64 (2 ^ 64 - 1 + k.largeAllocCount)
      totalAllocated := u64 (2 ^ 64 - u64 (pageCount * 4096) + k.totalAllocated) }
  else k

/-- The object goes back to its slab. -/
def putObject (ptr : ℕ) : KMalloc :=
  let slab := getSlabFromObject ptr
  let wasFull := k.mem.get slab SlabHeader.freeCount = 0
  let k := k.slabFreeObject slab ptr
  let k := if wasFull then
      match kmallocSizeClassIndex (k.mem.get slab SlabHeader.objectSize) with
      | some idx =>
        let k := k.slabUpdateList idx slab
        let cache := k.caches idx
        k.setCache idx { cache with freeCount := u64 (cache.freeCount + 1) }
      | none => k
    else k
  let size := kmallocRoundSize (k.mem.get slab SlabHeader.objectSize)
  { k with totalAllocated := u64 (2 ^ 64 - size + k.totalAllocated) }

/-- `seraph_kfree`. -/
def kfree (ptr : ℕ) (a : PageAnswers) : KMalloc :=
  if ptr = 0 ∨ ptr = voidU64 ∨ !k.initialized then k
  else if kheapBase ≤ ptr ∧ ptr < k.heapEnd then
    let header := getSlabFromObject ptr
    if k.mem.get header LargeHeader.magic = largeHeaderMagic then
      k.kfreePages header (k.mem.get header LargeHeader.pages) a
    else k.putObject ptr
  else k

/-- `seraph_kmalloc_usable_size`. -/
def usableSize (ptr : ℕ) : ℕ :=
  if ptr = 0 ∨ ptr = voidU64 ∨ !k.initialized then 0
  else if ptr < kheapBase ∨ k.heapEnd ≤ ptr then 0
  else
    let header := getSlabFromObject ptr
    if k.mem.get header LargeHeader.magic = largeHeaderMagic then
      k.mem.get header LargeHeader.blockSize
    else k.mem.get header SlabHeader.objectSize

/-- `seraph_krealloc`. -/
def krealloc (ptr newSize : ℕ) (a : PageAnswers) : KMalloc × ℕ :=
  if ptr = 0 ∨ ptr = voidU64 then k.kmalloc newSize a
  else if newSize = 0 then (k.kfree ptr a, voidU64)
  else
    let oldSize := k.usableSize ptr
    if oldSize = 0 then (k, voidU64)
    else if newSize ≤ oldSize then (k, ptr)
    else
      let r := k.kmalloc newSize a
      if r.2 ≠ voidU64 then
        ({ r.1 with mem := r.1.mem.copy r.2 ptr oldSize }.kfree ptr a, r.2)
      else r

/-- The bytes that `seraph_kmalloc_aligned` asks for where the alignment is above 16. -/
def alignedTotal (size align : ℕ) : ℕ :=
  u64 (size + align + 8)

/-- `((void**)ptr)[-1]` is at this address. -/
def rawAddress (ptr : ℕ) : ℕ :=
  u64 (2 ^ 64 - 8 + ptr)

/-- `seraph_kmalloc_aligned`. The block itself is remembered in front of the address it returns, but
not where the alignment is at most 16. -/
def kmallocAligned (size align : ℕ) (a : PageAnswers) : KMalloc × ℕ :=
  if !k.initialized ∨ size = 0 ∨ align = 0 then (k, voidU64)
  else if align &&& (align - 1) ≠ 0 then (k, voidU64)
  else if align ≤ 16 then k.kmalloc size a
  else
    let r := k.kmalloc (alignedTotal size align) a
    if r.2 = voidU64 then (r.1, voidU64)
    else
      let aligned := alignUp (u64 (r.2 + 8)) align
      ({ r.1 with mem := r.1.mem.store (rawAddress aligned) 8 r.2 }, aligned)

/-- `seraph_kfree_aligned`. -/
def kfreeAligned (ptr : ℕ) (a : PageAnswers) : KMalloc :=
  if ptr = 0 ∨ ptr = voidU64 then k else k.kfree (k.mem.load (rawAddress ptr) 8) a

/-- The pages of a DMA block. -/
def dmaPages (size : ℕ) : ℕ :=
  u64 (size + 4095) / 4096

/-- `seraph_kmalloc_dma`, with a place for the physical address. -/
def kmallocDma (size : ℕ) (a : PageAnswers) : KMalloc × ℕ :=
  if !k.initialized ∨ size = 0 then (k, voidU64)
  else if a.granted = true ∧ ∀ i < dmaPages size, a.mapped i = true then
    ({ k with
      mem := mapPages k.mem a.fresh k.heapEnd (dmaPages size)
      heapEnd := u64 (k.heapEnd + dmaPages size * 4096) }, k.heapEnd)
  else (k, voidU64)

/-- `seraph_kfree_dma`. -/
def kfreeDma (ptr size : ℕ) (a : PageAnswers) : KMalloc :=
  if ptr = 0 ∨ ptr = voidU64 ∨ size = 0 then k else k.kfreePages ptr (dmaPages size) a

/-- One list of `seraph_kmalloc_verify`, whose slabs must satisfy a test on `free_count`, with a
bound on its length. -/
def verifyList (objectSize : ℕ) (test : ℕ → Bool) : (fuel slab : ℕ) → Option Bool
  | 0, _ => none
  | fuel + 1, slab =>
    if slab = 0 then some true
    else if k.mem.get slab SlabHeader.objectSize ≠ objectSize then some false
    else if !test (k.mem.get slab SlabHeader.freeCount) then some false
    else verifyList objectSize test fuel (k.mem.get slab SlabHeader.next)

/-- The two lists of a size class. -/
def verifyCache (fuel idx : ℕ) : Option Bool := do
  let cache := k.caches idx
  let partialOk ← k.verifyList cache.objectSize (fun n => n ≠ 0) fuel cache.partialSlabs
  if !partialOk then return false
  k.verifyList cache.objectSize (fun n => n = 0) fuel cache.fullSlabs

/-- `seraph_kmalloc_verify`, with a bound on the lengths of the lists. -/
def verify (fuel : ℕ) : Option Bool :=
  if !k.initialized then some false
  else (List.range kmallocNumSlabs).foldlM
    (fun ok idx => if ok then k.verifyCache fuel idx else some false) true

end KMalloc

end Seraph
