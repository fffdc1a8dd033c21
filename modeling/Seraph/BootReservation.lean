import Seraph.PhysicalMemory

/-!
# Boot reservation

`seraph_pmm_init` places the bitmap in the primordial arena with all bits set, clears the bits of
the usable regions of the memory map, and sets those of the first megabyte, the kernel, the
stack, the arena and the framebuffer. Base and size of a range are rounded to pages apart from
each other, so a range that starts inside a page may end in one more page than is counted, and a
range that starts below the managed pages is not seen at all.

`clear_iff` gives the pages left free by the map and the reservations alone. From it,
`left_free_iff` : the free pages lie in usable memory and outside the ranges exactly where what
the roundings leave out is not free.
-/

namespace Seraph

open Bitmap Loops

/-- `Seraph_Memory_Descriptor`, as far as the memory manager reads it. -/
structure MemoryDescriptor where
  type : ℕ
  physStart : ℕ
  pageCount : ℕ
deriving DecidableEq, Repr

/-- `Seraph_BootInfo`, as far as the memory manager reads it. The memory map is the list of its
`memory_map_count` descriptors. -/
structure BootInfo where
  framebufferBase : ℕ
  framebufferSize : ℕ
  memoryMap : List MemoryDescriptor
  kernelPhysBase : ℕ
  kernelSize : ℕ
  stackPhys : ℕ
  stackSize : ℕ
  primordialArenaPhys : ℕ
  primordialArenaSize : ℕ
deriving DecidableEq, Repr

/-- `SERAPH_MEM_LOADER_CODE`. -/
def memLoaderCode : ℕ :=
  1

/-- `SERAPH_MEM_LOADER_DATA`. -/
def memLoaderData : ℕ :=
  2

/-- `SERAPH_MEM_BOOT_SERVICES`. -/
def memBootServices : ℕ :=
  3

/-- `SERAPH_MEM_CONVENTIONAL`. -/
def memConventional : ℕ :=
  7

/-- `pmm_is_usable_memory`. -/
def pmmIsUsableMemory (type : ℕ) : Bool :=
  type == memLoaderCode || type == memLoaderData || type == memBootServices ||
    type == memConventional

namespace Pmm

/-- One descriptor in the search for the lowest and the highest address. -/
def spanRound (s : ℕ × ℕ) (desc : MemoryDescriptor) : ℕ × ℕ :=
  let start := desc.physStart
  let stop := u64 (start + u64 (desc.pageCount * pmmPageSize))
  (if start < s.1 then start else s.1, if s.2 < stop then stop else s.2)

/-- The lowest and the highest address of the map, at page boundaries. -/
def span (info : BootInfo) : ℕ × ℕ :=
  let s := info.memoryMap.foldl spanRound (voidU64, 0)
  (pmmPageDown s.1, pmmPageDown (u64 (s.2 + pmmPageSize - 1)))

/-- The number of pages from the lowest address to the highest. -/
def spanPages (info : BootInfo) : ℕ :=
  u64 (2 ^ 64 - (span info).1 + (span info).2) >>> pmmPageShift

/-- The bytes of the bitmap, a multiple of 8. -/
def bitmapBytes (info : BootInfo) : ℕ :=
  u64 (u64 (spanPages info + 7) / 8 + 7) &&& (2 ^ 64 - 1 - 7)

/-- Free the pages of a descriptor whose type is usable. -/
def freeRound (p : Pmm) (desc : MemoryDescriptor) : Pmm :=
  if pmmIsUsableMemory desc.type then p.markFree desc.physStart desc.pageCount else p

/-- Reserve the first megabyte. -/
def reserveLow (p : Pmm) : Pmm :=
  if p.baseAddress < 0x100000 then
    p.markAllocated p.baseAddress ((0x100000 - p.baseAddress) >>> pmmPageShift)
  else p

/-- The number of pages for a size. -/
def sizePages (size : ℕ) : ℕ :=
  u64 (size + pmmPageSize - 1) >>> pmmPageShift

/-- Reserve a range of the boot info. -/
def reserve (p : Pmm) (base size : ℕ) : Pmm :=
  if base ≠ 0 ∧ size ≠ 0 then p.markAllocated base (sizePages size) else p

/-- The state with the bitmap placed in the arena, which held the words `arena` : all pages are
allocated. -/
def placed (info : BootInfo) (arena : Words pmmBitsPerWord) : Pmm where
  bitmap := fun w => if w < bitmapBytes info / 8 then BitVec.allOnes 64 else arena w
  totalPages := spanPages info
  freePages := 0
  baseAddress := (span info).1
  lastAlloc := 0

/-- `seraph_pmm_init`. It gives nothing where the bitmap finds no place. -/
def init (info : BootInfo) (arena : Words pmmBitsPerWord) : Option Pmm :=
  if bitmapBytes info > info.primordialArenaSize ∨ info.primordialArenaPhys = 0 then none
  else
    let p := info.memoryMap.foldl freeRound (placed info arena)
    let p := p.reserveLow
    let p := p.reserve info.kernelPhysBase info.kernelSize
    let p := p.reserve info.stackPhys info.stackSize
    let p := p.reserve info.primordialArenaPhys info.primordialArenaSize
    let p := p.reserve info.framebufferBase info.framebufferSize
    some p

end Pmm

/-! ## What must be kept -/

/-- Two descriptors have no byte in common. -/
def MemoryDescriptor.Apart (d e : MemoryDescriptor) : Prop :=
  d.physStart + d.pageCount * pmmPageSize ≤ e.physStart ∨
    e.physStart + e.pageCount * pmmPageSize ≤ d.physStart ∨ d.pageCount = 0 ∨ e.pageCount = 0

instance : Std.Symm MemoryDescriptor.Apart :=
  ⟨fun d e h => by unfold MemoryDescriptor.Apart at h ⊢; omega⟩

instance : DecidableRel MemoryDescriptor.Apart :=
  fun _ _ => inferInstanceAs (Decidable (_ ∨ _))

namespace BootInfo

variable (info : BootInfo)

/-- The ranges in use, as address and size. -/
def ranges : List (ℕ × ℕ) :=
  [(info.kernelPhysBase, info.kernelSize), (info.stackPhys, info.stackSize),
    (info.primordialArenaPhys, info.primordialArenaSize),
    (info.framebufferBase, info.framebufferSize)]

/-- The descriptors do not overlap, and nothing wraps around. -/
structure WellFormed : Prop where
  map : ∀ d ∈ info.memoryMap, d.physStart < 2 ^ 64 ∧
    d.physStart + d.pageCount * pmmPageSize ≤ 2 ^ 64
  disjoint : info.memoryMap.Pairwise MemoryDescriptor.Apart
  ranges : ∀ r ∈ info.ranges, r.1 < 2 ^ 64 ∧ r.1 + r.2 ≤ 2 ^ 64

/-- Every page left free lies in a usable descriptor, and none of its bytes is in the first
megabyte or in a range in use. -/
def LeavesUsable (p : Pmm) : Prop :=
  ∀ i < p.totalPages, p.bitmapTest i = false →
    (∃ d ∈ info.memoryMap, pmmIsUsableMemory d.type = true ∧
      d.physStart ≤ p.baseAddress + i * pmmPageSize ∧
      p.baseAddress + i * pmmPageSize + pmmPageSize ≤ d.physStart + d.pageCount * pmmPageSize) ∧
    ∀ x, p.baseAddress + i * pmmPageSize ≤ x →
      x < p.baseAddress + i * pmmPageSize + pmmPageSize →
      0x100000 ≤ x ∧ ∀ r ∈ info.ranges, ¬ (r.1 ≤ x ∧ x < r.1 + r.2)

/-- The page at `a` is one that the map frees. -/
def FreedByMap (a : ℕ) : Prop :=
  ∃ d ∈ info.memoryMap, pmmIsUsableMemory d.type = true ∧ pmmPageDown d.physStart ≤ a ∧
    a < pmmPageDown d.physStart + d.pageCount * pmmPageSize

/-- The page at `a` is one that a reservation names. -/
def Reserved (a : ℕ) : Prop :=
  a < 0x100000 ∨ ∃ r ∈ info.ranges, r.1 ≠ 0 ∧ (Pmm.span info).1 ≤ pmmPageDown r.1 ∧
    pmmPageDown r.1 ≤ a ∧ a < pmmPageDown r.1 + Pmm.sizePages r.2 * pmmPageSize

/-- The page at `a` is managed. -/
def Managed (a : ℕ) : Prop :=
  ∃ i < Pmm.spanPages info, a = (Pmm.span info).1 + i * pmmPageSize

/-- The page at `a` has bytes of the range `r`, and the rounding of `r` leaves it out : the range
is taken for absent or is below the managed pages, its size wraps when it is rounded, or the page
is the one behind those that are counted. -/
def LeftOut (r : ℕ × ℕ) (a : ℕ) : Prop :=
  (∃ x, a ≤ x ∧ x < a + pmmPageSize ∧ r.1 ≤ x ∧ x < r.1 + r.2) ∧
    (r.1 = 0 ∨ pmmPageDown r.1 < (Pmm.span info).1 ∨ 2 ^ 64 < r.2 + pmmPageSize ∨
      a = pmmPageDown r.1 + Pmm.sizePages r.2 * pmmPageSize)

/-- Where a descriptor starts inside a page, that page is reserved, and what the rounding of a
range leaves out is not freed or is reserved for another range. -/
structure Covered : Prop where
  starts : ∀ d ∈ info.memoryMap, pmmIsUsableMemory d.type = true → d.pageCount ≠ 0 →
    d.physStart % pmmPageSize ≠ 0 → info.Managed (pmmPageDown d.physStart) →
    info.Reserved (pmmPageDown d.physStart)
  ranges : ∀ r ∈ info.ranges, ∀ a, info.Managed a → info.LeftOut r a → info.FreedByMap a →
    info.Reserved a

end BootInfo

/-- The page of an address. -/
theorem pmmPageDown_spec {addr : ℕ} (h : addr < 2 ^ 64) :
    pmmPageDown addr % 4096 = 0 ∧ pmmPageDown addr ≤ addr ∧ addr < pmmPageDown addr + 4096 := by
  have heq := pmmPageDown_eq h
  omega

namespace Pmm

variable {p : Pmm}

/-- What a loop over a range of addresses does to the bit of a managed page. -/
theorem test_eachPage {b : Bool} {f : Pmm → ℕ → Pmm}
    (hf : ∀ q page, page < q.totalPages → Marks b q (f q page) page (page + 1)) (addr count : ℕ)
    {i : ℕ} (hi : i < p.totalPages) (htotal : p.totalPages ≤ 2 ^ 52) :
    (p.eachPage f addr count).bitmapTest i =
      if p.addrToPage (pmmPageDown addr) ≤ i ∧ i < p.addrToPage (pmmPageDown addr) + count then b
      else p.bitmapTest i := by
  rcases marks_eachPage hf addr count with ⟨hvoid, h⟩ | h
  · rw [h, hvoid, if_neg fun hmem => ?_]
    have hle : 2 ^ 64 - 1 ≤ i := hmem.1
    omega
  · rw [h.test]
    congr 1
    rw [eq_iff_iff]
    omega

theorem sameRange_eachPage {b : Bool} {f : Pmm → ℕ → Pmm}
    (hf : ∀ q page, page < q.totalPages → Marks b q (f q page) page (page + 1))
    (addr count : ℕ) : SameRange p (p.eachPage f addr count) := by
  rcases marks_eachPage hf addr count with ⟨-, h⟩ | h
  · rw [h]
    exact ⟨rfl, rfl⟩
  · exact h.range

/-- The pages that a call names, by their addresses. -/
theorem mem_named (hbase : p.baseAddress % 4096 = 0) {addr : ℕ} (haddr : addr < 2 ^ 64)
    (count : ℕ) {i : ℕ} (hi : i < 2 ^ 52) :
    (p.addrToPage (pmmPageDown addr) ≤ i ∧ i < p.addrToPage (pmmPageDown addr) + count) ↔
      p.baseAddress ≤ pmmPageDown addr ∧ pmmPageDown addr ≤ p.baseAddress + i * pmmPageSize ∧
        p.baseAddress + i * pmmPageSize < pmmPageDown addr + count * pmmPageSize := by
  obtain ⟨hmod, -, -⟩ := pmmPageDown_spec haddr
  rw [addrToPage, pmmPageSize]
  split_ifs with hlow
  · have hvoid : voidU64 = 2 ^ 64 - 1 := rfl
    omega
  · have hshift : (pmmPageDown addr - p.baseAddress) >>> pmmPageShift =
        (pmmPageDown addr - p.baseAddress) / 4096 := Nat.shiftRight_eq_div_pow _ _
    rw [hshift]
    omega

/-- The page bounds that every state of the initialization has. -/
structure Aligned (p : Pmm) : Prop where
  base : p.baseAddress % 4096 = 0
  base_lt : p.baseAddress < 2 ^ 64
  total : p.totalPages ≤ 2 ^ 52

theorem Aligned.of_sameRange {q : Pmm} (h : Aligned p) (hq : SameRange p q) : Aligned q := by
  obtain ⟨htotal, hbase⟩ := hq
  exact ⟨hbase ▸ h.base, hbase ▸ h.base_lt, htotal ▸ h.total⟩

/-- Freeing the usable descriptors clears the bits of their pages. -/
theorem foldl_freeRound {map : List MemoryDescriptor} (hmap : ∀ d ∈ map, d.physStart < 2 ^ 64)
    (hp : Aligned p) :
    SameRange p (map.foldl freeRound p) ∧ ∀ i < p.totalPages,
      ((map.foldl freeRound p).bitmapTest i = false ↔ p.bitmapTest i = false ∨
        ∃ d ∈ map, pmmIsUsableMemory d.type = true ∧ p.baseAddress ≤ pmmPageDown d.physStart ∧
          pmmPageDown d.physStart ≤ p.baseAddress + i * pmmPageSize ∧
          p.baseAddress + i * pmmPageSize <
            pmmPageDown d.physStart + d.pageCount * pmmPageSize) := by
  induction map generalizing p with
  | nil => simp [SameRange]
  | cons d map ih =>
    have hd := hmap d List.mem_cons_self
    have hround : SameRange p (p.freeRound d) ∧ ∀ i < p.totalPages,
        ((p.freeRound d).bitmapTest i = false ↔ p.bitmapTest i = false ∨
          pmmIsUsableMemory d.type = true ∧ p.baseAddress ≤ pmmPageDown d.physStart ∧
            pmmPageDown d.physStart ≤ p.baseAddress + i * pmmPageSize ∧
            p.baseAddress + i * pmmPageSize <
              pmmPageDown d.physStart + d.pageCount * pmmPageSize) := by
      unfold freeRound
      split
      · next husable =>
        refine ⟨sameRange_eachPage (fun _ _ => marks_openPage) _ _, fun i hi => ?_⟩
        have htotal := hp.total
        have htest := test_eachPage (fun _ _ => marks_openPage) d.physStart d.pageCount hi htotal
        rw [markFree, htest, ← mem_named hp.base hd d.pageCount (by omega)]
        split <;> simp_all
      · next husable => simp [husable, SameRange]
    obtain ⟨hrange, htest⟩ := hround
    obtain ⟨hrange', htest'⟩ := ih (fun e he => hmap e (List.mem_cons_of_mem _ he))
      (hp.of_sameRange hrange)
    refine ⟨⟨hrange'.1.trans hrange.1, hrange'.2.trans hrange.2⟩, fun i hi => ?_⟩
    rw [List.foldl_cons, htest' i (hi.trans_eq hrange.1.symm), htest i hi, hrange.2, or_assoc]
    simp only [List.mem_cons, exists_eq_or_imp]

/-- A reservation sets the bits of the pages that it counts. -/
theorem test_markAllocated (hp : Aligned p) {addr : ℕ} (haddr : addr < 2 ^ 64) (count : ℕ) {i : ℕ}
    (hi : i < p.totalPages) :
    (p.markAllocated addr count).bitmapTest i = false ↔ p.bitmapTest i = false ∧
      ¬ (p.baseAddress ≤ pmmPageDown addr ∧
        pmmPageDown addr ≤ p.baseAddress + i * pmmPageSize ∧
        p.baseAddress + i * pmmPageSize < pmmPageDown addr + count * pmmPageSize) := by
  have htest := test_eachPage (fun _ _ => marks_closePage) addr count hi hp.total
  rw [markAllocated, htest, ← mem_named hp.base haddr count (by have := hp.total; omega)]
  split <;> simp_all

theorem sizePages_zero : sizePages 0 = 0 := by
  decide

/-- The ranges in use are reserved one after the other. -/
theorem foldl_reserve {ranges : List (ℕ × ℕ)} (hranges : ∀ r ∈ ranges, r.1 < 2 ^ 64)
    (hp : Aligned p) :
    SameRange p (ranges.foldl (fun q r => q.reserve r.1 r.2) p) ∧ ∀ i < p.totalPages,
      ((ranges.foldl (fun q r => q.reserve r.1 r.2) p).bitmapTest i = false ↔
        p.bitmapTest i = false ∧ ¬ ∃ r ∈ ranges, r.1 ≠ 0 ∧ p.baseAddress ≤ pmmPageDown r.1 ∧
          pmmPageDown r.1 ≤ p.baseAddress + i * pmmPageSize ∧
          p.baseAddress + i * pmmPageSize <
            pmmPageDown r.1 + sizePages r.2 * pmmPageSize) := by
  induction ranges generalizing p with
  | nil => simp [SameRange]
  | cons r ranges ih =>
    have hr := hranges r List.mem_cons_self
    have hround : SameRange p (p.reserve r.1 r.2) ∧ ∀ i < p.totalPages,
        ((p.reserve r.1 r.2).bitmapTest i = false ↔ p.bitmapTest i = false ∧
          ¬ (r.1 ≠ 0 ∧ p.baseAddress ≤ pmmPageDown r.1 ∧
            pmmPageDown r.1 ≤ p.baseAddress + i * pmmPageSize ∧
            p.baseAddress + i * pmmPageSize <
              pmmPageDown r.1 + sizePages r.2 * pmmPageSize)) := by
      unfold reserve
      split
      · next h =>
        refine ⟨sameRange_eachPage (fun _ _ => marks_closePage) _ _, fun i hi => ?_⟩
        rw [test_markAllocated hp hr _ hi, and_iff_right h.1]
      · next h =>
        refine ⟨⟨rfl, rfl⟩, fun i _ => (and_iff_left fun hmem => ?_).symm⟩
        have hzero : r.2 = 0 := by
          by_contra hne
          exact h ⟨hmem.1, hne⟩
        rw [hzero, sizePages_zero, Nat.zero_mul] at hmem
        omega
    obtain ⟨hrange, htest⟩ := hround
    obtain ⟨hrange', htest'⟩ := ih (fun e he => hranges e (List.mem_cons_of_mem _ he))
      (hp.of_sameRange hrange)
    refine ⟨⟨hrange'.1.trans hrange.1, hrange'.2.trans hrange.2⟩, fun i hi => ?_⟩
    rw [List.foldl_cons, htest' i (hi.trans_eq hrange.1.symm), htest i hi, hrange.2, and_assoc]
    simp only [List.mem_cons, exists_eq_or_imp, not_or]

/-- The lowest address of the search is below every descriptor. -/
theorem foldl_spanRound (map : List MemoryDescriptor) (s : ℕ × ℕ) :
    (map.foldl spanRound s).1 ≤ s.1 ∧ ∀ d ∈ map, (map.foldl spanRound s).1 ≤ d.physStart := by
  induction map generalizing s with
  | nil => simp
  | cons d map ih =>
    obtain ⟨hle, hall⟩ := ih (spanRound s d)
    have hround : (spanRound s d).1 ≤ s.1 ∧ (spanRound s d).1 ≤ d.physStart := by
      simp only [spanRound]
      split <;> omega
    refine ⟨hle.trans hround.1, fun e he => ?_⟩
    rcases List.mem_cons.1 he with rfl | he
    · exact hle.trans hround.2
    · exact hall e he

theorem span_le {info : BootInfo} (hinfo : info.WellFormed) {d : MemoryDescriptor}
    (hd : d ∈ info.memoryMap) : (span info).1 ≤ pmmPageDown d.physStart := by
  obtain ⟨hvoid, hall⟩ := foldl_spanRound info.memoryMap (voidU64, 0)
  have hlt := (hinfo.map d hd).1
  have hle := hall d hd
  rw [span, pmmPageDown_eq hlt, pmmPageDown_eq (hle.trans_lt hlt)]
  exact Nat.mul_le_mul_right _ (Nat.div_le_div_right hle)

theorem aligned_placed (info : BootInfo) (arena : Words pmmBitsPerWord) :
    Aligned (placed info arena) := by
  obtain ⟨hvoid, -⟩ := foldl_spanRound info.memoryMap (voidU64, 0)
  have hlt : (info.memoryMap.foldl spanRound (voidU64, 0)).1 < 2 ^ 64 :=
    hvoid.trans_lt (by norm_num [voidU64])
  obtain ⟨hmod, hle, -⟩ := pmmPageDown_spec hlt
  refine ⟨hmod, hle.trans_lt hlt, ?_⟩
  have hshift : spanPages info = u64 (2 ^ 64 - (span info).1 + (span info).2) / 4096 :=
    Nat.shiftRight_eq_div_pow _ _
  have hu64 := u64_lt (2 ^ 64 - (span info).1 + (span info).2)
  change spanPages info ≤ 2 ^ 52
  omega

/-- The bitmap has a bit for each page, and all are set. -/
theorem test_placed {info : BootInfo} (arena : Words pmmBitsPerWord) {i : ℕ}
    (hi : i < spanPages info) : (placed info arena).bitmapTest i = true := by
  have htotal : spanPages info ≤ 2 ^ 52 := (aligned_placed info arena).total
  have hbytes : bitmapBytes info = ((spanPages info + 7) / 8 + 7) / 8 * 8 := by
    have hsmall : u64 (spanPages info + 7) = spanPages info + 7 := u64_of_lt (by omega)
    have hsmall' : (spanPages info + 7) / 8 + 7 < 2 ^ 64 := by omega
    rw [bitmapBytes, hsmall, u64_of_lt hsmall']
    exact and_clear_low (k := 3) hsmall' (by norm_num)
  have hword : i / 64 < bitmapBytes info / 8 := by omega
  have hlow : i % 64 < 64 := Nat.mod_lt i (by norm_num)
  have hones : (placed info arena).bitmap (i / 64) = BitVec.allOnes 64 := if_pos hword
  rw [bitmapTest, test_eq_getLsbD, hones, BitVec.getLsbD_allOnes, decide_eq_true hlow]

theorem test_reserveLow (hp : Aligned p) :
    SameRange p p.reserveLow ∧ ∀ i < p.totalPages, (p.reserveLow.bitmapTest i = false ↔
      p.bitmapTest i = false ∧ ¬ p.baseAddress + i * pmmPageSize < 0x100000) := by
  have hmod := hp.base
  unfold reserveLow
  split
  · next hlow =>
    refine ⟨sameRange_eachPage (fun _ _ => marks_closePage) _ _, fun i hi => ?_⟩
    have hshift : (0x100000 - p.baseAddress) >>> pmmPageShift = (0x100000 - p.baseAddress) / 4096 :=
      Nat.shiftRight_eq_div_pow _ _
    have hdown := pmmPageDown_eq hp.base_lt
    rw [test_markAllocated hp hp.base_lt _ hi, hshift, hdown, pmmPageSize]
    refine and_congr_right fun _ => not_congr ?_
    omega
  · exact ⟨⟨rfl, rfl⟩, fun i _ => (and_iff_left (by omega)).symm⟩

/-- The pages left free are those that the map frees and no reservation names. -/
theorem clear_iff {info : BootInfo} (hinfo : info.WellFormed) {arena : Words pmmBitsPerWord}
    (h : init info arena = some p) :
    p.totalPages = spanPages info ∧ p.baseAddress = (span info).1 ∧ ∀ i < spanPages info,
      (p.bitmapTest i = false ↔ info.FreedByMap ((span info).1 + i * pmmPageSize) ∧
        ¬ info.Reserved ((span info).1 + i * pmmPageSize)) := by
  rw [init] at h
  split_ifs at h
  have hp : info.ranges.foldl (fun q r => q.reserve r.1 r.2)
      (info.memoryMap.foldl freeRound (placed info arena)).reserveLow = p := Option.some.inj h
  -- the three passes over the bitmap, one after the other
  have halign := aligned_placed info arena
  obtain ⟨hfree, htest⟩ := foldl_freeRound (fun d hd => (hinfo.map d hd).1) halign
  have halign' := halign.of_sameRange hfree
  obtain ⟨hlow, htest'⟩ := test_reserveLow halign'
  obtain ⟨hres, htest''⟩ := foldl_reserve (fun r hr => (hinfo.ranges r hr).1)
    (halign'.of_sameRange hlow)
  rw [hp] at hres htest''
  refine ⟨hres.1.trans (hlow.1.trans hfree.1), hres.2.trans (hlow.2.trans hfree.2),
    fun i hi => ?_⟩
  have hbase : (placed info arena).baseAddress = (span info).1 := rfl
  rw [htest'' i (hi.trans_eq (hlow.1.trans hfree.1).symm), htest' i (hi.trans_eq hfree.1.symm),
    htest i hi, hlow.2, hfree.2, hbase, and_assoc, ← not_or, test_placed arena hi]
  refine and_congr_left fun _ => ?_
  rw [or_iff_right (by simp)]
  refine exists_congr fun d => and_congr_right fun hd => and_congr_right fun _ => ?_
  exact and_iff_right (span_le hinfo hd)

end Pmm

namespace BootInfo

open Pmm

variable {info : BootInfo}

theorem Managed.aligned {a : ℕ} (h : info.Managed a) : a % 4096 = 0 := by
  obtain ⟨i, -, rfl⟩ := h
  have hbase := (aligned_placed info fun _ => 0#64).base
  change (span info).1 % 4096 = 0 at hbase
  rw [pmmPageSize]
  omega

/-- A page that is freed and not reserved lies in its descriptor. -/
theorem inside_of_freed (hinfo : info.WellFormed) (hc : info.Covered) {a : ℕ}
    (hmanaged : info.Managed a) (hfreed : info.FreedByMap a) (hres : ¬ info.Reserved a) :
    ∃ d ∈ info.memoryMap, pmmIsUsableMemory d.type = true ∧ d.physStart ≤ a ∧
      a + pmmPageSize ≤ d.physStart + d.pageCount * pmmPageSize := by
  obtain ⟨d, hd, husable, hle, hlt⟩ := hfreed
  have hmod := hmanaged.aligned
  obtain ⟨hdown, hbelow, habove⟩ := pmmPageDown_spec (hinfo.map d hd).1
  refine ⟨d, hd, husable, ?_⟩
  rw [pmmPageSize] at hlt ⊢
  by_cases hfirst : a = pmmPageDown d.physStart ∧ d.physStart % 4096 ≠ 0
  · obtain ⟨rfl, hstart⟩ := hfirst
    exact absurd (hc.starts d hd husable (by omega) hstart hmanaged) hres
  · omega

/-- No byte of it is in use. -/
theorem outside_of_freed (hinfo : info.WellFormed) (hc : info.Covered) {a : ℕ}
    (hmanaged : info.Managed a) (hfreed : info.FreedByMap a) (hres : ¬ info.Reserved a) {x : ℕ}
    (hle : a ≤ x) (hlt : x < a + pmmPageSize) :
    0x100000 ≤ x ∧ ∀ r ∈ info.ranges, ¬ (r.1 ≤ x ∧ x < r.1 + r.2) := by
  refine ⟨?_, fun r hr hx => ?_⟩
  · by_contra hlow
    exact hres (.inl (by omega))
  · by_cases hout : info.LeftOut r a
    · exact hres (hc.ranges r hr a hmanaged hout hfreed)
    · -- the page is among those that the rounding counts
      have hkind : ¬ (r.1 = 0 ∨ pmmPageDown r.1 < (span info).1 ∨ 2 ^ 64 < r.2 + pmmPageSize ∨
          a = pmmPageDown r.1 + sizePages r.2 * pmmPageSize) :=
        fun h => hout ⟨⟨x, hle, hlt, hx⟩, h⟩
      push Not at hkind
      obtain ⟨hzero, hlow, hwrap, hlast⟩ := hkind
      have hmod := hmanaged.aligned
      obtain ⟨hdown, hbelow, habove⟩ := pmmPageDown_spec (hinfo.ranges r hr).1
      have hpages : sizePages r.2 = (r.2 + 4095) / 4096 := by
        have hsum : u64 (r.2 + 4095) = r.2 + 4095 := u64_of_lt (by rw [pmmPageSize] at hwrap; omega)
        exact (congrArg (· >>> 12) hsum).trans (Nat.shiftRight_eq_div_pow _ _)
      refine hres (.inr ⟨r, hr, hzero, hlow, ?_⟩)
      rw [hpages, pmmPageSize] at hlast ⊢
      rw [pmmPageSize] at hlt
      omega

/-- The first page of a descriptor that starts inside it is in no descriptor. -/
theorem not_inside_start (hinfo : info.WellFormed) {d : MemoryDescriptor} (hd : d ∈ info.memoryMap)
    (hcount : d.pageCount ≠ 0) (hstart : d.physStart % pmmPageSize ≠ 0) {e : MemoryDescriptor}
    (he : e ∈ info.memoryMap) (hle : e.physStart ≤ pmmPageDown d.physStart) :
    ¬ pmmPageDown d.physStart + pmmPageSize ≤ e.physStart + e.pageCount * pmmPageSize := by
  intro hge
  obtain ⟨hdown, hbelow, habove⟩ := pmmPageDown_spec (hinfo.map d hd).1
  rw [pmmPageSize] at hstart hge
  have hne : d ≠ e := by
    rintro rfl
    omega
  have hapart := hinfo.disjoint.forall hd he hne
  rw [MemoryDescriptor.Apart, pmmPageSize] at hapart
  omega

/-- The state after `seraph_pmm_init` keeps what is in use exactly where what the roundings leave
out is not free. -/
theorem left_free_iff (hinfo : info.WellFormed) {arena : Words pmmBitsPerWord} {p : Pmm}
    (h : Pmm.init info arena = some p) : info.LeavesUsable p ↔ info.Covered := by
  obtain ⟨htotal, hbase, hclear⟩ := clear_iff hinfo h
  have hfree : ∀ a, info.Managed a → info.FreedByMap a → ¬ info.Reserved a →
      ∃ i < p.totalPages, p.bitmapTest i = false ∧ p.baseAddress + i * pmmPageSize = a := by
    rintro a ⟨i, hi, rfl⟩ hfreed hres
    exact ⟨i, hi.trans_eq htotal.symm, (hclear i hi).2 ⟨hfreed, hres⟩, by rw [hbase]⟩
  constructor
  · intro hleaves
    refine ⟨fun d hd husable hcount hstart hmanaged => ?_, fun r hr a hmanaged hout hfreed => ?_⟩
    · by_contra hres
      have hfreed : info.FreedByMap (pmmPageDown d.physStart) :=
        ⟨d, hd, husable, le_rfl, by rw [pmmPageSize]; omega⟩
      obtain ⟨i, hi, htest, haddr⟩ := hfree _ hmanaged hfreed hres
      obtain ⟨e, he, -, hle, hge⟩ := (hleaves i hi htest).1
      rw [haddr] at hle hge
      exact not_inside_start hinfo hd hcount hstart he hle hge
    · by_contra hres
      obtain ⟨i, hi, htest, rfl⟩ := hfree a hmanaged hfreed hres
      obtain ⟨x, hle, hlt, hx⟩ := hout.1
      exact ((hleaves i hi htest).2 x hle hlt).2 r hr hx
  · intro hc i hi htest
    rw [htotal] at hi
    obtain ⟨hfreed, hres⟩ := (hclear i hi).1 htest
    have hmanaged : info.Managed ((span info).1 + i * pmmPageSize) := ⟨i, hi, rfl⟩
    rw [hbase]
    exact ⟨inside_of_freed hinfo hc hmanaged hfreed hres,
      fun x => outside_of_freed hinfo hc hmanaged hfreed hres⟩

/-- A kernel of one page that starts in the middle of a page, in a region of 16 usable pages. -/
def unalignedKernel : BootInfo where
  framebufferBase := 0
  framebufferSize := 0
  memoryMap := [⟨memConventional, 0x100000, 16⟩]
  kernelPhysBase := 0x101800
  kernelSize := 0x1000
  stackPhys := 0x10a000
  stackSize := 0x1000
  primordialArenaPhys := 0x108000
  primordialArenaSize := 0x1000

theorem unalignedKernel_wellFormed : unalignedKernel.WellFormed :=
  ⟨by decide, by decide, by decide⟩

theorem unalignedKernel_init : (Pmm.init unalignedKernel fun _ => 0#64).isSome := by
  decide

theorem left_free_iff_unalignedKernel :
    unalignedKernel.LeavesUsable ((Pmm.init unalignedKernel fun _ => 0#64).get
      unalignedKernel_init) ↔ unalignedKernel.Covered :=
  left_free_iff unalignedKernel_wellFormed (Option.some_get _).symm

/-- The second page of that kernel is left free. -/
theorem not_leavesUsable_unalignedKernel : unalignedKernel.WellFormed ∧
    ∃ p, Pmm.init unalignedKernel (fun _ => 0#64) = some p ∧ ¬ unalignedKernel.LeavesUsable p := by
  refine ⟨unalignedKernel_wellFormed, _, (Option.some_get unalignedKernel_init).symm, fun h => ?_⟩
  have hpage := (h 2 (by decide) (by decide)).2 0x102000 (by decide) (by decide)
  exact hpage.2 (0x101800, 0x1000) (by decide) (by decide)

end BootInfo

end Seraph
