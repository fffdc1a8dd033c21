import Mathlib.Data.List.Perm.Basic
import Mathlib.Order.Interval.Finset.Nat
import Seraph.KernelHeapCounts
import Seraph.KernelHeapRuns

/-!
# The accounts of the kernel heap

Clients use all entry points of the heap : blocks, pages, aligned blocks and pages for DMA. The
state records the blocks that the heap has given out and not taken back (`HeapAccount`).
`total_allocated` and `large_alloc_count` should be the sums over these blocks, and a block that is
given back should leave no trace.

The blocks that are held are apart, so that their sums fit in 64 bits (`HoldsBlocks.sums_lt`). A
block that is counted keeps the accounts balanced (`AccountInv.gain`), and so does one that is given
back (`AccountInv.lose`).
-/

namespace Seraph

open ByteMem Memory KMalloc Runs

/-- Regions that are apart and lie in an interval have no more bytes than this. -/
theorem sum_len_le {rs : List Region} (hapart : rs.Pairwise Region.Disjoint) (lo hi : ℕ)
    (hin : ∀ r ∈ rs, lo ≤ r.start ∧ r.start + r.len ≤ hi) :
    (rs.map Region.len).sum ≤ hi - lo := by
  have hcard : ∃ s : Finset ℕ, s.card = (rs.map Region.len).sum ∧
      ∀ x ∈ s, ∃ r ∈ rs, x ∈ r := by
    induction rs with
    | nil => exact ⟨∅, rfl, nofun⟩
    | cons r rs ih =>
      obtain ⟨hr, hrest⟩ := List.pairwise_cons.1 hapart
      obtain ⟨s, hs, hmem⟩ := ih hrest fun q hq => hin q (List.mem_cons_of_mem r hq)
      refine ⟨Finset.Ico r.start (r.start + r.len) ∪ s, ?_, fun x hx => ?_⟩
      · rw [Finset.card_union_of_disjoint, Nat.card_Ico, hs, List.map_cons, List.sum_cons,
          Nat.add_sub_cancel_left]
        refine Finset.disjoint_left.2 fun x hx hxs => ?_
        obtain ⟨q, hq, hxq⟩ := hmem x hxs
        exact (hr q hq).not_mem (Finset.mem_Ico.1 hx) hxq
      · rcases Finset.mem_union.1 hx with hx | hx
        · exact ⟨r, List.mem_cons_self, Finset.mem_Ico.1 hx⟩
        · obtain ⟨q, hq, hxq⟩ := hmem x hx
          exact ⟨q, List.mem_cons_of_mem r hq, hxq⟩
  obtain ⟨s, hs, hmem⟩ := hcard
  have hsub : s ⊆ Finset.Ico lo hi := by
    intro x hx
    obtain ⟨r, hr, hxr⟩ := hmem x hx
    obtain ⟨h1, h2⟩ := hin r hr
    rw [Region.mem_def] at hxr
    exact Finset.mem_Ico.2 ⟨by omega, by omega⟩
  rw [← hs, ← Nat.card_Ico]
  exact Finset.card_le_card hsub

/-- An object of a slab, pages behind a header, or pages for DMA. -/
inductive BlockKind
  | object | pages | dma
deriving DecidableEq

/-- A block that the heap has given out, and the bytes that it takes of the heap. -/
structure HeldBlock where
  ptr : ℕ
  kind : BlockKind
  bytes : ℕ
deriving DecidableEq

namespace HeldBlock

variable (x : HeldBlock)

/-- `large_alloc_count` is about these blocks. -/
def isLarge : Bool :=
  x.kind ≠ .object

/-- The bytes that a client may use. -/
def usable : ℕ :=
  if x.kind = .pages then x.bytes - LargeHeader.size else x.bytes

/-- The bytes of the block in the heap, with its header. -/
def span : Region :=
  ⟨if x.kind = .pages then x.ptr - LargeHeader.size else x.ptr, x.bytes⟩

/-- The block that `seraph_kmalloc` gives for a size. -/
def given (size ptr : ℕ) : HeldBlock :=
  match kmallocSizeClassIndex size with
  | some idx => ⟨ptr, .object, kmallocSizeClass idx⟩
  | none => ⟨ptr, .pages, largePages size * 4096⟩

end HeldBlock

namespace KMalloc

variable (k : KMalloc)

/-- `seraph_kfree` of `ptr` gives the block `x` back : the object `ptr`, or the pages behind the
header in the page of `ptr`. -/
def kfrees (ptr : ℕ) (a : PageAnswers) (x : HeldBlock) : Bool :=
  decide (kheapBase ≤ ptr ∧ ptr < k.heapEnd) &&
    if k.mem.get (getSlabFromObject ptr) LargeHeader.magic = largeHeaderMagic then
      x.isLarge && a.translated && decide (getSlabFromObject x.ptr = getSlabFromObject ptr)
    else !x.isLarge && decide (x.ptr = ptr)

/-- `seraph_kfree_pages` of `ptr` gives the block `x` back. -/
def kfreesPages (ptr pageCount : ℕ) (a : PageAnswers) (x : HeldBlock) : Bool :=
  decide (ptr ≠ 0 ∧ ptr ≠ voidU64 ∧ pageCount ≠ 0) && x.isLarge && a.translated &&
    decide (getSlabFromObject x.ptr = getSlabFromObject ptr)

end KMalloc

/-- What `seraph_kmalloc_aligned` has returned, the block that it lies in, and the bytes asked
for. -/
structure AlignedPtr where
  ptr : ℕ
  raw : ℕ
  size : ℕ

/-- The heap, the blocks that it has given out and not taken back, and the aligned addresses that
clients hold. -/
structure HeapAccount where
  heap : KMalloc
  live : List HeldBlock
  aligned : List AlignedPtr

/-- The entry points of the heap, with the answers of the managers of pages, and the writes of
clients. -/
inductive AccountOp
  | kmalloc (size : ℕ) (a : PageAnswers)
  | kcalloc (count size : ℕ) (a : PageAnswers)
  | krealloc (ptr newSize : ℕ) (a : PageAnswers)
  | kfree (ptr : ℕ) (a : PageAnswers)
  | kmallocPages (pageCount : ℕ) (a : PageAnswers)
  | kfreePages (ptr pageCount : ℕ) (a : PageAnswers)
  | kmallocAligned (size align : ℕ) (a : PageAnswers)
  | kfreeAligned (ptr : ℕ) (a : PageAnswers)
  | kmallocDma (size : ℕ) (a : PageAnswers)
  | kfreeDma (ptr size : ℕ) (a : PageAnswers)
  | write (addr : ℕ) (byte : UInt8)

namespace HeapAccount

/-- The heap after `seraph_kmalloc_init`. -/
def init (mem : Memory) : HeapAccount :=
  ⟨KMalloc.init mem, [], []⟩

variable (s : HeapAccount)

/-- The bytes of the blocks. -/
def liveBytes : ℕ :=
  (s.live.map HeldBlock.bytes).sum

/-- The large blocks. -/
def liveLarge : ℕ :=
  s.live.countP HeldBlock.isLarge

/-- A call has returned `r`, which is the block `x` unless it is VOID. -/
def gain (r : KMalloc × ℕ) (x : HeldBlock) : HeapAccount :=
  { s with heap := r.1, live := if r.2 = voidU64 then s.live else x :: s.live }

/-- A call has given back the blocks for which `freed` holds. -/
def lose (k : KMalloc) (freed : HeldBlock → Bool) : HeapAccount :=
  { s with heap := k, live := s.live.filter fun x => !freed x }

/-- The size that `seraph_kmalloc_aligned` asks `seraph_kmalloc` for. -/
def alignedRequest (size align : ℕ) : ℕ :=
  if align ≤ 16 then size else alignedTotal size align

/-- `seraph_krealloc` that does not find room in the old block gets a new one, copies the contents
and gives the old one back. -/
def realloc (ptr newSize : ℕ) (a : PageAnswers) : HeapAccount :=
  if ptr = 0 ∨ ptr = voidU64 then
    s.gain (s.heap.kmalloc newSize a) (.given newSize (s.heap.kmalloc newSize a).2)
  else if newSize = 0 then s.lose (s.heap.kfree ptr a) (s.heap.kfrees ptr a)
  else
    let oldSize := s.heap.usableSize ptr
    if oldSize = 0 ∨ newSize ≤ oldSize then s
    else
      let r := s.heap.kmalloc newSize a
      let s := s.gain r (.given newSize r.2)
      if r.2 = voidU64 then s
      else
        let k := { r.1 with mem := r.1.mem.copy r.2 ptr oldSize }
        s.lose (k.kfree ptr a) (k.kfrees ptr a)

/-- One call, and what it returns. -/
def step : AccountOp → HeapAccount × ℕ
  | .kmalloc size a =>
    let r := s.heap.kmalloc size a
    (s.gain r (.given size r.2), r.2)
  | .kcalloc count size a =>
    let r := s.heap.kcalloc count size a
    (s.gain r (.given (u64 (count * size)) r.2), r.2)
  | .krealloc ptr newSize a =>
    ({ s.realloc ptr newSize a with heap := (s.heap.krealloc ptr newSize a).1 },
      (s.heap.krealloc ptr newSize a).2)
  | .kfree ptr a => (s.lose (s.heap.kfree ptr a) (s.heap.kfrees ptr a), 0)
  | .kmallocPages pageCount a =>
    let r := s.heap.kmallocPages pageCount a
    (s.gain r ⟨r.2, .pages, pageCount * 4096⟩, r.2)
  | .kfreePages ptr pageCount a =>
    (s.lose (s.heap.kfreePages ptr pageCount a) (kfreesPages ptr pageCount a), 0)
  | .kmallocAligned size align a =>
    let r := s.heap.kmallocAligned size align a
    let raw := (s.heap.kmalloc (alignedRequest size align) a).2
    ({ s.gain r (.given (alignedRequest size align) raw) with
      aligned := if r.2 = voidU64 then s.aligned else ⟨r.2, raw, size⟩ :: s.aligned }, r.2)
  | .kfreeAligned ptr a =>
    ({ s.lose (s.heap.kfreeAligned ptr a) (fun x => decide (ptr ≠ 0 ∧ ptr ≠ voidU64) &&
        s.heap.kfrees (s.heap.mem.load (rawAddress ptr) 8) a x) with
      aligned := s.aligned.filter fun p => p.ptr ≠ ptr }, 0)
  | .kmallocDma size a =>
    let r := s.heap.kmallocDma size a
    (s.gain r ⟨r.2, .dma, dmaPages size * 4096⟩, r.2)
  | .kfreeDma ptr size a =>
    (s.lose (s.heap.kfreeDma ptr size a) (fun x => decide (size ≠ 0) &&
      kfreesPages ptr (dmaPages size) a x), 0)
  | .write addr byte =>
    ({ s with heap := { s.heap with mem := Function.update s.heap.mem addr byte } }, 0)

/-- A block that is not behind an aligned address. -/
def Plain (x : HeldBlock) : Prop :=
  x ∈ s.live ∧ ∀ p ∈ s.aligned, p.raw ≠ x.ptr

/-- Clients give back what they hold, once and by the function that belongs to it, and write into
it. The pages of a block are mapped. -/
def Legal : AccountOp → Prop
  | .kmalloc _ _ | .kcalloc _ _ _ | .kmallocPages _ _ | .kmallocAligned _ _ _
  | .kmallocDma _ _ => True
  | .krealloc ptr _ a | .kfree ptr a =>
    (ptr = 0 ∨ ptr = voidU64) ∨ (∃ x, s.Plain x ∧ x.kind ≠ .dma ∧ x.ptr = ptr) ∧ a.translated = true
  | .kfreePages ptr pageCount a =>
    (ptr = 0 ∨ ptr = voidU64) ∨
      (∃ x, s.Plain x ∧ x.kind = .pages ∧ x.ptr = ptr ∧ x.bytes = pageCount * 4096) ∧
        a.translated = true
  | .kfreeAligned ptr a =>
    (ptr = 0 ∨ ptr = voidU64) ∨ (∃ p ∈ s.aligned, p.ptr = ptr) ∧ a.translated = true
  | .kfreeDma ptr size a =>
    (ptr = 0 ∨ ptr = voidU64) ∨
      (∃ x, s.Plain x ∧ x.kind = .dma ∧ x.ptr = ptr ∧ x.bytes = dmaPages size * 4096) ∧
        a.translated = true
  | .write addr _ => ∃ x ∈ s.live, addr ∈ Region.mk x.ptr x.usable ∧
      ∀ p ∈ s.aligned, p.raw = x.ptr → addr ∈ Region.mk p.ptr p.size

/-- The calls that keep the accounts. The pages that a call gets lie in the address space, and it
has room for its block in them where it writes there. An aligned block is given back only if its
alignment was above 16, so that its address is not that of the block. No pages are given for DMA. -/
def Keeps : AccountOp → Prop
  | .kmalloc size a => s.heap.Fits voidU64 size a
  | .kcalloc count size a =>
    count ≠ 0 → size ≠ 0 → u64 (count * size) / count = size →
      s.heap.Served voidU64 (count * size) a
  | .krealloc ptr newSize a =>
    if ptr = 0 ∨ ptr = voidU64 then s.heap.Fits voidU64 newSize a
    else newSize ≠ 0 → s.heap.usableSize ptr < newSize → s.heap.Served voidU64 newSize a
  | .kmallocPages pageCount a =>
    pageCount ≠ 0 → a.Grants pageCount → s.heap.heapEnd + pageCount * 4096 ≤ voidU64
  | .kmallocAligned size align a =>
    size ≠ 0 → align ≠ 0 → align &&& (align - 1) = 0 →
      if align ≤ 16 then s.heap.Fits voidU64 size a
      else size + align + 8 < 2 ^ 64 ∧ s.heap.Served voidU64 (size + align + 8) a
  | .kfreeAligned ptr _ => ∀ p ∈ s.aligned, p.ptr = ptr → p.raw ≠ ptr
  | .kmallocDma size a => size = 0 ∨ ¬ a.Grants (dmaPages size)
  | .kfree _ _ | .kfreePages _ _ _ | .kfreeDma _ _ _ | .write _ _ => True

/-- The counters are the sums over the blocks. -/
structure Balanced : Prop where
  total : s.heap.totalAllocated = s.liveBytes
  large : s.heap.largeAllocCount = s.liveLarge

/-- Where the block that `alloc` returns is given back by `free`, the blocks and the counters are
what they were. -/
def Undone (alloc : AccountOp) (free : ℕ → AccountOp) : Prop :=
  let r := s.step alloc
  r.2 ≠ voidU64 → r.1.Legal (free r.2) → r.1.Keeps (free r.2) →
    let s' := (r.1.step (free r.2)).1
    s'.live = s.live ∧ s'.heap.totalAllocated = s.heap.totalAllocated ∧
      s'.heap.largeAllocCount = s.heap.largeAllocCount

end HeapAccount

/-! ## Blocks -/

/-- The heap has the shape `g`, and offers the blocks of a list. There are none for DMA. -/
structure HoldsBlocks (k : KMalloc) (g : HeapShape) (live : List HeldBlock) : Prop where
  holds : Holds voidU64 k g
  nodup : (live.map HeldBlock.ptr).Nodup
  offered : ∀ x ∈ live, Offered g x.ptr x.usable
  kind : ∀ x ∈ live, x.kind = .object ∧ x.usable ≤ 2048 ∨ x.kind = .pages ∧ 2048 < x.usable

variable {k k' : KMalloc} {g g' : HeapShape} {live : List HeldBlock} {x y : HeldBlock}

namespace HoldsBlocks

/-- An object, or the pages of a large block. -/
theorem cases (h : HoldsBlocks k g live) (hx : x ∈ live) :
    (x.isLarge = false ∧ x.span = ⟨x.ptr, x.bytes⟩ ∧ x.usable = x.bytes ∧
      ∃ b ∈ g.slabs, IsObject b.1 (kmallocSizeClass b.2) x.ptr ∧ x.bytes = kmallocSizeClass b.2) ∨
    (x.isLarge = true ∧ x.bytes = x.usable + LargeHeader.size ∧
      ∃ l ∈ g.larges, x.span = largeRegion l ∧ x.ptr = l.1 + LargeHeader.size) := by
  have hoffered := h.offered x hx
  rcases h.kind x hx with ⟨hkind, hsize⟩ | ⟨hkind, hsize⟩
  · left
    have husable : x.usable = x.bytes := by simp [HeldBlock.usable, hkind]
    refine ⟨by simp [HeldBlock.isLarge, hkind], by simp [HeldBlock.span, hkind], husable, ?_⟩
    rcases hoffered with ⟨b, hb, hobject, -, heq⟩ | ⟨l, hl, -, heq⟩
    · exact ⟨b, hb, hobject, husable ▸ heq⟩
    · have hne := (h.holds.large l hl).1
      simp only [LargeHeader.size] at heq
      omega
  · right
    have husable : x.usable = x.bytes - LargeHeader.size := by simp [HeldBlock.usable, hkind]
    rcases hoffered with ⟨b, hb, -, -, heq⟩ | ⟨l, hl, hptr, heq⟩
    · have hmax := (sizeClass_bounds (h.holds.slab b hb).1).2
      omega
    · have hbytes : x.bytes = l.2 * 4096 := by
        simp only [LargeHeader.size] at husable heq
        omega
      refine ⟨by simp [HeldBlock.isLarge, hkind], ?_, l, hl, ?_, hptr⟩
      · simp only [LargeHeader.size] at husable ⊢
        omega
      · simp [HeldBlock.span, hkind, hptr, hbytes, largeRegion]

/-- Two blocks have no byte of the heap in common. -/
theorem spans_apart (h : HoldsBlocks k g live) (hx : x ∈ live) (hy : y ∈ live)
    (hne : x.ptr ≠ y.ptr) : x.span.Disjoint y.span := by
  rcases h.cases hx with ⟨-, hspan, husable, b, hb, hobj, hbytes⟩ | ⟨-, -, l, hl, hspan, hptr⟩
  · rcases h.cases hy with ⟨-, hspan', husable', b', hb', hobj', hbytes'⟩ | ⟨-, -, l, hl, hspan', -⟩
    · rw [hspan, hspan', ← husable, ← husable']
      exact h.holds.blocks_apart (h.offered x hx) (h.offered y hy) hne
    · obtain ⟨hidx, -⟩ := h.holds.slab b hb
      have hin := hobj.bounds (sizeClass_bounds hidx).1
      rw [hspan, hspan', hbytes]
      exact ((h.holds.slab_large b hb l hl).mono ⟨by dsimp only; omega, by dsimp only; omega⟩).symm
  · rcases h.cases hy with ⟨-, hspan', -, b, hb, hobj, hbytes⟩ | ⟨-, -, l', hl', hspan', hptr'⟩
    · obtain ⟨hidx, -⟩ := h.holds.slab b hb
      have hin := hobj.bounds (sizeClass_bounds hidx).1
      rw [hspan, hspan', hbytes]
      exact (h.holds.slab_large b hb l hl).mono ⟨by dsimp only; omega, by dsimp only; omega⟩
    · have hll : l ≠ l' := fun heq => hne (by rw [hptr, hptr', heq])
      rw [hspan, hspan']
      exact h.holds.larges_apart.forall hl hl' hll

theorem span_bounds (h : HoldsBlocks k g live) (hx : x ∈ live) :
    kheapBase ≤ x.span.start ∧ x.span.start + x.span.len ≤ k.heapEnd ∧ 0 < x.bytes := by
  rcases h.cases hx with ⟨-, hspan, -, b, hb, hobj, hbytes⟩ | ⟨-, hbytes, l, hl, hspan, -⟩
  · obtain ⟨hidx, -, hlow, hhigh⟩ := h.holds.slab b hb
    have hin := hobj.bounds (sizeClass_bounds hidx).1
    have hmin := (sizeClass_bounds hidx).1
    rw [hspan]
    dsimp only
    omega
  · obtain ⟨-, -, hlow, hhigh⟩ := h.holds.large l hl
    rw [hspan]
    simp only [largeRegion, LargeHeader.size] at hbytes ⊢
    omega

/-- The blocks fit in the heap, and so do their numbers in 64 bits. -/
theorem sums_lt (h : HoldsBlocks k g live) :
    (live.map HeldBlock.bytes).sum < 2 ^ 64 ∧ live.countP HeldBlock.isLarge < 2 ^ 64 := by
  have hspans : (live.map HeldBlock.span).Pairwise Region.Disjoint := by
    refine List.pairwise_map.2 ?_
    exact (List.pairwise_map.1 h.nodup).imp_of_mem fun hx hy hne => h.spans_apart hx hy hne
  have hsum := sum_len_le hspans kheapBase k.heapEnd fun r hr => by
    obtain ⟨x, hx, rfl⟩ := List.mem_map.1 hr
    obtain ⟨h1, h2, -⟩ := h.span_bounds hx
    exact ⟨h1, h2⟩
  have hlen : (live.map HeldBlock.span).map Region.len = live.map HeldBlock.bytes := by
    rw [List.map_map]
    rfl
  have hend := h.holds.end_le
  have hmax : voidU64 = 2 ^ 64 - 1 := rfl
  rw [hlen] at hsum
  have hlt : (live.map HeldBlock.bytes).sum < 2 ^ 64 := by omega
  refine ⟨hlt, lt_of_le_of_lt ?_ hlt⟩
  have hpos : ∀ x ∈ live, 0 < x.bytes := fun x hx => (h.span_bounds hx).2.2
  clear h hspans hsum hlen hlt
  induction live with
  | nil => exact le_rfl
  | cons x live ih =>
    have hx := hpos x List.mem_cons_self
    have hrest := ih fun y hy => hpos y (List.mem_cons_of_mem x hy)
    rw [List.countP_cons, List.map_cons, List.sum_cons]
    split <;> omega

end HoldsBlocks

/-! ## Accounts -/

/-- A block behind an aligned address, with the word in front of the address. -/
structure Remembers (m : Memory) (p : AlignedPtr) (x : HeldBlock) : Prop where
  inside : p.raw + 8 ≤ p.ptr
  pos : 0 < p.size
  room : p.ptr + p.size ≤ x.ptr + x.usable
  word : m.load (p.ptr - 8) 8 = p.raw

/-- The heap has the shape `g`, the counters are the sums over the blocks, and every aligned address
lies in a block of its own, which is remembered in front of it or has the same address. -/
structure AccountInv (s : HeapAccount) (g : HeapShape) : Prop where
  blocks : HoldsBlocks s.heap g s.live
  balanced : s.Balanced
  apart : (s.aligned.map AlignedPtr.raw).Nodup
  aligned : ∀ p ∈ s.aligned, ∃ x ∈ s.live, x.ptr = p.raw ∧
    (p.ptr = p.raw ∨ Remembers s.heap.mem p x)

variable {s : HeapAccount} {size : ℕ}

/-- The word does not change where the block keeps its bytes in front of the address. -/
theorem Remembers.congr {m m' : Memory} {p : AlignedPtr} (h : Remembers m p x) (hx : x.ptr = p.raw)
    (hm : ∀ z, x.ptr ≤ z → z < p.ptr → m' z = m z) : Remembers m' p x where
  inside := h.inside
  pos := h.pos
  room := h.room
  word := by
    have hinside := h.inside
    rw [← h.word]
    refine load_congr fun z hz => ?_
    rw [Region.mem_def] at hz
    dsimp only at hz
    exact hm z (by omega) (by omega)

namespace AccountInv

/-- A block that is given out is counted. -/
theorem gain (h : AccountInv s g) {r : KMalloc × ℕ}
    (hr : Allocates voidU64 s.heap r.1 g g' size r.2)
    (hx : r.2 ≠ voidU64 → x.ptr = r.2 ∧ Offered g' r.2 x.usable ∧
      (x.kind = .object ∧ x.usable ≤ 2048 ∨ x.kind = .pages ∧ 2048 < x.usable))
    (hcounts : Counts s.heap r.1 r.2 x.bytes x.isLarge) : AccountInv (s.gain r x) g' := by
  have hkept : ∀ y ∈ s.live, Offered g' y.ptr y.usable :=
    fun y hy => hr.offered _ _ (h.blocks.offered y hy)
  have hword : ∀ y ∈ s.live, ∀ p, y.ptr = p.raw → Remembers s.heap.mem p y →
      Remembers r.1.mem p y := fun y hy p hp hmem =>
    hmem.congr hp fun z hlow hhigh => hr.keeps _ _ (h.blocks.offered y hy) z
      ⟨hlow, by have hroom := hmem.room; dsimp only; omega⟩
  by_cases hvoid : r.2 = voidU64
  · have hlive : (s.gain r x).live = s.live := if_pos hvoid
    obtain ⟨htotal, hlarge⟩ := hcounts.failed hvoid
    refine ⟨⟨hr.holds, ?_, ?_, ?_⟩, ⟨?_, ?_⟩, h.apart, fun p hp => ?_⟩
    · rw [hlive]
      exact h.blocks.nodup
    · rw [hlive]
      exact hkept
    · rw [hlive]
      exact h.blocks.kind
    · rw [HeapAccount.liveBytes, hlive]
      exact htotal.trans h.balanced.total
    · rw [HeapAccount.liveLarge, hlive]
      exact hlarge.trans h.balanced.large
    · obtain ⟨y, hy, hptr, hor⟩ := h.aligned p hp
      rw [hlive]
      exact ⟨y, hy, hptr, hor.imp_right (hword y hy p hptr)⟩
  · have hlive : (s.gain r x).live = x :: s.live := if_neg hvoid
    obtain ⟨hptr, hoffered, hkind⟩ := hx hvoid
    obtain ⟨hfresh, -⟩ := hr.new hvoid
    obtain ⟨htotal, hlarge⟩ := hcounts.gave hvoid
    have hblocks : HoldsBlocks r.1 g' (x :: s.live) := by
      refine ⟨hr.holds, List.nodup_cons.2 ⟨fun hmem => ?_, h.blocks.nodup⟩,
        List.forall_mem_cons.2 ⟨hptr ▸ hoffered, hkept⟩,
        List.forall_mem_cons.2 ⟨hkind, h.blocks.kind⟩⟩
      obtain ⟨y, hy, heq⟩ := List.mem_map.1 hmem
      exact hfresh _ (hptr ▸ heq ▸ h.blocks.offered y hy)
    obtain ⟨hbytes, hcount⟩ := hblocks.sums_lt
    rw [List.map_cons, List.sum_cons] at hbytes
    rw [List.countP_cons] at hcount
    refine ⟨hlive ▸ hblocks, ⟨?_, ?_⟩, h.apart, fun p hp => ?_⟩
    · rw [HeapAccount.liveBytes, hlive, List.map_cons, List.sum_cons]
      refine htotal.trans ?_
      rw [h.balanced.total, HeapAccount.liveBytes, Nat.add_comm]
      exact u64_of_lt hbytes
    · rw [HeapAccount.liveLarge, hlive, List.countP_cons]
      refine hlarge.trans ?_
      rw [h.balanced.large, HeapAccount.liveLarge]
      split
      · next hlarge =>
        rw [if_pos hlarge] at hcount
        exact u64_of_lt hcount
      · rfl
    · obtain ⟨y, hy, hptr, hor⟩ := h.aligned p hp
      rw [hlive]
      exact ⟨y, List.mem_cons_of_mem x hy, hptr, hor.imp_right (hword y hy p hptr)⟩

/-- Writing into a block, but not in front of its aligned address. -/
theorem write (h : AccountInv s g) (hx : x ∈ s.live) {r : Region}
    (hr : r.Within ⟨x.ptr, x.usable⟩)
    (hp : ∀ p ∈ s.aligned, p.raw = x.ptr → p.ptr = p.raw ∨ p.ptr ≤ r.start) {m : Memory}
    (hm : ChangesOnly [r] s.heap.mem m) :
    AccountInv { s with heap := { s.heap with mem := m } } g := by
  have hchanges : ChangesOnly [⟨x.ptr, x.usable⟩] s.heap.mem m := hm.mono fun q hq => by
    rw [List.mem_singleton.1 hq]
    exact ⟨_, List.mem_singleton_self _, hr⟩
  refine ⟨⟨h.blocks.holds.write (h.blocks.offered x hx) hchanges, h.blocks.nodup, h.blocks.offered,
    h.blocks.kind⟩, ⟨h.balanced.total, h.balanced.large⟩, h.apart, fun p hpm => ?_⟩
  obtain ⟨y, hy, hptr, hor⟩ := h.aligned p hpm
  refine ⟨y, hy, hptr, ?_⟩
  by_cases hne : y.ptr = x.ptr
  · rcases hp p hpm (hptr.symm.trans hne) with hsame | hle
    · exact .inl hsame
    · refine hor.imp_right fun hmem => hmem.congr hptr fun z hlow hhigh => hm z fun q hq hzq => ?_
      rw [List.mem_singleton.1 hq, Region.mem_def] at hzq
      omega
  · refine hor.imp_right fun hmem => hmem.congr hptr fun z hlow hhigh => hchanges z fun q hq => ?_
    have hroom := hmem.room
    have hapart := h.blocks.holds.blocks_apart (h.blocks.offered y hy) (h.blocks.offered x hx) hne
    rw [List.mem_singleton.1 hq]
    exact hapart.not_mem ⟨hlow, by dsimp only; omega⟩

end AccountInv

/-- A list without one block. -/
theorem perm_without (hnodup : (live.map HeldBlock.ptr).Nodup) (hx : x ∈ live) :
    live.Perm (x :: live.filter fun y => decide (y.ptr ≠ x.ptr)) := by
  have herase : live.erase x = live.filter fun y => decide (y.ptr ≠ x.ptr) := by
    rw [(List.Nodup.of_map _ hnodup).erase_eq_filter]
    refine List.filter_congr fun y hy => ?_
    have hiff : y = x ↔ y.ptr = x.ptr :=
      ⟨fun heq => heq ▸ rfl, fun heq => List.inj_on_of_nodup_map hnodup hy hx heq⟩
    rw [Bool.eq_iff_iff, bne_iff_ne, decide_eq_true_iff]
    exact not_congr hiff
  rw [← herase]
  exact List.perm_cons_erase hx

/-- A block that is given back is no longer counted. -/
theorem AccountInv.lose (h : AccountInv s g) (hx : x ∈ s.live)
    (hr : Releases voidU64 s.heap k' g g' x.ptr) (hcounts : Uncounts s.heap k' x.bytes x.isLarge) :
    AccountInv ⟨k', s.live.filter fun y => decide (y.ptr ≠ x.ptr),
      s.aligned.filter fun p => decide (p.raw ≠ x.ptr)⟩ g' := by
  have hperm := perm_without h.blocks.nodup hx
  have hbytes := (hperm.map HeldBlock.bytes).sum_eq
  have hcount := hperm.countP_eq HeldBlock.isLarge
  obtain ⟨hsum, hnumber⟩ := h.blocks.sums_lt
  rw [List.map_cons, List.sum_cons] at hbytes
  rw [List.countP_cons] at hcount
  have hkept : ∀ y ∈ s.live.filter fun y => decide (y.ptr ≠ x.ptr), y ∈ s.live ∧ y.ptr ≠ x.ptr :=
    fun y hy => ⟨(List.mem_filter.1 hy).1, of_decide_eq_true (List.mem_filter.1 hy).2⟩
  refine ⟨⟨hr.holds, (List.filter_sublist.map _).nodup h.blocks.nodup, fun y hy =>
    hr.offered _ _ (h.blocks.offered y (hkept y hy).1) (hkept y hy).2,
    fun y hy => h.blocks.kind y (hkept y hy).1⟩, ⟨?_, ?_⟩,
    (List.filter_sublist.map _).nodup h.apart, fun p hp => ?_⟩
  · refine hcounts.total.trans ?_
    rw [h.balanced.total, HeapAccount.liveBytes, HeapAccount.liveBytes, hbytes, u64]
    dsimp only
    omega
  · refine hcounts.large.trans ?_
    rw [h.balanced.large, HeapAccount.liveLarge, HeapAccount.liveLarge, hcount]
    dsimp only
    split
    · rw [u64]
      omega
    · rfl
  · obtain ⟨hpm, hne⟩ := List.mem_filter.1 hp
    obtain ⟨y, hy, hptr, hor⟩ := h.aligned p hpm
    have hne' : y.ptr ≠ x.ptr := hptr ▸ of_decide_eq_true hne
    have hmem' : y ∈ s.live.filter fun y => decide (y.ptr ≠ x.ptr) :=
      List.mem_filter.2 ⟨hy, decide_eq_true hne'⟩
    refine ⟨y, hmem', hptr, hor.imp_right fun hmem => hmem.congr hptr fun z hlow hhigh => ?_⟩
    have hroom := hmem.room
    exact hr.keeps _ _ (hr.offered _ _ (h.blocks.offered y hy) hne') z
      ⟨hlow, by dsimp only; omega⟩

end Seraph
