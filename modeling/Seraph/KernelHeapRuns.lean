import Seraph.KernelHeapCalls
import Seraph.Runs

/-!
# Runs of the kernel heap

Clients call the allocator in any order, give back only blocks that they hold, and write into them
(`HeapState.Legal`). The state records the blocks that they hold, and the slabs and large blocks
that the heap has made. `HeapInv` carries a shape of the heap through a run.

The heap never looks at its maximum, and the size of a large block is rounded up in 64 bits. While
every call that gets pages has room for them (`HeapState.Served`), all blocks are as large as they
were asked for, apart from each other and from all headers, below the maximum, and a block that
moves takes its contents along (`blocks_safe`). A call for almost 2^64 bytes gives a block of one
page (`not_safe_wrapping`).
-/

namespace Seraph

open ByteMem Memory Runs

/-- A block that a client holds, and how many bytes it asked for. -/
structure HeapBlock where
  ptr : ℕ
  requested : ℕ

/-- The heap, the blocks that clients hold, the slabs with their size classes, and the pages where
large blocks begin. -/
structure HeapState where
  heap : KMalloc
  live : List HeapBlock
  slabs : List (ℕ × ℕ)
  larges : List ℕ

/-- The calls of clients, with the answers of the managers of pages, and their writes. -/
inductive HeapOp
  | kmalloc (size : ℕ) (a : PageAnswers)
  | kcalloc (count size : ℕ) (a : PageAnswers)
  | krealloc (ptr newSize : ℕ) (a : PageAnswers)
  | kfree (ptr : ℕ) (a : PageAnswers)
  | write (addr : ℕ) (byte : UInt8)

namespace HeapState

/-- The heap after `seraph_kmalloc_init`. -/
def init (mem : Memory) : HeapState :=
  ⟨KMalloc.init mem, [], [], []⟩

variable (s : HeapState)

/-- The bytes of a block. -/
def region (x : HeapBlock) : Region :=
  ⟨x.ptr, s.heap.usableSize x.ptr⟩

/-- The blocks without one. -/
def without (ptr : ℕ) : List HeapBlock :=
  s.live.filter fun x => x.ptr ≠ ptr

/-- A call for `size` bytes has returned `r`, and the clients keep the blocks `kept`. -/
def allocated (kept : List HeapBlock) (size : ℕ) (r : KMalloc × ℕ) : HeapState where
  heap := r.1
  live := if r.2 = voidU64 then kept else ⟨r.2, size⟩ :: kept
  slabs := newSlabs s.heap r.1 size s.slabs
  larges := newLarges s.heap r.1 size s.larges

/-- One call, and what it returns. -/
def step : HeapOp → HeapState × ℕ
  | .kmalloc size a =>
    let r := s.heap.kmalloc size a
    (s.allocated s.live size r, r.2)
  | .kcalloc count size a =>
    let r := s.heap.kcalloc count size a
    (s.allocated s.live (count * size) r, r.2)
  | .krealloc ptr newSize a =>
    let r := s.heap.krealloc ptr newSize a
    -- without a new block the old one stays, unless the new size is zero
    (s.allocated (if r.2 = voidU64 ∧ newSize ≠ 0 then s.live else s.without ptr) newSize r, r.2)
  | .kfree ptr a => ({ s with heap := s.heap.kfree ptr a, live := s.without ptr }, 0)
  | .write addr byte =>
    ({ s with heap := { s.heap with mem := Function.update s.heap.mem addr byte } }, 0)

/-- Clients give back what they hold, once, and write into it. -/
def Legal : HeapOp → Prop
  | .kmalloc _ _ => True
  | .kcalloc _ _ _ => True
  | .krealloc ptr _ _ => (ptr = 0 ∨ ptr = voidU64) ∨ ∃ x ∈ s.live, x.ptr = ptr
  | .kfree ptr _ => (ptr = 0 ∨ ptr = voidU64) ∨ ∃ x ∈ s.live, x.ptr = ptr
  | .write addr _ => ∃ x ∈ s.live, addr ∈ s.region x

/-- A call that gets pages has room for its block in them, and in the heap. -/
def Served : HeapOp → Prop
  | .kmalloc size a => s.heap.Served heapMax size a
  | .kcalloc count size a =>
    count ≠ 0 → size ≠ 0 → u64 (count * size) / count = size →
      s.heap.Served heapMax (count * size) a
  | .krealloc ptr newSize a =>
    if ptr = 0 ∨ ptr = voidU64 then s.heap.Served heapMax newSize a
    else newSize ≠ 0 → s.heap.usableSize ptr < newSize → s.heap.Served heapMax newSize a
  | .kfree _ _ => True
  | .write _ _ => True

/-- Blocks are as large as they were asked for, apart from each other and from the headers, and
below the maximum. -/
structure Safe : Prop where
  enough : ∀ x ∈ s.live, x.requested ≤ s.heap.usableSize x.ptr
  apart : s.live.Pairwise fun x y => (s.region x).Disjoint (s.region y)
  slabHeaders : ∀ x ∈ s.live, ∀ b ∈ s.slabs, (s.region x).Disjoint ⟨b.1, SlabHeader.size⟩
  largeHeaders : ∀ x ∈ s.live, ∀ l ∈ s.larges, (s.region x).Disjoint ⟨l, LargeHeader.size⟩
  below : s.heap.heapEnd ≤ heapMax ∧
    (∀ x ∈ s.live, kheapBase ≤ x.ptr ∧ x.ptr + s.heap.usableSize x.ptr ≤ s.heap.heapEnd) ∧
    (∀ b ∈ s.slabs, kheapBase ≤ b.1 ∧ b.1 + 4096 ≤ s.heap.heapEnd) ∧
    ∀ l ∈ s.larges, kheapBase ≤ l ∧ l + 4096 ≤ s.heap.heapEnd

end HeapState

/-- A block that `seraph_krealloc` gives has the contents of the old one. -/
def PreservesContents (c : Call HeapState HeapOp ℕ) : Prop :=
  match c.op with
  | .krealloc ptr newSize _ =>
    (∃ x ∈ c.before.live, x.ptr = ptr) → c.result ≠ voidU64 →
      SameBytes c.before.heap.mem ptr (c.before.step c.op).1.heap.mem c.result
        (min (c.before.heap.usableSize ptr) newSize)
  | _ => True

/-- The state has the shape `g`, and offers the blocks that clients hold. -/
structure HeapInv (limit : ℕ) (P : HeapBlock → ℕ → Prop) (s : HeapState) (g : HeapShape) :
    Prop where
  holds : Holds limit s.heap g
  slabs : g.slabs = s.slabs
  larges : g.larges.map Prod.fst = s.larges
  nodup : (s.live.map HeapBlock.ptr).Nodup
  live : ∀ x ∈ s.live, ∃ n, Offered g x.ptr n ∧ P x n

variable {limit : ℕ} {P : HeapBlock → ℕ → Prop} {s : HeapState} {g : HeapShape}

namespace HeapInv

/-- The state after a call that gives a block, or fails, where the clients keep blocks. -/
theorem allocated (h : HeapInv limit P s g) {kept : List HeapBlock} (hkept : kept.Sublist s.live)
    {g' : HeapShape} {size : ℕ} {r : KMalloc × ℕ} (hholds : Holds limit r.1 g')
    (hslabs : g'.slabs = newSlabs s.heap r.1 size g.slabs)
    (hlarges : g'.larges.map Prod.fst = newLarges s.heap r.1 size (g.larges.map Prod.fst))
    (hoffered : ∀ x ∈ kept, ∀ n, Offered g x.ptr n → Offered g' x.ptr n)
    (hnew : r.2 ≠ voidU64 → (∀ x ∈ kept, x.ptr ≠ r.2) ∧
      ∃ n, Offered g' r.2 n ∧ P ⟨r.2, size⟩ n) :
    HeapInv limit P (s.allocated kept size r) g' := by
  have hnodup : (kept.map HeapBlock.ptr).Nodup := (hkept.map _).nodup h.nodup
  have hlive : ∀ x ∈ kept, ∃ n, Offered g' x.ptr n ∧ P x n := by
    intro x hx
    obtain ⟨n, hn, hP⟩ := h.live x (hkept.subset hx)
    exact ⟨n, hoffered x hx n hn, hP⟩
  refine ⟨hholds, by rw [hslabs, h.slabs]; rfl, by rw [hlarges, h.larges]; rfl, ?_, ?_⟩
  · simp only [HeapState.allocated]
    split
    · exact hnodup
    · next hvoid =>
      refine List.nodup_cons.2 ⟨fun hmem => ?_, hnodup⟩
      obtain ⟨x, hx, heq⟩ := List.mem_map.1 hmem
      exact (hnew hvoid).1 x hx heq
  · simp only [HeapState.allocated]
    split
    · exact hlive
    · next hvoid => exact List.forall_mem_cons.2 ⟨(hnew hvoid).2, hlive⟩

/-- The state after a call of `seraph_kmalloc` or `seraph_kcalloc`. -/
theorem allocates (h : HeapInv limit P s g) {size : ℕ} {r : KMalloc × ℕ} {g' : HeapShape}
    (hr : Allocates limit s.heap r.1 g g' size r.2)
    (hP : r.2 ≠ voidU64 → ∀ n, (size + 4127 < 2 ^ 64 → size ≤ n) → P ⟨r.2, size⟩ n) :
    HeapInv limit P (s.allocated s.live size r) g' := by
  refine h.allocated (List.Sublist.refl _) hr.holds hr.slabs hr.larges
    (fun x _ n hn => hr.offered _ _ hn) fun hvoid => ?_
  obtain ⟨hfresh, n, hn, hroom⟩ := hr.new hvoid
  refine ⟨fun x hx heq => ?_, n, hn, hP hvoid n hroom⟩
  obtain ⟨m, hm, -⟩ := h.live x hx
  exact hfresh m (heq ▸ hm)

/-- The state after a block is given back. -/
theorem released (h : HeapInv limit P s g) {ptr : ℕ} {k' : KMalloc} {g' : HeapShape}
    (hr : Releases limit s.heap k' g g' ptr) :
    HeapInv limit P { s with heap := k', live := s.without ptr } g' where
  holds := hr.holds
  slabs := hr.slabs.trans h.slabs
  larges := by rw [hr.larges, h.larges]
  nodup := (List.filter_sublist.map _).nodup h.nodup
  live := fun x hx => by
    obtain ⟨hmem, hne⟩ := List.mem_filter.1 hx
    obtain ⟨n, hn, hP⟩ := h.live x hmem
    exact ⟨n, hr.offered _ _ hn (of_decide_eq_true hne), hP⟩

/-- The state after a call of `seraph_kfree`. -/
theorem kfree (h : HeapInv limit P s g) {ptr : ℕ} {a : PageAnswers}
    (hlegal : s.Legal (.kfree ptr a)) :
    ∃ g', HeapInv limit P (s.step (.kfree ptr a)).1 g' := by
  rcases hlegal with hnull | ⟨x, hx, rfl⟩
  · simp only [HeapState.step, kfree_null hnull]
    exact ⟨g, h.released (h.holds.releases_none ptr)⟩
  · obtain ⟨n, hn, -⟩ := h.live x hx
    obtain ⟨g', hr⟩ := h.holds.kfree (a := a) hn
    exact ⟨g', h.released hr⟩

/-- The size of a block that a client holds. -/
theorem usableSize (h : HeapInv limit P s g) {x : HeapBlock} (hx : x ∈ s.live) :
    Offered g x.ptr (s.heap.usableSize x.ptr) ∧ P x (s.heap.usableSize x.ptr) := by
  obtain ⟨n, hn, hP⟩ := h.live x hx
  rw [h.holds.usableSize_eq hn]
  exact ⟨hn, hP⟩

/-- The state after a write. -/
theorem write (h : HeapInv limit P s g) {addr : ℕ} {byte : UInt8}
    (hlegal : s.Legal (.write addr byte)) : HeapInv limit P (s.step (.write addr byte)).1 g := by
  obtain ⟨x, hx, haddr⟩ := hlegal
  refine ⟨h.holds.write (h.usableSize hx).1 fun y hy => ?_, h.slabs, h.larges, h.nodup, h.live⟩
  have hne : y ≠ addr := by
    rintro rfl
    exact hy _ (List.mem_singleton_self _) haddr
  exact Function.update_of_ne hne _ _

/-- Clients hold no null pointer. -/
theorem without_null (h : HeapInv limit P s g) {ptr : ℕ} (hnull : ptr = 0 ∨ ptr = voidU64) :
    s.without ptr = s.live := by
  refine List.filter_eq_self.2 fun x hx => decide_eq_true fun heq => ?_
  obtain ⟨n, hn, -⟩ := h.live x hx
  obtain ⟨h0, hvoid, -⟩ := h.holds.ptr_spec hn
  exact hnull.elim (fun hzero => h0 (heq.trans hzero)) fun hmax => hvoid (heq.trans hmax)

end HeapInv

/-! ## Runs where every call has room -/

/-- A block has the bytes that it was asked for. -/
def Enough (x : HeapBlock) (n : ℕ) : Prop :=
  x.requested ≤ n

/-- The state after a call of `seraph_krealloc` for a block that a client holds. -/
theorem HeapInv.krealloc (h : HeapInv heapMax Enough s g) {x : HeapBlock} (hx : x ∈ s.live)
    {newSize : ℕ} {a : PageAnswers} (hserved : s.Served (.krealloc x.ptr newSize a)) :
    (∃ g', HeapInv heapMax Enough (s.step (.krealloc x.ptr newSize a)).1 g') ∧
      PreservesContents ⟨s, .krealloc x.ptr newSize a, (s.step (.krealloc x.ptr newSize a)).2⟩ := by
  obtain ⟨hblock, -⟩ := h.usableSize hx
  obtain ⟨h0, hvoid, -⟩ := h.holds.ptr_spec hblock
  have hnull : ¬ (x.ptr = 0 ∨ x.ptr = voidU64) := not_or.2 ⟨h0, hvoid⟩
  simp only [HeapState.Served, if_neg hnull] at hserved
  have hwithout : (s.without x.ptr).Sublist s.live := List.filter_sublist
  have hkept : ∀ y ∈ s.without x.ptr, y ∈ s.live ∧ y.ptr ≠ x.ptr := fun y hy =>
    ⟨(List.mem_filter.1 hy).1, of_decide_eq_true (List.mem_filter.1 hy).2⟩
  by_cases hzero : newSize = 0
  · -- the block is given back
    have hfree : s.heap.krealloc x.ptr newSize a = (s.heap.kfree x.ptr a, voidU64) := by
      rw [KMalloc.krealloc, if_neg hnull, if_pos hzero]
    obtain ⟨g', hr⟩ := h.holds.kfree (a := a) hblock
    simp only [HeapState.step, hfree, PreservesContents]
    rw [if_neg fun hand => hand.2 hzero]
    refine ⟨⟨g', h.allocated hwithout hr.holds ?_ ?_ (fun y hy n hn => ?_) fun hne => ?_⟩,
      fun _ hne => ?_⟩
    · rw [hr.slabs, newSlabs, if_pos hr.heapEnd]
    · rw [hr.larges, newLarges, if_pos hr.heapEnd]
    · exact hr.offered _ _ hn (hkept y hy).2
    · exact absurd rfl hne
    · exact absurd rfl hne
  · obtain ⟨g', hr, hsame⟩ := h.holds.krealloc hblock hzero (hserved hzero)
    refine ⟨⟨g', ?_⟩, fun _ => hsame⟩
    simp only [HeapState.step]
    by_cases hfail : (s.heap.krealloc x.ptr newSize a).2 = voidU64
    · rw [if_pos ⟨hfail, hzero⟩]
      exact h.allocated (List.Sublist.refl _) hr.holds hr.slabs hr.larges
        (fun y _ n hn => hr.offered _ _ hn (.inr hfail)) fun hne => absurd hfail hne
    · rw [if_neg fun hand => hfail hand.1]
      obtain ⟨hfresh, hnew⟩ := hr.new hfail
      refine h.allocated hwithout hr.holds hr.slabs hr.larges
        (fun y hy n hn => hr.offered _ _ hn (.inl (hkept y hy).2)) fun _ => ⟨fun y hy => ?_, hnew⟩
      obtain ⟨n, hn, -⟩ := h.live y (hkept y hy).1
      exact hfresh _ n hn (hkept y hy).2

/-- One step keeps the invariant. -/
theorem HeapInv.step (h : HeapInv heapMax Enough s g) {op : HeapOp} (hlegal : s.Legal op)
    (hserved : s.Served op) :
    (∃ g', HeapInv heapMax Enough (s.step op).1 g') ∧ PreservesContents ⟨s, op, (s.step op).2⟩ := by
  cases op with
  | kmalloc size a =>
    obtain ⟨g', hr, -⟩ := h.holds.kmalloc (KMalloc.Served.fits hserved)
    exact ⟨⟨g', h.allocates hr fun hvoid n hroom =>
      hroom (KMalloc.Served.no_wrap hserved hvoid)⟩, trivial⟩
  | kcalloc count size a =>
    obtain ⟨g', hr, hwrap⟩ := h.holds.kcalloc hserved
    exact ⟨⟨g', h.allocates hr fun hvoid n hroom => hroom (hwrap hvoid)⟩, trivial⟩
  | krealloc ptr newSize a =>
    rcases hlegal with hnull | ⟨x, hx, rfl⟩
    · have hserved : s.heap.Served heapMax newSize a := by
        simpa only [HeapState.Served, if_pos hnull] using hserved
      have hkmalloc : s.heap.krealloc ptr newSize a = s.heap.kmalloc newSize a := if_pos hnull
      obtain ⟨g', hr, -⟩ := h.holds.kmalloc hserved.fits
      refine ⟨⟨g', ?_⟩, fun ⟨x, hx, heq⟩ => ?_⟩
      · simp only [HeapState.step, hkmalloc, h.without_null hnull, ite_self]
        exact h.allocates hr fun hvoid n hroom => hroom (hserved.no_wrap hvoid)
      · obtain ⟨n, hn, -⟩ := h.live x hx
        obtain ⟨h0, hvoid, -⟩ := h.holds.ptr_spec hn
        exact absurd (heq ▸ hnull) (not_or.2 ⟨h0, hvoid⟩)
    · exact h.krealloc hx hserved
  | kfree ptr a => exact ⟨h.kfree hlegal, trivial⟩
  | write addr byte => exact ⟨⟨g, h.write hlegal⟩, trivial⟩

theorem heapInv_init (mem : Memory) (P : HeapBlock → ℕ → Prop) (hbase : kheapBase ≤ limit)
    (hlimit : limit < 2 ^ 64) : HeapInv limit P (HeapState.init mem) HeapShape.empty where
  holds := holds_init mem hbase hlimit
  slabs := rfl
  larges := rfl
  nodup := List.nodup_nil
  live := fun _ hx => absurd hx List.not_mem_nil

/-- A state of that shape is safe. -/
theorem HeapInv.safe (h : HeapInv heapMax Enough s g) : s.Safe where
  enough := fun x hx => (h.usableSize hx).2
  apart := (List.pairwise_map.1 h.nodup).imp_of_mem fun hx hy hne =>
    h.holds.blocks_apart (h.usableSize hx).1 (h.usableSize hy).1 hne
  slabHeaders := fun x hx b hb => by
    obtain ⟨hblock, -⟩ := h.usableSize hx
    exact Region.disjoint_of_not_mem (h.holds.bounds hblock).2.1 (Nat.succ_pos 31) fun y hy hmem =>
      h.holds.not_kept hblock hy (.inl ⟨b, h.slabs ▸ hb, .inl hmem⟩)
  largeHeaders := fun x hx l hl => by
    obtain ⟨hblock, -⟩ := h.usableSize hx
    rw [← h.larges] at hl
    obtain ⟨l', hl', rfl⟩ := List.mem_map.1 hl
    exact Region.disjoint_of_not_mem (h.holds.bounds hblock).2.1 (Nat.succ_pos 31) fun y hy hmem =>
      h.holds.not_kept hblock hy (.inr ⟨l', hl', hmem⟩)
  below := by
    refine ⟨h.holds.end_le, fun x hx => ?_, fun b hb => ?_, fun l hl => ?_⟩
    · have hbounds := h.holds.bounds (h.usableSize hx).1
      omega
    · exact (h.holds.slab b (h.slabs ▸ hb)).2.2
    · rw [← h.larges] at hl
      obtain ⟨l', hl', rfl⟩ := List.mem_map.1 hl
      obtain ⟨hne, -, hlow, hhigh⟩ := h.holds.large l' hl'
      omega

namespace HeapState

/-- In a run where every call has room, all blocks are safe and keep their contents when they
move. -/
theorem blocks_safe (mem : Memory) (ops : List HeapOp)
    (h : Guarded step (fun s op => s.Legal op ∧ s.Served op) (init mem) ops) :
    (run step (init mem) ops).Safe ∧ ∀ c ∈ calls step (init mem) ops, PreservesContents c := by
  have hinit : ∃ g, HeapInv heapMax Enough (init mem) g :=
    ⟨_, heapInv_init mem Enough (by decide) (by decide)⟩
  have hstep : ∀ s op, (∃ g, HeapInv heapMax Enough s g) → s.Legal op ∧ s.Served op →
      (∃ g, HeapInv heapMax Enough (s.step op).1 g) ∧ PreservesContents ⟨s, op, (s.step op).2⟩ :=
    fun s op ⟨_, hinv⟩ hok => hinv.step hok.1 hok.2
  obtain ⟨g, hinv⟩ := guarded_invariant (fun s op hs hok => (hstep s op hs hok).1) hinit h
  exact ⟨hinv.safe, guarded_calls (fun s op hs hok => (hstep s op hs hok).1)
    (fun s op hs hok => (hstep s op hs hok).2) hinit h⟩

/-- Managers of pages that have what is asked for, and pages of zeros. -/
def allPages : PageAnswers :=
  ⟨true, fun _ => true, true, fun _ => 0⟩

/-- Two blocks, the first of which moves. -/
def twoBlocks : List HeapOp :=
  [.kmalloc 24 allPages, .kmalloc 5000 allPages, .krealloc (kheapBase + 32) 200 allPages]

theorem blocks_safe_twoBlocks :
    (run step (init fun _ => 0) twoBlocks).Safe ∧
      (∀ c ∈ calls step (init fun _ => 0) twoBlocks, PreservesContents c) ∧
      (run step (init fun _ => 0) twoBlocks).live.map HeapBlock.ptr =
        [kheapBase + 12320, kheapBase + 4128] := by
  have hserved : (run step (init fun _ => 0) [.kmalloc 24 allPages, .kmalloc 5000 allPages]).Served
      (.krealloc (kheapBase + 32) 200 allPages) := by
    have hne : ¬(kheapBase + 32 = 0 ∨ kheapBase + 32 = voidU64) := by decide
    rw [Served, if_neg hne]
    exact fun _ _ _ _ => by decide +kernel
  obtain ⟨hsafe, hcontents⟩ := blocks_safe (fun _ => 0) twoBlocks
    ⟨⟨trivial, fun _ _ => by decide⟩, ⟨trivial, fun _ _ => by decide +kernel⟩,
      ⟨.inr (by decide +kernel), hserved⟩, trivial⟩
  exact ⟨hsafe, hcontents, by decide +kernel⟩

/-- The usable size of a block of one page at the beginning of the heap. -/
theorem usableSize_onePage {k : KMalloc} (hinit : k.initialized = true)
    (hend : k.heapEnd = kheapBase + 4096)
    (hmagic : k.mem.get kheapBase LargeHeader.magic = largeHeaderMagic)
    (hsize : k.mem.get kheapBase LargeHeader.blockSize = 4064) :
    k.usableSize (kheapBase + 32) = 4064 := by
  have hpage : getSlabFromObject (kheapBase + 32) = kheapBase := by decide
  have hnull : ¬ (kheapBase + 32 = 0 ∨ kheapBase + 32 = voidU64) := by decide
  rw [KMalloc.usableSize, if_neg (by simp only [hinit]; simpa using hnull), if_neg (by omega)]
  simp only [hpage, if_pos hmagic]
  exact hsize

/-- A size that wraps around gets a block of one page. -/
theorem kmalloc_wrapping (mem : Memory) :
    let r := (KMalloc.init mem).kmalloc (2 ^ 64 - 1) allPages
    r.2 = kheapBase + 32 ∧ r.1.usableSize (kheapBase + 32) = 4064 := by
  have hinit : (KMalloc.init mem).initialized = true := rfl
  have hclass : kmallocSizeClassIndex (2 ^ 64 - 1) = none := by decide
  have hpages : KMalloc.largePages (2 ^ 64 - 1) = 1 := by decide
  obtain ⟨hmagic, hsize, -⟩ := largeHeader_assign (mapPages mem allPages.fresh kheapBase 1)
    kheapBase one_ne_zero (by norm_num)
  have heq : (KMalloc.init mem).kmalloc (2 ^ 64 - 1) allPages =
      (KMalloc.init mem).kmallocPages 1 allPages := by
    rw [KMalloc.kmalloc, if_neg (by simp [hinit]), hclass]
    simp only [hpages]
  have hgrants : allPages.granted = true ∧ ∀ i < 1, allPages.mapped i = true :=
    ⟨rfl, fun _ _ => rfl⟩
  have hend : u64 (kheapBase + 1 * 4096) = kheapBase + 4096 := by decide
  have hptr : u64 (kheapBase + LargeHeader.size) = kheapBase + 32 := by decide
  rw [heq, KMalloc.kmallocPages, if_neg (by simp [hinit]), if_pos hgrants]
  exact ⟨hptr, usableSize_onePage rfl hend hmagic hsize⟩

/-- A block of one page is given for a size that wraps around. -/
theorem not_safe_wrapping :
    Guarded step Legal (init fun _ => 0) [.kmalloc (2 ^ 64 - 1) allPages] ∧
      ¬ (run step (init fun _ => 0) [.kmalloc (2 ^ 64 - 1) allPages]).Safe := by
  refine ⟨⟨trivial, trivial⟩, fun hsafe => ?_⟩
  obtain ⟨hptr, hsize⟩ := kmalloc_wrapping fun _ => 0
  have hlive : ⟨kheapBase + 32, 2 ^ 64 - 1⟩ ∈
      (run step (init fun _ => 0) [.kmalloc (2 ^ 64 - 1) allPages]).live := by
    simp only [run_cons, run_nil, step, init, allocated, hptr]
    rw [if_neg (by decide)]
    exact List.mem_cons_self
  have hle := hsafe.enough _ hlive
  simp only [run_cons, run_nil, step, init, allocated, hsize] at hle
  omega

end HeapState

end Seraph
