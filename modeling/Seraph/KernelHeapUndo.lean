import Seraph.KernelHeapAccounts

/-!
# Runs that keep the accounts of the kernel heap

Every call that keeps the accounts (`HeapAccount.Keeps`) preserves `AccountInv` : every call has
room, no aligned block of an alignment up to 16 is given back by `seraph_kfree_aligned`, which looks
for the block in front of its address, and no pages are given for DMA, since `seraph_kmalloc_dma`
does not count them and `seraph_kfree_dma` does.

In such a run the counters are the sums over the blocks, and an aligned block that is given back
leaves the blocks as they were, and so the counters (`HeapAccount.balanced`). Pages for DMA make the
counters wrap below zero (`HeapAccount.not_balanced_dma`).
-/

namespace Seraph

open ByteMem Memory KMalloc Runs

variable {k : KMalloc} {g : HeapShape} {live : List HeldBlock} {s : HeapAccount} {x y : HeldBlock}
  {size ptr n : ℕ} {a : PageAnswers}

/-! ## Giving blocks -/

theorem kmallocSizeClassIndex_none (h : 2048 < size) : kmallocSizeClassIndex size = none := by
  unfold kmallocSizeClassIndex
  repeat rw [if_neg (by omega)]

/-- The block that `seraph_kmalloc` gives. -/
theorem HeldBlock.given_spec (h : Holds voidU64 k g) (hblock : Offered g ptr (blockBytes size)) :
    (given size ptr).ptr = ptr ∧ (given size ptr).usable = blockBytes size ∧
      ((given size ptr).kind = .object ∧ (given size ptr).usable ≤ 2048 ∨
        (given size ptr).kind = .pages ∧ 2048 < (given size ptr).usable) := by
  have hpos := (h.bounds hblock).2.1
  unfold given usable
  unfold blockBytes at hpos ⊢
  cases hclass : kmallocSizeClassIndex size with
  | some idx =>
    have hmax := (sizeClass_bounds (sizeClassIndex_spec hclass).1).2
    exact ⟨rfl, rfl, .inl ⟨rfl, hmax⟩⟩
  | none =>
    rw [hclass] at hpos
    simp only [LargeHeader.size] at hpos
    refine ⟨rfl, rfl, .inr ⟨rfl, ?_⟩⟩
    simp only [if_pos, LargeHeader.size]
    omega

theorem HeldBlock.given_ptr (size ptr : ℕ) : (given size ptr).ptr = ptr := by
  unfold given
  cases kmallocSizeClassIndex size with
  | some idx => rfl
  | none => rfl

theorem HeldBlock.given_counted (size ptr : ℕ) :
    (given size ptr).bytes = (countedBytes size).1 ∧
      (given size ptr).isLarge = (countedBytes size).2 := by
  unfold given countedBytes
  cases kmallocSizeClassIndex size with
  | some idx => exact ⟨rfl, rfl⟩
  | none => exact ⟨rfl, rfl⟩

/-- A call that fails. -/
theorem HeapAccount.gain_void (s : HeapAccount) (x : HeldBlock) :
    s.gain (s.heap, voidU64) x = s := by
  simp [HeapAccount.gain]

namespace AccountInv

/-- The state after a call of `seraph_kmalloc`. -/
theorem kmalloc (h : AccountInv s g) (hfits : s.heap.Fits voidU64 size a) :
    ∃ g', AccountInv (s.gain (s.heap.kmalloc size a)
      (.given size (s.heap.kmalloc size a).2)) g' := by
  obtain ⟨g', hr, hblock⟩ := h.blocks.holds.kmalloc hfits
  have hcounts := kmalloc_counters h.blocks.holds.sizes h.blocks.holds.end_mod size a
  obtain ⟨hbytes, hlarge⟩ := HeldBlock.given_counted size (s.heap.kmalloc size a).2
  rw [← hbytes, ← hlarge] at hcounts
  refine ⟨g', h.gain hr (fun hvoid => ?_) hcounts⟩
  obtain ⟨hptr, husable, hkind⟩ := HeldBlock.given_spec hr.holds (hblock hvoid)
  exact ⟨hptr, husable ▸ hblock hvoid, hkind⟩

/-- No aligned address is in a block that has just been given. -/
theorem raw_ne (h : AccountInv s g) (hlive : s.live = x :: live)
    (hraw : ∀ p ∈ s.aligned, ∃ y ∈ live, y.ptr = p.raw) : ∀ p ∈ s.aligned, p.raw ≠ x.ptr := by
  intro p hp heq
  obtain ⟨y, hy, hptr⟩ := hraw p hp
  have hnodup := h.blocks.nodup
  rw [hlive, List.map_cons, List.nodup_cons] at hnodup
  exact hnodup.1 (List.mem_map.2 ⟨y, hy, hptr.trans heq⟩)

/-- What a call of `seraph_kmalloc` gives is at the head of the blocks, with room for its size. -/
theorem kmalloc_new (h : AccountInv s g) (hserved : s.heap.Served voidU64 size a)
    (hvoid : (s.heap.kmalloc size a).2 ≠ voidU64) :
    let t := s.gain (s.heap.kmalloc size a) (.given size (s.heap.kmalloc size a).2)
    ∃ x g', AccountInv t g' ∧ t.live = x :: s.live ∧ x.ptr = (s.heap.kmalloc size a).2 ∧
      size ≤ x.usable ∧ ∀ p ∈ t.aligned, p.raw ≠ x.ptr := by
  intro t
  obtain ⟨g', ht⟩ := h.kmalloc hserved.fits
  obtain ⟨g₁, hr, hblock⟩ := h.blocks.holds.kmalloc hserved.fits
  obtain ⟨hptr, husable, -⟩ := HeldBlock.given_spec hr.holds (hblock hvoid)
  obtain ⟨-, n, hn, hroom⟩ := hr.new hvoid
  have hn' : n = blockBytes size :=
    (hr.holds.usableSize_eq hn).symm.trans (hr.holds.usableSize_eq (hblock hvoid))
  have hlive : t.live = .given size (s.heap.kmalloc size a).2 :: s.live := if_neg hvoid
  refine ⟨_, g', ht, hlive, hptr, ?_, ht.raw_ne hlive fun p hp => ?_⟩
  · rw [husable, ← hn']
    exact hroom (hserved.no_wrap hvoid)
  · obtain ⟨y, hy, hraw, -⟩ := h.aligned p hp
    exact ⟨y, hy, hraw⟩

/-- The state after a call of `seraph_kcalloc`. -/
theorem kcalloc (h : AccountInv s g) {count : ℕ}
    (hserved : count ≠ 0 → size ≠ 0 → u64 (count * size) / count = size →
      s.heap.Served voidU64 (count * size) a) :
    ∃ g', AccountInv (s.gain (s.heap.kcalloc count size a)
      (.given (u64 (count * size)) (s.heap.kcalloc count size a).2)) g' := by
  unfold KMalloc.kcalloc
  split
  · rw [HeapAccount.gain_void]
    exact ⟨g, h⟩
  · next hzero =>
    obtain ⟨hcount, hsize⟩ := not_or.1 hzero
    by_cases hdiv : u64 (count * size) / count = size
    · have htotal := kcalloc_total hdiv
      have hserved := hserved hcount hsize hdiv
      rw [if_neg (by simp [hdiv]), htotal]
      by_cases hvoid : (s.heap.kmalloc (count * size) a).2 = voidU64
      · rw [if_neg (by simp [hvoid])]
        exact h.kmalloc hserved.fits
      · rw [if_pos hvoid]
        obtain ⟨x, g', ht, hlive, hptr, hroom, hraw⟩ := h.kmalloc_new hserved hvoid
        have hx : x ∈ (s.gain (s.heap.kmalloc (count * size) a)
            (.given (count * size) (s.heap.kmalloc (count * size) a).2)).live := by
          rw [hlive]
          exact List.mem_cons_self
        refine ⟨g', ht.write hx (r := ⟨(s.heap.kmalloc (count * size) a).2, count * size⟩) ?_
          (fun p hp heq => absurd heq (hraw p hp)) (changesOnly_fill _ _ _ _)⟩
        rw [hptr]
        exact ⟨le_rfl, Nat.add_le_add_left hroom _⟩
    · rw [if_pos hdiv, HeapAccount.gain_void]
      exact ⟨g, h⟩

/-- The state after a call of `seraph_kmalloc_pages`. -/
theorem kmallocPages (h : AccountInv s g)
    (hfits : n ≠ 0 → a.Grants n → s.heap.heapEnd + n * 4096 ≤ voidU64) :
    ∃ g', AccountInv (s.gain (s.heap.kmallocPages n a)
      ⟨(s.heap.kmallocPages n a).2, .pages, n * 4096⟩) g' := by
  by_cases hn : n = 0
  · have hfail : s.heap.kmallocPages n a = (s.heap, voidU64) := if_pos (.inr hn)
    rw [hfail, HeapAccount.gain_void]
    exact ⟨g, h⟩
  · have hclass : kmallocSizeClassIndex (n * 4096 - LargeHeader.size) = none :=
      kmallocSizeClassIndex_none (by simp only [LargeHeader.size]; omega)
    obtain ⟨g', hr, hblock⟩ := h.blocks.holds.kmallocPages hfits hclass fun _ => by
      simp only [LargeHeader.size]
      omega
    refine ⟨g', h.gain hr (fun hvoid => ⟨rfl, hblock hvoid, .inr ⟨rfl, ?_⟩⟩)
      (kmallocPages_counters h.blocks.holds.end_mod n a)⟩
    simp only [HeldBlock.usable, if_pos, LargeHeader.size]
    omega

end AccountInv

/-! ## Giving blocks back -/

namespace HoldsBlocks

/-- The page of a block begins with the header of its slab or its own. -/
theorem header (h : HoldsBlocks k g live) (hx : x ∈ live) :
    (x.isLarge = false ∧ k.mem.get (getSlabFromObject x.ptr) LargeHeader.magic ≠ largeHeaderMagic) ∨
    (x.isLarge = true ∧ k.mem.get (getSlabFromObject x.ptr) LargeHeader.magic = largeHeaderMagic ∧
      x.ptr = getSlabFromObject x.ptr + LargeHeader.size) := by
  obtain ⟨-, -, -, -, hlt⟩ := h.holds.ptr_spec (h.offered x hx)
  rcases h.cases hx with ⟨hkind, -, -, b, hb, hobject, -⟩ | ⟨hkind, -, l, hl, -, hptr⟩
  · obtain ⟨hidx, hmod, -, -⟩ := h.holds.slab b hb
    have hobj := hobject.bounds (sizeClass_bounds hidx).1
    have hmin := (sizeClass_bounds hidx).1
    rw [Holds.getSlabFromObject_eq hmod (by omega) (by omega) hlt]
    exact .inl ⟨hkind, h.holds.magic_ne hb⟩
  · have hmod := (h.holds.large l hl).2.1
    have hpage := Holds.getSlabFromObject_eq hmod (x := x.ptr) (by omega)
      (by rw [hptr]; simp only [LargeHeader.size]; omega) hlt
    rw [hpage]
    exact .inr ⟨hkind, (h.holds.header l hl).1, hptr⟩

theorem eq_of_ptr (h : HoldsBlocks k g live) (hx : x ∈ live) (hy : y ∈ live)
    (heq : y.ptr = x.ptr) : y = x :=
  List.inj_on_of_nodup_map h.nodup hy hx heq

/-- `seraph_kfree` gives back the block that it is called for, and no other. -/
theorem kfrees_eq (h : HoldsBlocks k g live) (hx : x ∈ live) (hy : y ∈ live)
    (ha : a.translated = true) : k.kfrees x.ptr a y = decide (y.ptr = x.ptr) := by
  obtain ⟨-, -, hlow, hhigh, -⟩ := h.holds.ptr_spec (h.offered x hx)
  rw [kfrees, decide_eq_true ⟨hlow, hhigh⟩, Bool.true_and]
  rcases h.header hx with ⟨hlarge, hmagic⟩ | ⟨hlarge, hmagic, hpage⟩
  · rw [if_neg hmagic]
    by_cases heq : y.ptr = x.ptr
    · rw [h.eq_of_ptr hx hy heq]
      simp [hlarge]
    · simp [heq]
  · rw [if_pos hmagic, ha]
    by_cases heq : y.ptr = x.ptr
    · rw [h.eq_of_ptr hx hy heq]
      simp [hlarge]
    · rcases h.header hy with ⟨hlarge', -⟩ | ⟨-, -, hpage'⟩
      · simp [hlarge', heq]
      · have hne : getSlabFromObject y.ptr ≠ getSlabFromObject x.ptr := fun hsame =>
          heq (by rw [hpage, hpage', hsame])
        simp [hne, heq]

/-- So does `seraph_kfree_pages` of a large block. -/
theorem kfreesPages_eq (h : HoldsBlocks k g live) (hx : x ∈ live) (hlarge : x.isLarge = true)
    (hy : y ∈ live) (hn : n ≠ 0) (ha : a.translated = true) :
    kfreesPages x.ptr n a y = decide (y.ptr = x.ptr) := by
  obtain ⟨h0, hvoid, hlow, hhigh, -⟩ := h.holds.ptr_spec (h.offered x hx)
  have hkfree := h.kfrees_eq hx hy ha
  rw [kfrees, decide_eq_true ⟨hlow, hhigh⟩, Bool.true_and] at hkfree
  rcases h.header hx with ⟨hsmall, -⟩ | ⟨-, hmagic, -⟩
  · rw [hlarge] at hsmall
    cases hsmall
  · rw [if_pos hmagic] at hkfree
    rw [kfreesPages, decide_eq_true ⟨h0, hvoid, hn⟩, Bool.true_and, hkfree]

end HoldsBlocks

namespace AccountInv

/-- A call that gives back exactly one block. -/
theorem lose_of (h : AccountInv s g) (hx : x ∈ s.live) {k' : KMalloc} {g' : HeapShape}
    {freed : HeldBlock → Bool} (hfreed : ∀ y ∈ s.live, freed y = decide (y.ptr = x.ptr))
    (hr : Releases voidU64 s.heap k' g g' x.ptr) (hcounts : Uncounts s.heap k' x.bytes x.isLarge) :
    AccountInv ⟨k', s.live.filter fun y => !freed y,
      s.aligned.filter fun p => decide (p.raw ≠ x.ptr)⟩ g' := by
  have hlive : (s.live.filter fun y => !freed y) =
      s.live.filter fun y => decide (y.ptr ≠ x.ptr) :=
    List.filter_congr fun y hy => by rw [hfreed y hy, decide_not]
  rw [hlive]
  exact h.lose hx hr hcounts

/-- The aligned addresses are none of a block that is not behind any. -/
theorem filter_plain (hraw : ∀ p ∈ s.aligned, p.raw ≠ x.ptr) :
    (s.aligned.filter fun p => decide (p.raw ≠ x.ptr)) = s.aligned :=
  List.filter_eq_self.2 fun p hp => decide_eq_true (hraw p hp)

/-- The state after a call of `seraph_kfree` for a block. -/
theorem kfree_block (h : AccountInv s g) (hx : x ∈ s.live) (ha : a.translated = true) :
    ∃ g', AccountInv ⟨s.heap.kfree x.ptr a, s.live.filter fun y => !s.heap.kfrees x.ptr a y,
      s.aligned.filter fun p => decide (p.raw ≠ x.ptr)⟩ g' := by
  obtain ⟨g', hr⟩ := h.blocks.holds.kfree (a := a) (h.blocks.offered x hx)
  have hcounts := h.blocks.holds.kfree_counters (h.blocks.offered x hx) ha
  have hsize : (if x.usable ≤ 2048 then x.usable else x.usable + LargeHeader.size) = x.bytes ∧
      decide (2048 < x.usable) = x.isLarge := by
    rcases h.blocks.kind x hx with ⟨hkind, hle⟩ | ⟨hkind, hlt⟩
    · rw [if_pos hle, decide_eq_false (Nat.not_lt.2 hle)]
      simp [HeldBlock.usable, HeldBlock.isLarge, hkind]
    · rw [if_neg (Nat.not_le.2 hlt), decide_eq_true hlt]
      simp only [HeldBlock.usable, HeldBlock.isLarge, hkind, if_pos, LargeHeader.size] at hlt ⊢
      exact ⟨by omega, rfl⟩
  rw [hsize.1, hsize.2] at hcounts
  exact ⟨g', h.lose_of hx (fun y hy => h.blocks.kfrees_eq hx hy ha) hr hcounts⟩

theorem kfree_plain (h : AccountInv s g) (hx : x ∈ s.live) (hraw : ∀ p ∈ s.aligned, p.raw ≠ x.ptr)
    (ha : a.translated = true) :
    ∃ g', AccountInv (s.lose (s.heap.kfree x.ptr a) (s.heap.kfrees x.ptr a)) g' := by
  obtain ⟨g', ht⟩ := h.kfree_block hx ha
  rw [filter_plain hraw] at ht
  exact ⟨g', ht⟩

/-- A call that gives nothing back. -/
theorem lose_none (h : AccountInv s g) {freed : HeldBlock → Bool} (hfreed : ∀ y, freed y = false) :
    AccountInv (s.lose s.heap freed) g := by
  have heq : s.lose s.heap freed = s := by
    simp [HeapAccount.lose, hfreed]
  rwa [heq]

theorem kfrees_null (hnull : ptr = 0 ∨ ptr = voidU64) (hinv : AccountInv s g) (y : HeldBlock) :
    s.heap.kfrees ptr a y = false := by
  have hend := hinv.blocks.holds.end_le
  have hpos : 0 < kheapBase := by decide
  rw [kfrees, decide_eq_false (by omega), Bool.false_and]

/-- The state after a call of `seraph_kfree`. -/
theorem kfree (h : AccountInv s g) (hlegal : s.Legal (.kfree ptr a)) :
    ∃ g', AccountInv (s.lose (s.heap.kfree ptr a) (s.heap.kfrees ptr a)) g' := by
  rcases hlegal with hnull | ⟨⟨x, ⟨hx, hraw⟩, -, rfl⟩, ha⟩
  · rw [kfree_null hnull]
    exact ⟨g, h.lose_none (kfrees_null hnull h)⟩
  · exact h.kfree_plain hx hraw ha

/-- The state after a call of `seraph_kfree_pages`. -/
theorem kfreePages (h : AccountInv s g) (hlegal : s.Legal (.kfreePages ptr n a)) :
    ∃ g', AccountInv (s.lose (s.heap.kfreePages ptr n a) (kfreesPages ptr n a)) g' := by
  rcases hlegal with hnull | ⟨⟨x, ⟨hx, hraw⟩, hkind, rfl, hbytes⟩, ha⟩
  · have hnone : s.heap.kfreePages ptr n a = s.heap := if_pos (hnull.imp_right .inl)
    rw [hnone]
    refine ⟨g, h.lose_none fun y => ?_⟩
    rw [kfreesPages, decide_eq_false (by omega), Bool.false_and, Bool.false_and, Bool.false_and]
  · have hlarge : x.isLarge = true := by simp [HeldBlock.isLarge, hkind]
    obtain ⟨h0, hvoid, -⟩ := h.blocks.holds.ptr_spec (h.blocks.offered x hx)
    have hpos := (h.blocks.span_bounds hx).2.2
    have hn : n ≠ 0 := by omega
    have hlt : n * 4096 < 2 ^ 64 := by
      obtain ⟨-, hend, -⟩ := h.blocks.span_bounds hx
      have hle := h.blocks.holds.end_le
      have hmax : voidU64 = 2 ^ 64 - 1 := rfl
      simp only [HeldBlock.span] at hend
      omega
    have hheap : s.heap.kfreePages x.ptr n a = { s.heap with
        largeAllocCount := u64 (2 ^ 64 - 1 + s.heap.largeAllocCount)
        totalAllocated := u64 (2 ^ 64 - n * 4096 + s.heap.totalAllocated) } := by
      rw [KMalloc.kfreePages, if_neg (by simp [h0, hvoid, hn, h.blocks.holds.initialized]),
        if_pos ha, u64_of_lt hlt]
    have hr : Releases voidU64 s.heap (s.heap.kfreePages x.ptr n a) g g x.ptr := by
      rw [hheap]
      exact ⟨h.blocks.holds.counters _ _, rfl, rfl, rfl, .refl g s.heap.mem, fun _ _ hp _ => hp⟩
    have hcounts : Uncounts s.heap (s.heap.kfreePages x.ptr n a) x.bytes x.isLarge := by
      rw [hheap, hlarge, hbytes]
      exact ⟨rfl, rfl⟩
    have ht := h.lose_of hx (fun y hy => h.blocks.kfreesPages_eq hx hlarge hy hn ha) hr hcounts
    rw [filter_plain hraw] at ht
    exact ⟨g, ht⟩

end AccountInv

/-! ## Moving a block -/

/-- The heap is the one that `seraph_krealloc` leaves. -/
theorem HeapAccount.realloc_heap (s : HeapAccount) (ptr newSize : ℕ) (a : PageAnswers) :
    (s.realloc ptr newSize a).heap = (s.heap.krealloc ptr newSize a).1 := by
  unfold HeapAccount.realloc KMalloc.krealloc
  split
  · rfl
  · split
    · rfl
    · dsimp only
      by_cases hzero : s.heap.usableSize ptr = 0
      · rw [if_pos (.inl hzero), if_pos hzero]
      · rw [if_neg hzero]
        by_cases hle : newSize ≤ s.heap.usableSize ptr
        · rw [if_pos (.inr hle), if_pos hle]
        · rw [if_neg (not_or.2 ⟨hzero, hle⟩), if_neg hle]
          by_cases hvoid : (s.heap.kmalloc newSize a).2 = voidU64
          · rw [if_pos hvoid, if_neg (by simp [hvoid])]
            rfl
          · rw [if_neg hvoid, if_pos hvoid]
            rfl

namespace AccountInv

/-- The state after a call of `seraph_krealloc`. -/
theorem krealloc (h : AccountInv s g) {newSize : ℕ} (hlegal : s.Legal (.krealloc ptr newSize a))
    (hkeeps : s.Keeps (.krealloc ptr newSize a)) :
    ∃ g', AccountInv (s.realloc ptr newSize a) g' := by
  unfold HeapAccount.realloc
  by_cases hnull : ptr = 0 ∨ ptr = voidU64
  · rw [if_pos hnull]
    refine h.kmalloc ?_
    simpa only [HeapAccount.Keeps, if_pos hnull] using hkeeps
  · rw [if_neg hnull]
    obtain ⟨⟨x, ⟨hx, hraw⟩, -, rfl⟩, ha⟩ := hlegal.resolve_left hnull
    by_cases hzero : newSize = 0
    · rw [if_pos hzero]
      exact h.kfree_plain hx hraw ha
    · rw [if_neg hzero]
      have hold : s.heap.usableSize x.ptr = x.usable :=
        h.blocks.holds.usableSize_eq (h.blocks.offered x hx)
      simp only [HeapAccount.Keeps, if_neg hnull, hold] at hkeeps
      dsimp only
      rw [hold]
      by_cases hfits : x.usable = 0 ∨ newSize ≤ x.usable
      · rw [if_pos hfits]
        exact ⟨g, h⟩
      · rw [if_neg hfits]
        obtain ⟨-, hlt⟩ := not_or.1 hfits
        have hserved := hkeeps hzero (Nat.not_le.1 hlt)
        by_cases hvoid : (s.heap.kmalloc newSize a).2 = voidU64
        · rw [if_pos hvoid]
          exact h.kmalloc hserved.fits
        · rw [if_neg hvoid]
          -- a new block, the contents, and then the old block goes
          obtain ⟨y, g₁, ht, hlive, hptr, hroom, -⟩ := h.kmalloc_new hserved hvoid
          generalize s.heap.kmalloc newSize a = r at hvoid ht hlive hptr ⊢
          have hmem : y ∈ (s.gain r (.given newSize r.2)).live := by
            rw [hlive]
            exact List.mem_cons_self
          have hcopied := ht.write hmem (r := ⟨r.2, x.usable⟩)
            ⟨hptr.le, by rw [hptr]; dsimp only; omega⟩
            (fun p hp heq => absurd heq ?_) (changesOnly_copy r.1.mem r.2 x.ptr x.usable)
          · have hx' : x ∈ (s.gain r (.given newSize r.2)).live := by
              rw [hlive]
              exact List.mem_cons_of_mem y hx
            exact hcopied.kfree_plain hx' hraw ha
          · exact ht.raw_ne hlive (fun q hq => by
              obtain ⟨z, hz, hzraw, -⟩ := h.aligned q hq
              exact ⟨z, hz, hzraw⟩) p hp

end AccountInv

/-! ## Aligned blocks -/

/-- Rounding up to an alignment behind the word for the block. -/
theorem alignUp_bounds {raw align : ℕ} (hpow : align &&& (align - 1) = 0) (hpos : align ≠ 0)
    (hlt : raw + 8 + align < 2 ^ 64) :
    raw + 8 ≤ alignUp (u64 (raw + 8)) align ∧ alignUp (u64 (raw + 8)) align < raw + 8 + align := by
  obtain ⟨k, rfl⟩ := (Nat.and_sub_one_eq_zero_iff_isPowerOfTwo hpos).1 hpow
  have hk : k < 64 := (Nat.pow_lt_pow_iff_right (by omega)).1 (show 2 ^ k < 2 ^ 64 by omega)
  have hone := Nat.one_le_two_pow (n := k)
  have hsum : u64 (raw + 8 + 2 ^ k - 1) = raw + 8 + 2 ^ k - 1 := u64_of_lt (by omega)
  rw [u64_of_lt (n := raw + 8) (by omega), alignUp_two_pow _ hk.le, hsum]
  have hle := Nat.div_mul_le_self (raw + 8 + 2 ^ k - 1) (2 ^ k)
  have hmod := Nat.div_add_mod (raw + 8 + 2 ^ k - 1) (2 ^ k)
  have hrem := Nat.mod_lt (raw + 8 + 2 ^ k - 1) (Nat.two_pow_pos k)
  rw [Nat.mul_comm] at hmod
  omega

namespace AccountInv

/-- An aligned address in a block that is behind no other. -/
theorem align (h : AccountInv s g) (hx : x ∈ s.live) (hraw : ∀ p ∈ s.aligned, p.raw ≠ x.ptr)
    {p : AlignedPtr} (hp : x.ptr = p.raw) (hor : p.ptr = p.raw ∨ Remembers s.heap.mem p x) :
    AccountInv { s with aligned := p :: s.aligned } g where
  blocks := h.blocks
  balanced := ⟨h.balanced.total, h.balanced.large⟩
  apart := by
    refine List.nodup_cons.2 ⟨fun hmem => ?_, h.apart⟩
    obtain ⟨q, hq, heq⟩ := List.mem_map.1 hmem
    exact hraw q hq (heq.trans hp.symm)
  aligned := List.forall_mem_cons.2 ⟨⟨x, hx, hp, hor⟩, h.aligned⟩

/-- The state after a call of `seraph_kmalloc_aligned` for an alignment up to 16. -/
theorem kmallocAligned_small (h : AccountInv s g) (hfits : s.heap.Fits voidU64 size a) :
    ∃ g', AccountInv { s.gain (s.heap.kmalloc size a) (.given size (s.heap.kmalloc size a).2) with
      aligned := if (s.heap.kmalloc size a).2 = voidU64 then s.aligned
        else ⟨(s.heap.kmalloc size a).2, (s.heap.kmalloc size a).2, size⟩ :: s.aligned } g' := by
  obtain ⟨g', ht⟩ := h.kmalloc hfits
  refine ⟨g', ?_⟩
  split
  · exact ht
  · next hvoid =>
    have hlive : (s.gain (s.heap.kmalloc size a) (.given size (s.heap.kmalloc size a).2)).live =
        .given size (s.heap.kmalloc size a).2 :: s.live := if_neg hvoid
    obtain ⟨g₁, hr, hblock⟩ := h.blocks.holds.kmalloc hfits
    obtain ⟨hptr, -⟩ := HeldBlock.given_spec hr.holds (hblock hvoid)
    refine ht.align (x := HeldBlock.given size (s.heap.kmalloc size a).2)
      (p := ⟨(s.heap.kmalloc size a).2, (s.heap.kmalloc size a).2, size⟩) ?_ ?_ hptr (.inl rfl)
    · exact hlive ▸ List.mem_cons_self
    · exact ht.raw_ne hlive fun p hp => by
        obtain ⟨y, hy, hraw, -⟩ := h.aligned p hp
        exact ⟨y, hy, hraw⟩

/-- The state after a call of `seraph_kmalloc_aligned` for a larger alignment. -/
theorem kmallocAligned_large (h : AccountInv s g) {align : ℕ} (hsize : size ≠ 0)
    (hpow : align &&& (align - 1) = 0) (hlarge : 16 < align) (hlt : size + align + 8 < 2 ^ 64)
    (hserved : s.heap.Served voidU64 (size + align + 8) a)
    (hvoid : (s.heap.kmalloc (size + align + 8) a).2 ≠ voidU64) :
    let r := s.heap.kmalloc (size + align + 8) a
    let p := alignUp (u64 (r.2 + 8)) align
    let k' := { r.1 with mem := r.1.mem.store (rawAddress p) 8 r.2 }
    p ≠ voidU64 ∧ ∃ g', AccountInv { s.gain (k', p) (.given (size + align + 8) r.2) with
      aligned := ⟨p, r.2, size⟩ :: s.aligned } g' := by
  intro r p k'
  obtain ⟨x, g', ht, hlive, hptr, hroom, hraw⟩ := h.kmalloc_new hserved hvoid
  have hx : x ∈ (s.gain r (.given (size + align + 8) r.2)).live := by
    rw [hlive]
    exact List.mem_cons_self
  have hbounds := ht.blocks.holds.bounds (ht.blocks.offered x hx)
  have hend := ht.blocks.holds.end_le
  have hptr : x.ptr = r.2 := hptr
  have hmax : voidU64 = 2 ^ 64 - 1 := rfl
  obtain ⟨hlow, hhigh⟩ : r.2 + 8 ≤ p ∧ p < r.2 + 8 + align :=
    alignUp_bounds hpow (by omega) (by omega)
  have haddr : rawAddress p = p - 8 := by
    unfold rawAddress u64
    omega
  have hwritten := ht.write hx (r := ⟨rawAddress p, 8⟩)
    ⟨by rw [haddr]; dsimp only; omega, by rw [haddr]; dsimp only; omega⟩
    (fun q hq heq => absurd heq (hraw q hq)) (changesOnly_store r.1.mem (rawAddress p) 8 r.2)
  have hp : p ≠ voidU64 := by omega
  have hgain : s.gain (k', p) (.given (size + align + 8) r.2) =
      s.gain (k', r.2) (.given (size + align + 8) r.2) := by
    simp only [HeapAccount.gain, if_neg hp, if_neg (show ¬ r.2 = voidU64 from hvoid)]
  rw [hgain]
  refine ⟨hp, g', hwritten.align hx hraw (p := ⟨p, r.2, size⟩) hptr
    (.inr ⟨hlow, Nat.pos_of_ne_zero hsize, by dsimp only; omega, ?_⟩)⟩
  have hword := load_store_same r.1.mem (rawAddress p) 8 r.2
  rw [Nat.mod_eq_of_lt (show r.2 < 256 ^ 8 by omega), haddr] at hword
  rw [haddr]
  exact hword

/-- The state after a call of `seraph_kmalloc_aligned`. -/
theorem kmallocAligned (h : AccountInv s g) {align : ℕ}
    (hkeeps : s.Keeps (.kmallocAligned size align a)) :
    ∃ g', AccountInv (s.step (.kmallocAligned size align a)).1 g' := by
  have hfail : s.heap.kmallocAligned size align a = (s.heap, voidU64) →
      AccountInv (s.step (.kmallocAligned size align a)).1 g := fun hfail => by
    simp only [HeapAccount.step, hfail, if_pos]
    rw [HeapAccount.gain_void]
    exact h
  by_cases hzero : size = 0 ∨ align = 0
  · exact ⟨g, hfail (if_pos (.inr hzero))⟩
  · have hstart : ¬ (!s.heap.initialized ∨ size = 0 ∨ align = 0) := by
      simpa [h.blocks.holds.initialized] using hzero
    obtain ⟨hsize, halign⟩ := not_or.1 hzero
    by_cases hpow : align &&& (align - 1) = 0
    · have hkeeps := hkeeps hsize halign hpow
      unfold HeapAccount.step KMalloc.kmallocAligned HeapAccount.alignedRequest
      simp only [if_neg hstart, if_neg (not_not.2 hpow)]
      by_cases hle : align ≤ 16
      · rw [if_pos hle] at hkeeps
        simp only [if_pos hle]
        exact h.kmallocAligned_small hkeeps
      · rw [if_neg hle] at hkeeps
        obtain ⟨hlt, hserved⟩ := hkeeps
        have htotal : alignedTotal size align = size + align + 8 := u64_of_lt hlt
        simp only [if_neg hle, htotal]
        by_cases hvoid : (s.heap.kmalloc (size + align + 8) a).2 = voidU64
        · obtain ⟨g', ht⟩ := h.kmalloc hserved.fits
          rw [show s.heap.kmalloc (size + align + 8) a = (_, voidU64) from Prod.ext rfl hvoid] at ht
          simp only [hvoid, if_pos]
          exact ⟨g', ht⟩
        · obtain ⟨hp, g', ht⟩ :=
            h.kmallocAligned_large hsize hpow (Nat.not_le.1 hle) hlt hserved hvoid
          simp only [if_neg hvoid, if_neg hp]
          exact ⟨g', ht⟩
    · exact ⟨g, hfail (by rw [KMalloc.kmallocAligned, if_neg hstart, if_pos hpow])⟩

/-- An aligned address lies in its block. -/
theorem ptr_mem (h : AccountInv s g) {p : AlignedPtr} (hp : p ∈ s.aligned) :
    ∃ x ∈ s.live, x.ptr = p.raw ∧ p.ptr ∈ Region.mk x.ptr x.usable := by
  obtain ⟨x, hx, hraw, hor⟩ := h.aligned p hp
  refine ⟨x, hx, hraw, ?_⟩
  rw [Region.mem_def]
  dsimp only
  rcases hor with hsame | hmem
  · have hpos := (h.blocks.holds.bounds (h.blocks.offered x hx)).2.1
    omega
  · have hinside := hmem.inside
    have hroom := hmem.room
    have hsize := hmem.pos
    omega

/-- No aligned address is null. -/
theorem ptr_ne_null (h : AccountInv s g) {p : AlignedPtr} (hp : p ∈ s.aligned) :
    ¬ (p.ptr = 0 ∨ p.ptr = voidU64) := by
  obtain ⟨x, hx, -, hin⟩ := h.ptr_mem hp
  have hbounds := h.blocks.holds.bounds (h.blocks.offered x hx)
  have hend := h.blocks.holds.end_le
  have hmax := h.blocks.holds.limit_lt
  rw [Region.mem_def] at hin
  dsimp only at hin
  omega

/-- Aligned addresses are told apart by their blocks. -/
theorem ptr_eq_iff (h : AccountInv s g) {p q : AlignedPtr} (hp : p ∈ s.aligned)
    (hq : q ∈ s.aligned) : q.ptr = p.ptr ↔ q.raw = p.raw := by
  refine ⟨fun heq => ?_, fun heq => ?_⟩
  · obtain ⟨x, hx, hraw, hin⟩ := h.ptr_mem hp
    obtain ⟨y, hy, hraw', hin'⟩ := h.ptr_mem hq
    by_contra hne
    have hapart := h.blocks.holds.blocks_apart (h.blocks.offered y hy) (h.blocks.offered x hx)
      (by rw [hraw, hraw']; exact hne)
    exact hapart.not_mem hin' (heq ▸ hin)
  · rw [List.inj_on_of_nodup_map h.apart hq hp heq]

/-- The block behind an aligned address of its own is remembered in front of it. -/
theorem load_raw (h : AccountInv s g) {p : AlignedPtr} (hp : p ∈ s.aligned) (hne : p.raw ≠ p.ptr) :
    s.heap.mem.load (rawAddress p.ptr) 8 = p.raw := by
  obtain ⟨x, hx, hraw, hor⟩ := h.aligned p hp
  have hmem := hor.resolve_left fun heq => hne heq.symm
  have hinside := hmem.inside
  have hin := h.blocks.holds.end_le
  have hbounds := h.blocks.holds.bounds (h.blocks.offered x hx)
  have hroom := hmem.room
  have hmax := h.blocks.holds.limit_lt
  have haddr : rawAddress p.ptr = p.ptr - 8 := by
    unfold rawAddress u64
    omega
  rw [haddr]
  exact hmem.word

/-- The state after a call of `seraph_kfree_aligned`. -/
theorem kfreeAligned (h : AccountInv s g) (hlegal : s.Legal (.kfreeAligned ptr a))
    (hkeeps : s.Keeps (.kfreeAligned ptr a)) :
    ∃ g', AccountInv (s.step (.kfreeAligned ptr a)).1 g' := by
  rcases hlegal with hnull | ⟨⟨p, hp, rfl⟩, ha⟩
  · have hnone : s.heap.kfreeAligned ptr a = s.heap := if_pos hnull
    have hfilter : (s.aligned.filter fun p => decide (p.ptr ≠ ptr)) = s.aligned :=
      List.filter_eq_self.2 fun p hp => decide_eq_true fun heq => h.ptr_ne_null hp (heq ▸ hnull)
    simp only [HeapAccount.step, hnone, hfilter]
    exact ⟨g, h.lose_none fun y => by rw [decide_eq_false (by omega), Bool.false_and]⟩
  · obtain ⟨x, hx, hraw, -⟩ := h.aligned p hp
    have hnull := h.ptr_ne_null hp
    have hcall : s.heap.kfreeAligned p.ptr a = s.heap.kfree x.ptr a := by
      rw [KMalloc.kfreeAligned, if_neg hnull, h.load_raw hp (hkeeps p hp rfl), hraw]
    have hfilter : (s.aligned.filter fun q => decide (q.ptr ≠ p.ptr)) =
        s.aligned.filter fun q => decide (q.raw ≠ x.ptr) := by
      refine List.filter_congr fun q hq => ?_
      rw [hraw, decide_eq_decide]
      exact not_congr (h.ptr_eq_iff hp hq)
    obtain ⟨g', ht⟩ := h.kfree_block hx ha
    simp only [HeapAccount.step, hcall, hfilter, h.load_raw hp (hkeeps p hp rfl), ← hraw,
      decide_eq_true (not_or.1 hnull), Bool.true_and]
    exact ⟨g', ht⟩

/-! ## Runs -/

/-- No pages are held for DMA, so that only a null pointer is given back. -/
theorem kfreeDma (h : AccountInv s g) (hlegal : s.Legal (.kfreeDma ptr size a)) :
    AccountInv (s.step (.kfreeDma ptr size a)).1 g := by
  rcases hlegal with hnull | ⟨⟨x, ⟨hx, -⟩, hkind, -⟩, -⟩
  · have hnone : s.heap.kfreeDma ptr size a = s.heap := if_pos (by tauto)
    simp only [HeapAccount.step, hnone]
    refine h.lose_none fun y => ?_
    rw [kfreesPages, decide_eq_false (p := _ ∧ _) (by omega), Bool.false_and, Bool.false_and,
      Bool.false_and, Bool.and_false]
  · rcases h.blocks.kind x hx with ⟨hobject, -⟩ | ⟨hpages, -⟩
    · rw [hkind] at hobject
      cases hobject
    · rw [hkind] at hpages
      cases hpages

/-- A call of `seraph_kmalloc_dma` that gets no pages. -/
theorem step_dma (hkeeps : s.Keeps (.kmallocDma size a)) :
    s.step (.kmallocDma size a) = (s, voidU64) := by
  have hfail : s.heap.kmallocDma size a = (s.heap, voidU64) := by
    unfold KMalloc.kmallocDma
    rcases hkeeps with hzero | hgrants
    · rw [if_pos (.inr hzero)]
    · rw [if_neg (c := a.granted = true ∧ _) hgrants, ite_self]
  simp only [HeapAccount.step, hfail, HeapAccount.gain_void]

/-- One step keeps the accounts. -/
theorem step (h : AccountInv s g) {op : AccountOp} (hlegal : s.Legal op) (hkeeps : s.Keeps op) :
    ∃ g', AccountInv (s.step op).1 g' := by
  cases op with
  | kmalloc size a => exact h.kmalloc hkeeps
  | kcalloc count size a => exact h.kcalloc hkeeps
  | krealloc ptr newSize a =>
    obtain ⟨g', ht⟩ := h.krealloc hlegal hkeeps
    refine ⟨g', ?_⟩
    simp only [HeapAccount.step, ← HeapAccount.realloc_heap]
    exact ht
  | kfree ptr a => exact h.kfree hlegal
  | kmallocPages n a => exact h.kmallocPages hkeeps
  | kfreePages ptr n a => exact h.kfreePages hlegal
  | kmallocAligned size align a => exact h.kmallocAligned hkeeps
  | kfreeAligned ptr a => exact h.kfreeAligned hlegal hkeeps
  | kmallocDma size a =>
    rw [step_dma hkeeps]
    exact ⟨g, h⟩
  | kfreeDma ptr size a => exact ⟨g, h.kfreeDma hlegal⟩
  | write addr byte =>
    obtain ⟨x, hx, hin, halone⟩ := hlegal
    rw [Region.mem_def] at hin
    refine ⟨g, h.write hx (r := ⟨addr, 1⟩) ⟨hin.1, hin.2⟩ (fun p hp heq => .inr ?_) fun y hy => ?_⟩
    · exact ((Region.mem_def).1 (halone p hp heq)).1
    · refine Function.update_of_ne (fun heq => hy _ (List.mem_singleton_self _) ?_) _ _
      rw [heq]
      exact ⟨le_rfl, Nat.lt_succ_self _⟩

/-- What `seraph_kmalloc_aligned` has returned is given back without a trace. -/
theorem undone_aligned (h : AccountInv s g) {align : ℕ} {a' : PageAnswers}
    (hkeeps : s.Keeps (.kmallocAligned size align a)) :
    s.Undone (.kmallocAligned size align a) fun p => .kfreeAligned p a' := by
  obtain ⟨g₁, h₁⟩ := h.kmallocAligned hkeeps
  unfold HeapAccount.Undone
  intro r hvoid hlegal hfree s'
  obtain ⟨g₂, h₂⟩ := h₁.step hlegal hfree
  let raw := (s.heap.kmalloc (HeapAccount.alignedRequest size align) a).2
  have hptr : (HeldBlock.given (HeapAccount.alignedRequest size align) raw).ptr = raw :=
    HeldBlock.given_ptr _ _
  have hlive : r.1.live = .given (HeapAccount.alignedRequest size align) raw :: s.live :=
    if_neg hvoid
  have haligned : r.1.aligned = ⟨r.2, raw, size⟩ :: s.aligned := if_neg hvoid
  have hp : ⟨r.2, raw, size⟩ ∈ r.1.aligned := haligned ▸ List.mem_cons_self
  have hx : .given (HeapAccount.alignedRequest size align) raw ∈ r.1.live :=
    hlive ▸ List.mem_cons_self
  have hnull := h₁.ptr_ne_null hp
  have ha := (hlegal.resolve_left hnull).2
  have hword := h₁.load_raw hp (hfree _ hp rfl)
  have hkept : s'.live = s.live := by
    have hfilter : s'.live = r.1.live.filter fun y => decide (y.ptr ≠ raw) := by
      refine List.filter_congr fun y hy => ?_
      have hfrees := h₁.blocks.kfrees_eq hx hy ha
      rw [hptr] at hfrees
      rw [hword, decide_eq_true (not_or.1 hnull)]
      dsimp only
      rw [Bool.true_and, hfrees, decide_not]
    have hnodup := h₁.blocks.nodup
    rw [hlive, List.map_cons, List.nodup_cons, hptr] at hnodup
    rw [hfilter, hlive, List.filter_cons_of_neg (by simp [hptr])]
    exact List.filter_eq_self.2 fun y hy => decide_eq_true fun heq =>
      hnodup.1 (List.mem_map.2 ⟨y, hy, heq⟩)
  refine ⟨hkept, ?_, ?_⟩
  · rw [h.balanced.total, HeapAccount.liveBytes, ← hkept]
    exact h₂.balanced.total
  · rw [h.balanced.large, HeapAccount.liveLarge, ← hkept]
    exact h₂.balanced.large

/-- Pages for DMA that are given are taken from `large_alloc_count`, which they were never added
to. -/
theorem undone_dma (h : AccountInv s g) {a' : PageAnswers} (hsize : size ≠ 0)
    (hpages : dmaPages size ≠ 0) (hfits : s.heap.heapEnd + dmaPages size * 4096 ≤ voidU64)
    (ha : a'.translated = true) :
    (s.Undone (.kmallocDma size a) fun p => .kfreeDma p size a') ↔ ¬ a.Grants (dmaPages size) := by
  have hinit := h.blocks.holds.initialized
  refine ⟨fun hundone hgrants => ?_, fun hgrants hvoid => ?_⟩
  · have hcall : s.heap.kmallocDma size a = ({ s.heap with
        mem := mapPages s.heap.mem a.fresh s.heap.heapEnd (dmaPages size)
        heapEnd := u64 (s.heap.heapEnd + dmaPages size * 4096) }, s.heap.heapEnd) := by
      rw [KMalloc.kmallocDma, if_neg (by simp [hinit, hsize])]
      exact if_pos hgrants
    have hbase := h.blocks.holds.base_le
    have hpos : 0 < kheapBase := by decide
    have hvoid : s.heap.heapEnd ≠ voidU64 := by omega
    have hzero : s.heap.heapEnd ≠ 0 := by omega
    simp only [HeapAccount.Undone, HeapAccount.step, hcall, HeapAccount.gain, if_neg hvoid]
      at hundone
    have hplain : ∀ p ∈ s.aligned, p.raw ≠ s.heap.heapEnd := fun p hp => by
      obtain ⟨y, hy, hraw, -⟩ := h.aligned p hp
      have hbounds := h.blocks.holds.bounds (h.blocks.offered y hy)
      omega
    obtain ⟨-, -, hlarge⟩ := hundone hvoid (.inr ⟨⟨⟨s.heap.heapEnd, .dma, dmaPages size * 4096⟩,
      ⟨List.mem_cons_self, hplain⟩, rfl, rfl, rfl⟩, ha⟩) trivial
    simp only [HeapAccount.lose, KMalloc.kfreeDma, KMalloc.kfreePages, hvoid, hzero, hsize, hinit,
      hpages, ha, or_self, if_false, if_true, Bool.not_true, Bool.false_eq_true] at hlarge
    have hlt := h.blocks.sums_lt.2
    rw [← HeapAccount.liveLarge, ← h.balanced.large] at hlt
    unfold u64 at hlarge
    omega
  · rw [step_dma (.inr hgrants)] at hvoid
    exact absurd rfl hvoid

end AccountInv

theorem accountInv_init (mem : Memory) : AccountInv (HeapAccount.init mem) HeapShape.empty where
  blocks := {
    holds := holds_init mem (by decide) (by decide)
    nodup := List.nodup_nil
    offered := fun x hx => absurd hx List.not_mem_nil
    kind := fun x hx => absurd hx List.not_mem_nil }
  balanced := ⟨rfl, rfl⟩
  apart := List.nodup_nil
  aligned := fun p hp => absurd hp List.not_mem_nil

namespace HeapAccount

/-- In a run of calls that keep the accounts, the counters are the sums over the blocks. What
`seraph_kmalloc_aligned` gives there is given back without a trace, but no pages for DMA are. -/
theorem balanced (mem : Memory) (ops : List AccountOp)
    (h : Guarded step (fun s op => s.Legal op ∧ s.Keeps op) (init mem) ops) :
    (run step (init mem) ops).Balanced ∧
      (∀ size align a a', (run step (init mem) ops).Keeps (.kmallocAligned size align a) →
        (run step (init mem) ops).Undone (.kmallocAligned size align a)
          fun p => .kfreeAligned p a') ∧
      ∀ size a a', size ≠ 0 → dmaPages size ≠ 0 →
        (run step (init mem) ops).heap.heapEnd + dmaPages size * 4096 ≤ voidU64 →
          a'.translated = true →
            (((run step (init mem) ops).Undone (.kmallocDma size a) fun p => .kfreeDma p size a') ↔
              ¬ a.Grants (dmaPages size)) := by
  have hinit : ∃ g, AccountInv (init mem) g := ⟨_, accountInv_init mem⟩
  have hstep : ∀ s op, (∃ g, AccountInv s g) → s.Legal op ∧ s.Keeps op →
      ∃ g, AccountInv (s.step op).1 g := fun s op ⟨_, hs⟩ hok => hs.step hok.1 hok.2
  obtain ⟨g, hinv⟩ := guarded_invariant hstep hinit h
  refine ⟨hinv.balanced, fun size align a a' hkeeps => hinv.undone_aligned hkeeps,
    fun size a a' => hinv.undone_dma⟩

/-- A block and an aligned one, which is given back. -/
def alignedFreed : List AccountOp :=
  [.kmalloc 100 HeapState.allPages, .kmallocAligned 100 64 HeapState.allPages,
    .kfreeAligned (kheapBase + 4160) HeapState.allPages]

theorem balanced_alignedFreed : (run step (init fun _ => 0) alignedFreed).Balanced ∧
    (run step (init fun _ => 0) alignedFreed).live.length = 1 := by
  refine ⟨(balanced (fun _ => 0) alignedFreed
    ⟨⟨trivial, fun _ _ => by decide⟩, ⟨trivial, fun _ _ _ => ?_⟩,
      ⟨.inr ⟨by decide +kernel, rfl⟩, ?_⟩, trivial⟩).1, by decide +kernel⟩
  · rw [if_neg (by decide)]
    exact ⟨by decide, fun _ _ => by decide +kernel⟩
  · change ∀ p ∈ _, _
    decide +kernel

/-- A block for DMA is not counted, and `seraph_kfree_dma` takes it from counters of zero. -/
theorem not_balanced_dma :
    Guarded step Legal (init fun _ => 0)
        [.kmallocDma 4096 HeapState.allPages, .kfreeDma kheapBase 4096 HeapState.allPages] ∧
      ¬ (run step (init fun _ => 0) [.kmallocDma 4096 HeapState.allPages]).Balanced ∧
      (run step (init fun _ => 0) [.kmallocDma 4096 HeapState.allPages,
        .kfreeDma kheapBase 4096 HeapState.allPages]).heap.totalAllocated = 2 ^ 64 - 4096 := by
  refine ⟨⟨trivial, .inr ⟨⟨⟨kheapBase, .dma, 4096⟩, ⟨?_, ?_⟩, rfl, rfl, ?_⟩, rfl⟩, trivial⟩, ?_, ?_⟩
  · decide
  · decide
  · decide
  · exact fun h => absurd h.total (by decide)
  · decide

end HeapAccount

end Seraph
