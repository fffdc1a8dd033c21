import Mathlib.Order.Interval.Finset.Nat
import Seraph.Bitmap
import Seraph.Loops
import Seraph.Runs
import Seraph.Words

/-!
# The physical memory manager

One bit of a bitmap tells whether a 4 KiB page is allocated, and `free_pages` counts the clear
bits. Allocation scans the bitmap by words, from a hint and around, or page by page for a run of
free pages; the other calls set or clear the bits of a range of pages.

`Takes` says what an allocation does to the bits, `Marks` what the other calls do. The invariant
`Valid` is that `free_pages` is the number of clear bits. So in every run an allocation takes
free pages only, and `seraph_pmm_alloc_page` fails only where none is free. The calls round an
address down to a multiple of the page size, while the pages are counted from the base ; so no page
is handed out twice without a call that frees it exactly where the base is aligned
(`hands_out_free_iff`).
-/

namespace Seraph

open Bitmap Loops Runs

/-- `SERAPH_PMM_PAGE_SIZE`. -/
def pmmPageSize : ℕ :=
  4096

/-- `SERAPH_PMM_PAGE_SHIFT`. -/
def pmmPageShift : ℕ :=
  12

/-- `SERAPH_PMM_BITS_PER_WORD`. -/
abbrev pmmBitsPerWord : ℕ :=
  64

/-- `phys_addr & ~(SERAPH_PMM_PAGE_SIZE - 1)`. -/
def pmmPageDown (addr : ℕ) : ℕ :=
  addr &&& (2 ^ 64 - 1 - (pmmPageSize - 1))

theorem pmmPageDown_eq {addr : ℕ} (h : addr < 2 ^ 64) :
    pmmPageDown addr = addr / 4096 * 4096 :=
  and_clear_low (k := 12) h (by norm_num)

/-- `Seraph_PMM`, with its bitmap in place. -/
structure Pmm where
  bitmap : Words pmmBitsPerWord
  totalPages : ℕ
  freePages : ℕ
  baseAddress : ℕ
  lastAlloc : ℕ

namespace Pmm

variable (p : Pmm)

/-- `addr_to_page`. -/
def addrToPage (addr : ℕ) : ℕ :=
  if addr < p.baseAddress then voidU64 else (addr - p.baseAddress) >>> pmmPageShift

/-- `page_to_addr`. -/
def pageToAddr (page : ℕ) : ℕ :=
  u64 (p.baseAddress + page <<< pmmPageShift)

/-- `bitmap_test`. -/
def bitmapTest (page : ℕ) : Bool :=
  test p.bitmap page

/-- `bitmap_set`. -/
def bitmapSet (page : ℕ) : Pmm :=
  { p with bitmap := set p.bitmap page }

/-- `bitmap_clear`. -/
def bitmapClear (page : ℕ) : Pmm :=
  { p with bitmap := clear p.bitmap page }

/-- `free_pages` with `count` subtracted. -/
def freeLess (count : ℕ) : ℕ :=
  u64 (2 ^ 64 - count + p.freePages)

/-- `find_first_clear_bit`. -/
def findFirstClearBit (word : BitVec pmmBitsPerWord) (start : ℕ) : ℕ :=
  let mask := if start > 0 then BitVec.allOnes 64 <<< start else BitVec.allOnes 64
  let inverted := ~~~word &&& mask
  if inverted = 0#64 then 64 else inverted.ctz.toNat

/-- `seraph_pmm_init_manual`. `bitmap_size` bytes of the buffer are cleared. -/
def initManual (buffer : Words pmmBitsPerWord) (bitmapSize base top : ℕ) : Pmm :=
  let total := u64 (2 ^ 64 - base + top) >>> pmmPageShift
  { bitmap := fun i => buffer i >>> (8 * (bitmapSize - 8 * i)) <<< (8 * (bitmapSize - 8 * i))
    totalPages := total
    freePages := total
    baseAddress := base
    lastAlloc := 0 }

/-! ## Allocation -/

/-- One word of the search of `seraph_pmm_alloc_page`. -/
def allocFrom (w : ℕ) : Option (Pmm × ℕ) :=
  let word := p.bitmap w
  if word = BitVec.allOnes 64 then none
  else
    let bit := findFirstClearBit word 0
    if bit < 64 then
      let page := w * pmmBitsPerWord + bit
      if page < p.totalPages then
        some ({ p.bitmapSet page with
          freePages := p.freeLess 1, lastAlloc := w }, p.pageToAddr page)
      else none
    else none

/-- `seraph_pmm_alloc_page` : the words from the hint on, then those before it. -/
def allocPage : Pmm × ℕ :=
  if p.freePages = 0 then (p, voidU64)
  else
    let totalWords := u64 (p.totalPages + pmmBitsPerWord - 1) / pmmBitsPerWord
    match (List.range' p.lastAlloc (totalWords - p.lastAlloc)).findSome? p.allocFrom with
    | some r => r
    | none => ((List.range p.lastAlloc).findSome? p.allocFrom).getD (p, voidU64)

/-- Take the `count` pages from `start` on. -/
def takePages (start count : ℕ) : Pmm × ℕ :=
  let marked := (List.range count).foldl (fun q i => q.bitmapSet (start + i)) p
  ({ marked with
    freePages := p.freeLess count
    lastAlloc := start / pmmBitsPerWord }, p.pageToAddr start)

/-- The first run of `count` free pages : the search of `seraph_pmm_alloc_pages` with `pages`
pages to go. -/
def findRun (count : ℕ) : (pages page runStart runLength : ℕ) → Option ℕ
  | 0, _, _, _ => none
  | pages + 1, page, runStart, runLength =>
    if p.bitmapTest page then findRun count pages (page + 1) runStart 0
    else
      let runStart := if runLength = 0 then page else runStart
      if runLength + 1 ≥ count then some runStart
      else findRun count pages (page + 1) runStart (runLength + 1)

/-- `seraph_pmm_alloc_pages`. -/
def allocPages (count : ℕ) : Pmm × ℕ :=
  if count = 0 ∨ p.freePages < count then (p, voidU64)
  else if count = 1 then p.allocPage
  else
    match p.findRun count p.totalPages 0 0 0 with
    | some start => p.takePages start count
    | none => (p, voidU64)

/-- The `count` pages from `page` on are managed and free. -/
def allFree (page count : ℕ) : Bool :=
  (List.range count).all fun i => page + i < p.totalPages && !p.bitmapTest (page + i)

/-- The search of `seraph_pmm_alloc_pages_aligned`, with at most `rounds` rounds. -/
def findAligned (count alignPages : ℕ) : (rounds page : ℕ) → Option ℕ
  | 0, _ => none
  | rounds + 1, page =>
    if p.totalPages ≤ page then none
    else
      let page := if page &&& (alignPages - 1) ≠ 0 then
        u64 (page + alignPages) &&& (2 ^ 64 - 1 - (alignPages - 1)) else page
      if p.totalPages ≤ page then none
      else if p.allFree page count then some page
      else findAligned count alignPages rounds (page + 1)

/-- `seraph_pmm_alloc_pages_aligned`. -/
def allocPagesAligned (count alignPages : ℕ) : Pmm × ℕ :=
  if count = 0 ∨ alignPages = 0 then (p, voidU64)
  else if alignPages &&& (alignPages - 1) ≠ 0 then (p, voidU64)
  else if p.freePages < count then (p, voidU64)
  else
    match p.findAligned count alignPages (p.totalPages + 1) 0 with
    | some start => p.takePages start count
    | none => (p, voidU64)

/-! ## Marking -/

/-- Clear the bit of a page that is allocated. -/
def openPage (page : ℕ) : Pmm :=
  if p.bitmapTest page then
    { p.bitmapClear page with freePages := u64 (p.freePages + 1) }
  else p

/-- Set the bit of a page that is free. -/
def closePage (page : ℕ) : Pmm :=
  if p.bitmapTest page then p
  else { p.bitmapSet page with freePages := p.freeLess 1 }

/-- `seraph_pmm_free_page`. -/
def freePage (addr : ℕ) : Pmm :=
  let page := p.addrToPage (pmmPageDown addr)
  if page = voidU64 ∨ p.totalPages ≤ page then p else p.openPage page

/-- One round of a loop over a range of pages. It ends where the managed pages do. -/
def pageRound (f : Pmm → ℕ → Pmm) (s : Pmm × ℕ) : Option (Pmm × ℕ) :=
  if s.1.totalPages ≤ s.2 then none else some (f s.1 s.2, s.2 + 1)

/-- The loop over the `count` pages from an address on. -/
def eachPage (f : Pmm → ℕ → Pmm) (addr count : ℕ) : Pmm :=
  let start := p.addrToPage (pmmPageDown addr)
  if count = 0 ∨ start = voidU64 then p
  else (loop (pageRound f) count (p, start)).1

/-- `seraph_pmm_free_pages`. -/
def freePagesAt (addr count : ℕ) : Pmm :=
  p.eachPage openPage addr count

/-- `seraph_pmm_mark_allocated`. -/
def markAllocated (addr count : ℕ) : Pmm :=
  p.eachPage closePage addr count

/-- `seraph_pmm_mark_free`. -/
def markFree (addr count : ℕ) : Pmm :=
  p.eachPage openPage addr count

/-! ## What the calls do to the bits -/

/-- The managed range is the same. -/
def SameRange (p q : Pmm) : Prop :=
  q.totalPages = p.totalPages ∧ q.baseAddress = p.baseAddress

/-- The pages of an interval are given the state `b`, as far as they are managed. -/
structure Marks (b : Bool) (p q : Pmm) (start stop : ℕ) : Prop where
  range : SameRange p q
  test : ∀ i, q.bitmapTest i =
    if start ≤ i ∧ i < stop ∧ i < p.totalPages then b else p.bitmapTest i

/-- The `count` pages from `start` on were free and are taken. -/
structure Takes (p q : Pmm) (start count : ℕ) : Prop where
  below : start + count ≤ p.totalPages
  free : ∀ i, start ≤ i → i < start + count → p.bitmapTest i = false
  marks : Marks true p q start (start + count)
  count : q.freePages = p.freeLess count

/-- The clear bits of the managed pages. -/
def clearPages : Finset ℕ :=
  clearBits p.bitmap p.totalPages

variable {p} {q r : Pmm}

/-- What `bitmap_set` does to the tests. They read the bitmap alone. -/
theorem bitmapTest_set {page : ℕ} (h : q.bitmap = set p.bitmap page) (i : ℕ) :
    q.bitmapTest i = if i = page then true else p.bitmapTest i := by
  rw [bitmapTest, h, test_set]
  by_cases hi : i = page <;> simp [hi, bitmapTest]

/-- What `bitmap_clear` does to the tests. -/
theorem bitmapTest_clear {page : ℕ} (h : q.bitmap = clear p.bitmap page) (i : ℕ) :
    q.bitmapTest i = if i = page then false else p.bitmapTest i := by
  rw [bitmapTest, h, test_clear]
  by_cases hi : i = page <;> simp [hi, bitmapTest]

/-- Only the bitmap and the counters change. -/
theorem sameRange_mk (p : Pmm) (bitmap : Words pmmBitsPerWord) (free last : ℕ) :
    SameRange p { p with bitmap := bitmap, freePages := free, lastAlloc := last } :=
  ⟨rfl, rfl⟩

theorem marks_openPage {page : ℕ} (hpage : page < p.totalPages) :
    Marks false p (p.openPage page) page (page + 1) := by
  have hone : ∀ i, (page ≤ i ∧ i < page + 1 ∧ i < p.totalPages) ↔ i = page := fun i => by omega
  unfold openPage
  split
  · refine ⟨sameRange_mk p _ _ _, fun i => ?_⟩
    simp only [hone]
    exact bitmapTest_clear rfl i
  · next h =>
    refine ⟨⟨rfl, rfl⟩, fun i => ?_⟩
    simp only [hone]
    split
    · next hi => rw [hi, Bool.eq_false_of_not_eq_true h]
    · rfl

theorem marks_closePage {page : ℕ} (hpage : page < p.totalPages) :
    Marks true p (p.closePage page) page (page + 1) := by
  have hone : ∀ i, (page ≤ i ∧ i < page + 1 ∧ i < p.totalPages) ↔ i = page := fun i => by omega
  unfold closePage
  split
  · next h =>
    refine ⟨⟨rfl, rfl⟩, fun i => ?_⟩
    simp only [hone]
    split
    · next hi => rw [hi, h]
    · rfl
  · refine ⟨sameRange_mk p _ _ _, fun i => ?_⟩
    simp only [hone]
    exact bitmapTest_set rfl i

/-- The marks are on the bitmap. -/
theorem Marks.of_bitmap {b : Bool} {start stop : ℕ} (h : Marks b p q start stop)
    (hrange : SameRange q r) (hbitmap : r.bitmap = q.bitmap) : Marks b p r start stop := by
  refine ⟨⟨hrange.1.trans h.range.1, hrange.2.trans h.range.2⟩, fun i => ?_⟩
  rw [bitmapTest, hbitmap]
  exact h.test i

/-- Two intervals, one after the other. -/
theorem Marks.trans {b : Bool} {start mid stop : ℕ} (h : Marks b p q start mid)
    (h' : Marks b q r mid stop) (hle : start ≤ mid) (hle' : mid ≤ stop) :
    Marks b p r start stop := by
  refine ⟨⟨h'.range.1.trans h.range.1, h'.range.2.trans h.range.2⟩, fun i => ?_⟩
  rw [h'.test, h.test, h.range.1]
  by_cases h1 : mid ≤ i ∧ i < stop ∧ i < p.totalPages
  · rw [if_pos h1, if_pos (by omega)]
  · rw [if_neg h1]
    by_cases h2 : start ≤ i ∧ i < mid ∧ i < p.totalPages
    · rw [if_pos h2, if_pos (by omega)]
    · rw [if_neg h2, if_neg (by omega)]

/-- An interval that has no managed page. -/
theorem Marks.refl (b : Bool) (p : Pmm) {start stop : ℕ}
    (h : stop ≤ start ∨ p.totalPages ≤ start) : Marks b p p start stop :=
  ⟨⟨rfl, rfl⟩, fun i => (if_neg (by omega)).symm⟩

/-- The loop over a range marks the range. -/
theorem marks_loop {b : Bool} {f : Pmm → ℕ → Pmm}
    (hf : ∀ q page, page < q.totalPages → Marks b q (f q page) page (page + 1)) :
    ∀ (count : ℕ) (p : Pmm) (page : ℕ),
      Marks b p (loop (pageRound f) count (p, page)).1 page (page + count)
  | 0, p, page => .refl b p (.inl le_rfl)
  | count + 1, p, page => by
    by_cases hend : p.totalPages ≤ page
    · rw [loop_of_none (show pageRound f (p, page) = none from if_pos hend)]
      exact .refl b p (.inr hend)
    · rw [loop_of_some (show pageRound f (p, page) = some (f p page, page + 1) from if_neg hend)]
      refine (hf p page (not_le.1 hend)).trans ?_ (Nat.le_succ _) (by omega)
      have h := marks_loop hf count (f p page) (page + 1)
      rwa [Nat.add_right_comm] at h

/-- What a call on a range of addresses marks. -/
theorem marks_eachPage {b : Bool} {f : Pmm → ℕ → Pmm}
    (hf : ∀ q page, page < q.totalPages → Marks b q (f q page) page (page + 1)) (addr count : ℕ) :
    (p.addrToPage (pmmPageDown addr) = voidU64 ∧ p.eachPage f addr count = p) ∨
      Marks b p (p.eachPage f addr count) (p.addrToPage (pmmPageDown addr))
        (p.addrToPage (pmmPageDown addr) + count) := by
  simp only [eachPage]
  split_ifs with h
  · rcases h with rfl | h
    · exact .inr (.refl b p (.inl le_rfl))
    · exact .inl ⟨h, rfl⟩
  · exact .inr (marks_loop hf count p _)

/-! ## The searches -/

theorem findFirstClearBit_zero (word : BitVec pmmBitsPerWord) :
    findFirstClearBit word 0 = firstClear word := by
  simp only [findFirstClearBit, firstClear, lt_irrefl, if_false, BitVec.and_allOnes]

/-- A word that `seraph_pmm_alloc_page` passes over has no free page. -/
theorem allocFrom_none {w i : ℕ} (h : p.allocFrom w = none) (hw : i / pmmBitsPerWord = w)
    (hi : i < p.totalPages) : p.bitmapTest i = true := by
  by_contra hclear
  rw [bitmapTest, test_eq_getLsbD, hw, Bool.not_eq_true] at hclear
  have hlt : i % 64 < 64 := Nat.mod_lt i (by norm_num)
  obtain ⟨hle, -⟩ := firstClear_spec hlt hclear
  have hne : p.bitmap w ≠ BitVec.allOnes 64 := by
    intro hones
    rw [hones, BitVec.getLsbD_allOnes, decide_eq_true hlt] at hclear
    cases hclear
  have hbit : firstClear (p.bitmap w) < 64 := by omega
  have hpage : w * 64 + firstClear (p.bitmap w) < p.totalPages := by
    have hdiv : i / 64 = w := hw
    omega
  simp only [allocFrom, findFirstClearBit_zero] at h
  rw [if_neg hne, if_pos hbit, if_pos hpage] at h
  cases h

/-- A word where it finds a free page. -/
theorem allocFrom_some {w addr : ℕ} (h : p.allocFrom w = some (q, addr)) :
    ∃ page, addr = p.pageToAddr page ∧ Takes p q page 1 := by
  simp only [allocFrom, findFirstClearBit_zero] at h
  split_ifs at h with hones hbit hpage
  obtain ⟨rfl, rfl⟩ := Prod.mk.inj (Option.some.inj h)
  obtain ⟨k, hk, hclear⟩ := exists_clear_of_ne_allOnes hones
  obtain ⟨-, hfirst⟩ := firstClear_spec hk hclear
  have hfree : p.bitmapTest (w * pmmBitsPerWord + firstClear (p.bitmap w)) = false := by
    rw [bitmapTest, test_eq_getLsbD, Nat.mul_comm, Nat.mul_add_div (by norm_num),
      Nat.div_eq_of_lt hbit, Nat.add_zero, Nat.mul_add_mod, Nat.mod_eq_of_lt hbit]
    exact hfirst
  refine ⟨_, rfl, hpage, fun i h1 h2 => ?_, ⟨⟨rfl, rfl⟩, fun i => ?_⟩, rfl⟩
  · rwa [show i = _ from le_antisymm (Nat.le_of_lt_succ h2) h1]
  · rw [bitmapTest_set rfl i]
    congr 1
    rw [eq_iff_iff]
    omega

/-- `seraph_pmm_alloc_page` looks at every word, and fails only where no page is free. -/
theorem allocPage_spec (htotal : p.totalPages + 64 ≤ 2 ^ 64) :
    (p.allocPage = (p, voidU64) ∧ (p.freePages = 0 ∨ p.clearPages = ∅)) ∨
      ∃ page q, p.allocPage = (q, p.pageToAddr page) ∧ Takes p q page 1 := by
  have htake : ∀ {ws : List ℕ} {r : Pmm × ℕ}, ws.findSome? p.allocFrom = some r →
      ∃ page q, r = (q, p.pageToAddr page) ∧ Takes p q page 1 := by
    intro ws r h
    obtain ⟨w, -, hw⟩ := List.exists_of_findSome?_eq_some h
    obtain ⟨q, addr⟩ := r
    obtain ⟨page, rfl, hq⟩ := allocFrom_some hw
    exact ⟨page, q, rfl, hq⟩
  unfold allocPage
  split
  · next h => exact .inl ⟨rfl, .inl h⟩
  · dsimp only
    split
    · next r h => exact .inr (htake h)
    · next hfrom =>
      cases hbefore : (List.range p.lastAlloc).findSome? p.allocFrom with
      | some r => exact .inr (htake hbefore)
      | none =>
        refine .inl ⟨rfl, .inr (Finset.eq_empty_of_forall_notMem fun i hi => ?_)⟩
        obtain ⟨hi, hclear⟩ := mem_clearBits.1 hi
        rw [List.findSome?_eq_none_iff] at hfrom hbefore
        suffices h : p.allocFrom (i / pmmBitsPerWord) = none from
          Bool.false_ne_true (hclear.symm.trans (allocFrom_none h rfl hi))
        -- the word of the page is before the hint or among those from the hint on
        by_cases hlast : i / pmmBitsPerWord < p.lastAlloc
        · exact hbefore _ (List.mem_range.2 hlast)
        · refine hfrom _ (List.mem_range'_1.2 ⟨not_lt.1 hlast, ?_⟩)
          have hwords : u64 (p.totalPages + pmmBitsPerWord - 1) = p.totalPages + 63 :=
            u64_of_lt (n := p.totalPages + 63) (by omega)
          rw [hwords]
          have hdiv : i / 64 < (p.totalPages + 63) / 64 := by omega
          change i / 64 < p.lastAlloc + ((p.totalPages + 63) / 64 - p.lastAlloc)
          omega

theorem marks_bitmapSet (p : Pmm) (page : ℕ) (hpage : page < p.totalPages) :
    Marks true p (p.bitmapSet page) page (page + 1) := by
  refine ⟨⟨rfl, rfl⟩, fun i => ?_⟩
  rw [bitmapTest_set rfl i]
  congr 1
  rw [eq_iff_iff]
  omega

/-- Taking pages that are free. -/
theorem takes_takePages {start count : ℕ}
    (hfree : ∀ i < count, start + i < p.totalPages ∧ p.bitmapTest (start + i) = false)
    (hpos : count ≠ 0) : Takes p (p.takePages start count).1 start count := by
  have hbelow : start + count ≤ p.totalPages := by
    have h := (hfree (count - 1) (by omega)).1
    omega
  have hmarks : ∀ n ≤ count, Marks true p
      ((List.range n).foldl (fun q i => q.bitmapSet (start + i)) p) start (start + n) := by
    intro n hn
    induction n with
    | zero => exact .refl true p (.inl le_rfl)
    | succ n ih =>
      have h := ih (by omega)
      rw [List.range_succ, List.foldl_append]
      refine h.trans (marks_bitmapSet _ _ ?_) (by omega) (by omega)
      rw [h.range.1]
      omega
  refine ⟨hbelow, fun i h1 h2 => ?_, (hmarks count le_rfl).of_bitmap ⟨rfl, rfl⟩ rfl, rfl⟩
  have h := (hfree (i - start) (by omega)).2
  rwa [Nat.add_sub_cancel' h1] at h

/-- The search for a run of free pages ends with a run, where the pages counted so far are
free. -/
theorem findRun_some {count start : ℕ} (hcount : count ≠ 0) :
    ∀ {pages page runStart runLength : ℕ},
      p.findRun count pages page runStart runLength = some start →
      page + pages = p.totalPages → runLength < count →
      (runLength ≠ 0 → runStart + runLength = page) →
      (∀ i < runLength, p.bitmapTest (runStart + i) = false) →
      ∀ i < count, start + i < p.totalPages ∧ p.bitmapTest (start + i) = false
  | 0, _, _, _, h, _, _, _, _ => nomatch h
  | pages + 1, page, runStart, runLength, h, hpages, hlt, hrun, hfree => by
    rw [findRun] at h
    by_cases htest : p.bitmapTest page
    · rw [if_pos htest] at h
      exact findRun_some hcount h (by omega) (by omega) (fun h => absurd rfl h) (by simp)
    · rw [if_neg htest] at h
      dsimp only at h
      generalize hstart : (if runLength = 0 then page else runStart) = first at h
      have hfirst : first + runLength = page := by
        rw [← hstart]
        split <;> omega
      have hall : ∀ i < runLength + 1, p.bitmapTest (first + i) = false := by
        intro i hi
        rcases Nat.lt_succ_iff_lt_or_eq.1 hi with hi | rfl
        · rw [← hstart, if_neg (by omega)]
          exact hfree i hi
        · rw [hfirst]
          exact Bool.eq_false_of_not_eq_true htest
      split_ifs at h with hlong
      · obtain rfl := Option.some.inj h
        exact fun i hi => ⟨by omega, hall i (by omega)⟩
      · exact findRun_some hcount h (by omega) (by omega) (fun _ => by omega) hall

/-- So does the search for a run at an aligned page. -/
theorem findAligned_some {count alignPages start : ℕ} :
    ∀ {rounds page : ℕ}, p.findAligned count alignPages rounds page = some start →
      ∀ i < count, start + i < p.totalPages ∧ p.bitmapTest (start + i) = false
  | 0, _, h => nomatch h
  | rounds + 1, page, h => by
    rw [findAligned] at h
    by_cases hend : p.totalPages ≤ page
    · rw [if_pos hend] at h
      cases h
    · rw [if_neg hend] at h
      dsimp only at h
      generalize (if page &&& (alignPages - 1) ≠ 0 then _ else page) = aligned at h
      split_ifs at h with hlast hfree
      · obtain rfl := Option.some.inj h
        intro i hi
        have hi := List.all_eq_true.1 hfree i (List.mem_range.2 hi)
        rwa [Bool.and_eq_true, decide_eq_true_iff, Bool.not_eq_true'] at hi
      · exact findAligned_some h

theorem lt_nextAligned {page k : ℕ} (hk : k < 64) (hpage : page < 2 ^ 63) :
    page < u64 (page + 2 ^ k) &&& (2 ^ 64 - 1 - (2 ^ k - 1)) := by
  have hpow : 2 ^ k ≤ 2 ^ 63 := Nat.pow_le_pow_right (by norm_num) (by omega)
  have hpos : 0 < 2 ^ k := Nat.two_pow_pos k
  have hlt : page + 2 ^ k < 2 ^ 64 := by omega
  rw [u64_of_lt hlt, and_clear_low hlt (by omega), Nat.add_div_right _ hpos, Nat.succ_mul]
  exact Nat.lt_div_mul_add hpos

/-- The search at the aligned pages ends by itself : the page goes up in each round. -/
theorem findAligned_add {count k : ℕ} (hk : k < 64) (htotal : p.totalPages ≤ 2 ^ 63) (more : ℕ) :
    ∀ {rounds page : ℕ}, p.totalPages ≤ page + rounds →
      p.findAligned count (2 ^ k) (rounds + more) page = p.findAligned count (2 ^ k) rounds page
  | 0, page, h => by
    cases more with
    | zero => rfl
    | succ more =>
      rw [Nat.zero_add]
      unfold findAligned
      rw [if_pos (by omega)]
  | rounds + 1, page, h => by
    rw [Nat.add_right_comm, findAligned, findAligned]
    by_cases hend : p.totalPages ≤ page
    · rw [if_pos hend, if_pos hend]
    · rw [if_neg hend, if_neg hend]
      have hup : page < u64 (page + 2 ^ k) &&& (2 ^ 64 - 1 - (2 ^ k - 1)) :=
        lt_nextAligned hk (by omega)
      dsimp only
      generalize haligned : (if page &&& (2 ^ k - 1) ≠ 0 then _ else page) = aligned
      have hle : page ≤ aligned := by
        rw [← haligned]
        split <;> omega
      rw [findAligned_add hk htotal more (by omega)]

/-! ## The count -/

/-- The state between calls : `free_pages` counts the clear bits, and the managed addresses are
those of the machine. -/
structure Valid (p : Pmm) : Prop where
  counted : p.freePages = p.clearPages.card
  below : p.baseAddress + p.totalPages * pmmPageSize < 2 ^ 64

theorem Valid.totalPages_lt (hv : Valid p) : p.totalPages < 2 ^ 52 := by
  have h := hv.below
  rw [pmmPageSize] at h
  omega

theorem Valid.freePages_le (hv : Valid p) : p.freePages ≤ p.totalPages := by
  rw [hv.counted]
  exact (Finset.card_filter_le _ _).trans (Finset.card_range _).le

theorem Marks.valid {b : Bool} {start stop : ℕ} (hv : Valid p) (h : Marks b p q start stop)
    (hcount : q.freePages = q.clearPages.card) : Valid q := by
  refine ⟨hcount, ?_⟩
  rw [h.range.1, h.range.2]
  exact hv.below

/-- Taking pages takes them out of the free ones. -/
theorem Takes.clearPages_eq {start count : ℕ} (h : Takes p q start count) :
    q.clearPages = p.clearPages \ Finset.Ico start (start + count) := by
  ext i
  rw [Finset.mem_sdiff, Finset.mem_Ico]
  simp only [clearPages, mem_clearBits]
  change (i < q.totalPages ∧ q.bitmapTest i = false) ↔
    (i < p.totalPages ∧ p.bitmapTest i = false) ∧ _
  rw [h.marks.test, h.marks.range.1]
  split_ifs with hi
  · simp [hi.1, hi.2.1]
  · constructor
    · rintro ⟨h1, h2⟩
      exact ⟨⟨h1, h2⟩, fun h3 => hi ⟨h3.1, h3.2, h1⟩⟩
    · exact fun h1 => h1.1

theorem Takes.card_clearPages {start count : ℕ} (h : Takes p q start count) :
    q.clearPages.card + count = p.clearPages.card := by
  have hsub : Finset.Ico start (start + count) ⊆ p.clearPages := by
    intro i hi
    obtain ⟨h1, h2⟩ := Finset.mem_Ico.1 hi
    exact mem_clearBits.2 ⟨by have := h.below; omega, h.free i h1 h2⟩
  have hcard := Finset.card_sdiff_add_card_eq_card hsub
  rwa [← h.clearPages_eq, Nat.card_Ico, Nat.add_sub_cancel_left] at hcard

/-- An allocation keeps the count. -/
theorem Takes.valid {start count : ℕ} (h : Takes p q start count) (hv : Valid p) : Valid q := by
  refine h.marks.valid hv ?_
  have hcard := h.card_clearPages
  have hlt := hv.totalPages_lt
  have hle := hv.freePages_le
  have hcount := hv.counted
  rw [h.count, freeLess, u64]
  omega

theorem valid_openPage {page : ℕ} (hv : Valid p) (hpage : page < p.totalPages) :
    Valid (p.openPage page) := by
  refine (marks_openPage hpage).valid hv ?_
  have hlt := hv.totalPages_lt
  have hle := hv.freePages_le
  unfold openPage
  split
  · next h =>
    have hcard := card_clearBits_clear hpage h
    exact (u64_of_lt (by omega)).trans ((congrArg (· + 1) hv.counted).trans hcard.symm)
  · exact hv.counted

theorem valid_closePage {page : ℕ} (hv : Valid p) (hpage : page < p.totalPages) :
    Valid (p.closePage page) := by
  refine (marks_closePage hpage).valid hv ?_
  have hlt := hv.totalPages_lt
  have hle := hv.freePages_le
  unfold closePage
  split
  · exact hv.counted
  · next h =>
    have hcard := card_clearBits_set hpage (Bool.eq_false_of_not_eq_true h)
    have hcount := hv.counted
    change p.freeLess 1 = (clearBits (set p.bitmap page) p.totalPages).card
    rw [clearPages] at hcount
    rw [freeLess, u64]
    omega

theorem valid_eachPage {f : Pmm → ℕ → Pmm}
    (hf : ∀ q page, Valid q → page < q.totalPages → Valid (f q page)) (hv : Valid p)
    (addr count : ℕ) : Valid (p.eachPage f addr count) := by
  simp only [eachPage]
  split
  · exact hv
  · refine loop_invariant (I := fun s : Pmm × ℕ => Valid s.1) (fun s t hs ht => ?_) count hv
    rw [pageRound] at ht
    split_ifs at ht with hend
    obtain rfl := Option.some.inj ht
    exact hf _ _ hs (not_le.1 hend)

/-- The bits that `memset` clears. -/
theorem test_initManual (buffer : Words pmmBitsPerWord) {bitmapSize i : ℕ} (base top : ℕ)
    (hi : i < 8 * bitmapSize) : (initManual buffer bitmapSize base top).bitmapTest i = false := by
  have hlow : i % 64 < 8 * (bitmapSize - 8 * (i / 64)) := by omega
  rw [bitmapTest, test_eq_getLsbD]
  simp only [initManual]
  rw [BitVec.getLsbD_shiftLeft, decide_eq_true hlow, Bool.not_true, Bool.and_false, Bool.false_and]

theorem totalPages_initManual (buffer : Words pmmBitsPerWord) (bitmapSize : ℕ) {base top : ℕ}
    (hle : base ≤ top) (htop : top < 2 ^ 64) :
    (initManual buffer bitmapSize base top).totalPages = (top - base) / pmmPageSize := by
  have hrange : 2 ^ 64 - base + top = top - base + 2 ^ 64 := by omega
  change u64 (2 ^ 64 - base + top) >>> pmmPageShift = _
  rw [hrange, u64, Nat.add_mod_right, Nat.mod_eq_of_lt (by omega), Nat.shiftRight_eq_div_pow]
  rfl

/-- All pages are free at the start, where the bitmap covers them. -/
theorem valid_initManual (buffer : Words pmmBitsPerWord) {bitmapSize base top : ℕ}
    (hle : base ≤ top) (htop : top < 2 ^ 64)
    (hcover : (top - base) / pmmPageSize ≤ 8 * bitmapSize) :
    Valid (initManual buffer bitmapSize base top) := by
  have htotal := totalPages_initManual buffer bitmapSize hle htop
  refine ⟨?_, ?_⟩
  · have hall : (initManual buffer bitmapSize base top).clearPages =
        Finset.range (initManual buffer bitmapSize base top).totalPages := by
      refine Finset.filter_true_of_mem fun i hi => ?_
      rw [Finset.mem_range, htotal] at hi
      exact test_initManual buffer base top (hi.trans_le hcover)
    rw [hall, Finset.card_range]
    rfl
  · rw [htotal]
    have hmul := Nat.div_mul_le_self (top - base) pmmPageSize
    change base + _ < _
    omega

/-! ## Runs -/

/-- A call, with the arguments as they are given. -/
inductive Op where
  | allocPage
  | allocPages (count : ℕ)
  | allocPagesAligned (count alignPages : ℕ)
  | freePage (addr : ℕ)
  | freePages (addr count : ℕ)
  | markAllocated (addr count : ℕ)
  | markFree (addr count : ℕ)
deriving DecidableEq, Repr

/-- The pages that an allocation asks for. -/
def Op.count : Op → ℕ
  | .allocPage => 1
  | .allocPages count => u64 count
  | .allocPagesAligned count _ => u64 count
  | _ => 0

/-- What a call asks to free : an address, and a number of pages from the page it is in on. -/
def Op.freed : Op → ℕ × ℕ
  | .freePage addr => (u64 addr, 1)
  | .freePages addr count => (u64 addr, u64 count)
  | .markFree addr count => (u64 addr, u64 count)
  | _ => (0, 0)

/-- A call asks to free the page at `addr` : the address of the call, or one that is whole pages
behind it within the count, lies in that page. -/
def Op.Frees (op : Op) (addr : ℕ) : Prop :=
  ∃ k < op.freed.2, addr ≤ op.freed.1 + k * pmmPageSize ∧
    op.freed.1 + k * pmmPageSize < addr + pmmPageSize

/-- A call, and the address it returns. A call that returns nothing gives VOID here. -/
def step (p : Pmm) : Op → Pmm × ℕ
  | .allocPage => p.allocPage
  | .allocPages count => p.allocPages (u64 count)
  | .allocPagesAligned count alignPages => p.allocPagesAligned (u64 count) (u64 alignPages)
  | .freePage addr => (p.freePage (u64 addr), voidU64)
  | .freePages addr count => (p.freePagesAt (u64 addr) (u64 count), voidU64)
  | .markAllocated addr count => (p.markAllocated (u64 addr) (u64 count), voidU64)
  | .markFree addr count => (p.markFree (u64 addr) (u64 count), voidU64)

/-- The call returns the page with number `i`. -/
def Hands (p : Pmm) (op : Op) (i : ℕ) : Prop :=
  (p.step op).2 ≠ voidU64 ∧ (p.step op).2 ≤ p.baseAddress + i * pmmPageSize ∧
    p.baseAddress + i * pmmPageSize < (p.step op).2 + op.count * pmmPageSize

/-- A state in which every call does what an allocator's must. -/
structure Sound (p : Pmm) : Prop where
  /-- `free_pages` is the number of clear bits. -/
  counted : p.freePages = ((Finset.range p.totalPages).filter fun i => p.bitmapTest i = false).card
  /-- What is returned was free, and it alone is marked. -/
  takes : ∀ op, (p.step op).2 ≠ voidU64 → ∃ page,
    (p.step op).2 = p.baseAddress + page * pmmPageSize ∧ Takes p (p.step op).1 page op.count
  /-- A page is returned again only after a call that frees it. -/
  once : ∀ op ops op' i, p.Hands op i → (run step (p.step op).1 ops).Hands op' i →
    ∃ f ∈ ops, f.Frees (p.baseAddress + i * pmmPageSize)
  /-- `seraph_pmm_alloc_page` fails exactly where no page is free. -/
  fails : (p.step .allocPage).2 = voidU64 ↔ ∀ i < p.totalPages, p.bitmapTest i = true

theorem pageToAddr_eq (hv : Valid p) {page : ℕ} (hpage : page ≤ p.totalPages) :
    p.pageToAddr page = p.baseAddress + page * pmmPageSize := by
  have hshift : page <<< pmmPageShift = page * pmmPageSize := Nat.shiftLeft_eq _ _
  have hmul : page * pmmPageSize ≤ p.totalPages * pmmPageSize := Nat.mul_le_mul_right _ hpage
  rw [pageToAddr, hshift]
  exact u64_of_lt ((Nat.add_le_add_left hmul _).trans_lt hv.below)

theorem pageToAddr_ne (hv : Valid p) {page : ℕ} (hpage : page < p.totalPages) :
    p.pageToAddr page ≠ voidU64 := by
  have hbelow := hv.below
  rw [pageToAddr_eq hv hpage.le, voidU64]
  rw [pmmPageSize] at hbelow ⊢
  exact (Nat.lt_sub_of_add_lt (show p.baseAddress + page * 4096 + 1 < 2 ^ 64 by omega)).ne

/-- What an allocation may do. -/
def Allocates (p : Pmm) (count : ℕ) (r : Pmm × ℕ) : Prop :=
  r = (p, voidU64) ∨ ∃ page, r.2 = p.pageToAddr page ∧ Takes p r.1 page count

theorem allocates_allocPage (hv : Valid p) : p.Allocates 1 p.allocPage := by
  have htotal := hv.totalPages_lt
  rcases allocPage_spec (p := p) (by omega) with ⟨h, -⟩ | ⟨page, q, h, hq⟩
  · exact .inl h
  · exact .inr ⟨page, by rw [h], by rwa [h]⟩

theorem allocates_allocPages (hv : Valid p) (count : ℕ) :
    p.Allocates count (p.allocPages count) := by
  unfold allocPages
  split_ifs with hnone hone
  · exact .inl rfl
  · rw [hone]
    exact allocates_allocPage hv
  · split
    · next start h =>
      push Not at hnone
      exact .inr ⟨start, rfl, takes_takePages (findRun_some hnone.1 h (Nat.zero_add _)
        (Nat.pos_of_ne_zero hnone.1) (fun h => absurd rfl h) (by simp)) hnone.1⟩
    · exact .inl rfl

theorem allocates_allocPagesAligned (p : Pmm) (count alignPages : ℕ) :
    p.Allocates count (p.allocPagesAligned count alignPages) := by
  unfold allocPagesAligned
  split_ifs with hnone halign hfew
  · exact .inl rfl
  · exact .inl rfl
  · exact .inl rfl
  · split
    · next start h =>
      push Not at hnone
      exact .inr ⟨start, rfl, takes_takePages (findAligned_some h) hnone.1⟩
    · exact .inl rfl

/-- Where the managed range is aligned, a page of the range that a call clears is one of those it
asks to free. -/
theorem frees_of_mem {addr count i : ℕ} (hbase : pmmPageSize ∣ p.baseAddress)
    (haddr : addr < 2 ^ 64) (hstart : p.addrToPage (pmmPageDown addr) ≤ i)
    (hstop : i < p.addrToPage (pmmPageDown addr) + count) (hi : i < 2 ^ 52) :
    ∃ k < count, p.baseAddress + i * pmmPageSize ≤ addr + k * pmmPageSize ∧
      addr + k * pmmPageSize < p.baseAddress + i * pmmPageSize + pmmPageSize := by
  obtain ⟨b, hb⟩ := hbase
  rw [addrToPage, pmmPageDown_eq haddr, hb] at hstart hstop
  rw [hb]
  split_ifs at hstart hstop with hlow
  · rw [voidU64] at hstart
    omega
  · rw [pmmPageShift, Nat.shiftRight_eq_div_pow] at hstart hstop
    refine ⟨i - (addr / 4096 * 4096 - pmmPageSize * b) / 2 ^ 12, by omega, ?_⟩
    rw [pmmPageSize] at *
    omega

/-- What a call that is no allocation may do. -/
structure Keeps (p : Pmm) (op : Op) (r : Pmm × ℕ) : Prop where
  result : r.2 = voidU64
  valid : Valid r.1
  range : SameRange p r.1
  frees : pmmPageSize ∣ p.baseAddress → ∀ i < p.totalPages, p.bitmapTest i = true →
    r.1.bitmapTest i = false → op.Frees (p.baseAddress + i * pmmPageSize)

/-- A call that marks the pages it names. -/
theorem keeps_of_marks (hv : Valid p) {op : Op} {b : Bool} {addr count : ℕ} (hq : Valid q)
    (haddr : addr < 2 ^ 64) (hmarks : q = p ∨ Marks b p q (p.addrToPage (pmmPageDown addr))
      (p.addrToPage (pmmPageDown addr) + count))
    (hfreed : b = true ∨ op.freed = (addr, count)) : Keeps p op (q, voidU64) := by
  rcases hmarks with rfl | hmarks
  · exact ⟨rfl, hv, ⟨rfl, rfl⟩, fun _ i _ hset hclear => absurd (hset.symm.trans hclear) (by simp)⟩
  · refine ⟨rfl, hq, hmarks.range, fun hbase i hi hset hclear => ?_⟩
    have hlt := hv.totalPages_lt
    rw [hmarks.test] at hclear
    split_ifs at hclear with hmem
    · subst hclear
      rw [Op.Frees, hfreed.resolve_left Bool.false_ne_true]
      exact frees_of_mem hbase haddr hmem.1 hmem.2.1 (by omega)
    · exact absurd (hset.symm.trans hclear) (by simp)

theorem keeps_eachPage (hv : Valid p) {op : Op} {b : Bool} {f : Pmm → ℕ → Pmm} {addr count : ℕ}
    (hmarks : ∀ q page, page < q.totalPages → Marks b q (f q page) page (page + 1))
    (hvalid : ∀ q page, Valid q → page < q.totalPages → Valid (f q page))
    (haddr : addr < 2 ^ 64) (hfreed : b = true ∨ op.freed = (addr, count)) :
    Keeps p op (p.eachPage f addr count, voidU64) :=
  keeps_of_marks hv (valid_eachPage hvalid hv addr count) haddr
    ((marks_eachPage hmarks addr count).imp_left And.right) hfreed

theorem keeps_freePage (hv : Valid p) (addr : ℕ) :
    Keeps p (.freePage addr) (p.freePage (u64 addr), voidU64) := by
  refine keeps_of_marks (b := false) hv ?_ (u64_lt addr) ?_ (.inr rfl)
  · simp only [freePage]
    split_ifs with h
    · exact hv
    · push Not at h
      exact valid_openPage hv h.2
  · simp only [freePage]
    split_ifs with h
    · exact .inl rfl
    · push Not at h
      exact .inr (marks_openPage h.2)

/-- A call either allocates or keeps what is allocated, as far as it does not name it. -/
theorem step_cases (hv : Valid p) (op : Op) :
    p.Allocates op.count (p.step op) ∨ p.Keeps op (p.step op) := by
  cases op with
  | allocPage => exact .inl (allocates_allocPage hv)
  | allocPages count => exact .inl (allocates_allocPages hv _)
  | allocPagesAligned count alignPages => exact .inl (allocates_allocPagesAligned p _ _)
  | freePage addr => exact .inr (keeps_freePage hv addr)
  | freePages addr count =>
    exact .inr (keeps_eachPage hv (fun _ _ => marks_openPage) (fun _ _ => valid_openPage)
      (u64_lt addr) (.inr rfl))
  | markAllocated addr count =>
    exact .inr (keeps_eachPage hv (fun _ _ => marks_closePage) (fun _ _ => valid_closePage)
      (u64_lt addr) (.inl rfl))
  | markFree addr count =>
    exact .inr (keeps_eachPage hv (fun _ _ => marks_openPage) (fun _ _ => valid_openPage)
      (u64_lt addr) (.inr rfl))

theorem valid_step (hv : Valid p) (op : Op) : Valid (p.step op).1 := by
  rcases step_cases hv op with (h | ⟨page, -, h⟩) | h
  · rwa [h]
  · exact h.valid hv
  · exact h.valid

theorem valid_run (hv : Valid p) (ops : List Op) : Valid (run step p ops) :=
  run_invariant (I := Valid) (fun _ op h => valid_step h op) hv ops

theorem sameRange_step (hv : Valid p) (op : Op) : SameRange p (p.step op).1 := by
  rcases step_cases hv op with (h | ⟨page, -, h⟩) | h
  · rw [h]
    exact ⟨rfl, rfl⟩
  · exact h.marks.range
  · exact h.range

theorem sameRange_run (hv : Valid p) (ops : List Op) : SameRange p (run step p ops) :=
  (run_invariant (I := fun q => Valid q ∧ SameRange p q)
    (fun _ op h => ⟨valid_step h.1 op, (sameRange_step h.1 op).1.trans h.2.1,
      (sameRange_step h.1 op).2.trans h.2.2⟩) ⟨hv, rfl, rfl⟩ ops).2

/-- A bit that a call clears is that of a page the call asks to free. -/
theorem frees_of_step (hv : Valid p) (hbase : pmmPageSize ∣ p.baseAddress) {op : Op} {i : ℕ}
    (hi : i < p.totalPages)
    (hset : p.bitmapTest i = true) (hclear : (p.step op).1.bitmapTest i = false) :
    op.Frees (p.baseAddress + i * pmmPageSize) := by
  rcases step_cases hv op with (h | ⟨page, -, h⟩) | h
  · rw [h] at hclear
    exact absurd (hset.symm.trans hclear) (by simp)
  · rw [h.marks.test, hset, ite_self] at hclear
    cases hclear
  · exact h.frees hbase i hi hset hclear

/-- A page that is taken at the start of a run and free at its end has been freed. -/
theorem frees_of_run (hv : Valid p) (haligned : pmmPageSize ∣ p.baseAddress) {i : ℕ}
    (hi : i < p.totalPages)
    (hset : p.bitmapTest i = true) (ops : List Op)
    (hclear : (run step p ops).bitmapTest i = false) :
    ∃ f ∈ ops, f.Frees (p.baseAddress + i * pmmPageSize) := by
  induction ops generalizing p with
  | nil => exact absurd (hset.symm.trans hclear) (by simp)
  | cons op ops ih =>
    obtain ⟨htotal, hbase⟩ := sameRange_step hv op
    cases h : (p.step op).1.bitmapTest i with
    | false => exact ⟨op, List.mem_cons_self, frees_of_step hv haligned hi hset h⟩
    | true =>
      obtain ⟨f, hf, hfrees⟩ := ih (valid_step hv op) (by rwa [hbase]) (by rwa [htotal]) h hclear
      rw [hbase] at hfrees
      exact ⟨f, List.mem_cons_of_mem _ hf, hfrees⟩

/-- The pages that a call returns are those it takes. -/
theorem hands_takes (hv : Valid p) {op : Op} {i : ℕ} (h : p.Hands op i) :
    i < p.totalPages ∧ p.bitmapTest i = false ∧ (p.step op).1.bitmapTest i = true := by
  obtain ⟨hne, hle, hlt⟩ := h
  rcases step_cases hv op with (h | ⟨page, haddr, h⟩) | h
  · exact absurd (congrArg Prod.snd h) hne
  · have hbelow := h.below
    have hcount : op.count ≠ 0 := by
      intro hzero
      rw [hzero] at hlt
      omega
    rw [haddr, pageToAddr_eq hv (by omega), pmmPageSize] at hle hlt
    have hmem : page ≤ i ∧ i < page + op.count ∧ i < p.totalPages := by omega
    refine ⟨hmem.2.2, h.free i hmem.1 hmem.2.1, ?_⟩
    rw [h.marks.test, if_pos hmem]
  · exact absurd h.result hne

/-- A valid state is sound where the managed range is aligned. -/
theorem Valid.sound (hv : Valid p) (haligned : p.totalPages ≠ 0 → pmmPageSize ∣ p.baseAddress) :
    Sound p where
  counted := hv.counted
  takes := by
    intro op hne
    rcases step_cases hv op with (h | ⟨page, haddr, h⟩) | h
    · exact absurd (congrArg Prod.snd h) hne
    · have hbelow := h.below
      exact ⟨page, haddr.trans (pageToAddr_eq hv (by omega)), h⟩
    · exact absurd h.result hne
  once := by
    intro op ops op' i hfirst hagain
    obtain ⟨hi, -, hset⟩ := hands_takes hv hfirst
    have hdvd := haligned (by omega)
    obtain ⟨htotal, hbase⟩ := sameRange_step hv op
    have hv' := valid_step hv op
    obtain ⟨-, hclear, -⟩ := hands_takes (valid_run hv' ops) hagain
    rw [← hbase]
    exact frees_of_run hv' (by rwa [hbase]) (by rwa [htotal]) hset ops hclear
  fails := by
    change p.allocPage.2 = voidU64 ↔ _
    have htotal := hv.totalPages_lt
    rcases allocPage_spec (p := p) (by omega) with ⟨h, hnone⟩ | ⟨page, q, h, hq⟩
    · rw [h]
      refine iff_of_true rfl fun i hi => ?_
      have hempty : p.clearPages = ∅ := by
        refine hnone.elim (fun hzero => ?_) id
        rwa [hv.counted, Finset.card_eq_zero] at hzero
      by_contra hclear
      have hmem : i ∈ p.clearPages := mem_clearBits.2 ⟨hi, Bool.eq_false_of_not_eq_true hclear⟩
      rw [hempty] at hmem
      cases hmem
    · rw [h]
      refine iff_of_false (pageToAddr_ne hv hq.below) fun hall => ?_
      exact absurd ((hall page hq.below).symm.trans (hq.free page le_rfl (Nat.lt_succ_self _)))
        (by simp)

/-! ## A base that is not aligned -/

theorem clear_of_freePages (hv : Valid p) (hfree : p.freePages = p.totalPages) {i : ℕ}
    (hi : i < p.totalPages) : p.bitmapTest i = false := by
  have hall : p.clearPages = Finset.range p.totalPages :=
    Finset.eq_of_subset_of_card_le (Finset.filter_subset _ _)
      (by rw [Finset.card_range, ← hfree, hv.counted])
  exact (mem_clearBits.1 (hall ▸ Finset.mem_range.2 hi : i ∈ p.clearPages)).2

/-- Where all pages are free, one call takes all of them. -/
theorem step_allPages (hv : Valid p) (hfree : p.freePages = p.totalPages)
    (hpos : 0 < p.totalPages) :
    p.step (.allocPagesAligned p.totalPages 1) = p.takePages 0 p.totalPages := by
  have hlt := hv.totalPages_lt
  have hrun : p.allFree 0 p.totalPages = true := by
    refine List.all_eq_true.2 fun i hi => ?_
    have hi := List.mem_range.1 hi
    rw [Nat.zero_add, clear_of_freePages hv hfree hi, decide_eq_true hi]
    rfl
  have hfind : p.findAligned p.totalPages 1 (p.totalPages + 1) 0 = some 0 := by
    simp [findAligned, hpos.ne', hrun]
  simp [step, allocPagesAligned, u64_of_lt (hlt.trans (by norm_num) : p.totalPages < 2 ^ 64),
    u64_of_lt (show 1 < 2 ^ 64 by norm_num), hpos.ne', hfree, hfind]

theorem hands_allPages (hv : Valid p) (hfree : p.freePages = p.totalPages)
    (hpos : 0 < p.totalPages) : p.Hands (.allocPagesAligned p.totalPages 1) 0 := by
  have hbelow := hv.below
  have hlt := hv.totalPages_lt
  have hsize : 0 < p.totalPages * pmmPageSize := Nat.mul_pos hpos (by norm_num [pmmPageSize])
  have haddr : (p.step (.allocPagesAligned p.totalPages 1)).2 = p.baseAddress := by
    rw [step_allPages hv hfree hpos]
    exact (pageToAddr_eq hv hpos.le).trans (by simp)
  have hcount : Op.count (.allocPagesAligned p.totalPages 1) = p.totalPages :=
    u64_of_lt (hlt.trans (by norm_num))
  rw [Hands, haddr, hcount, voidU64, Nat.zero_mul]
  rw [pmmPageSize] at *
  omega

/-- The address behind the first page is rounded down into that page, which is freed. -/
theorem step_behindFirst (hv : Valid p) (hpos : 0 < p.totalPages)
    (haligned : ¬pmmPageSize ∣ p.baseAddress) :
    (p.step (.freePage (p.baseAddress + pmmPageSize))).1 = p.openPage 0 := by
  have hbelow := hv.below
  have haddr : p.baseAddress + pmmPageSize < 2 ^ 64 := by
    rw [pmmPageSize] at *
    omega
  have hpage : p.addrToPage (pmmPageDown (p.baseAddress + pmmPageSize)) = 0 := by
    have hne : p.baseAddress % 4096 ≠ 0 := fun h => haligned (Nat.dvd_of_mod_eq_zero h)
    rw [addrToPage, pmmPageDown_eq haddr, pmmPageSize, pmmPageShift, Nat.shiftRight_eq_div_pow]
    rw [if_neg (by omega)]
    omega
  simp [step, freePage, u64_of_lt haddr, hpage, voidU64, hpos.ne']

/-- Where the first page is the only free one, it is returned next. -/
theorem hands_firstPage (hv : Valid p) (hpos : 0 < p.totalPages)
    (htest : ∀ i < p.totalPages, p.bitmapTest i = decide (i ≠ 0)) : p.Hands .allocPage 0 := by
  have hbelow := hv.below
  have hlt := hv.totalPages_lt
  rcases allocPage_spec (p := p) (by omega) with ⟨-, hnone⟩ | ⟨page, r, hpage, hr⟩
  · have hmem : 0 ∈ p.clearPages := mem_clearBits.2 ⟨hpos, htest 0 hpos⟩
    rw [hv.counted, Finset.card_eq_zero, or_self] at hnone
    rw [hnone] at hmem
    cases hmem
  · have hlast := hr.below
    obtain rfl : page = 0 := by
      have hfirst := (htest page (by omega)).symm.trans (hr.free page le_rfl (by omega))
      simpa using hfirst
    have hstep : (p.step .allocPage).2 = p.baseAddress := by
      rw [step, hpage]
      exact (pageToAddr_eq hv (Nat.zero_le _)).trans (by simp)
    rw [Hands, hstep, voidU64]
    simp only [Op.count, pmmPageSize] at *
    omega

/-- Where the managed range is not aligned, the address behind its first page is rounded down into
that page. So the page is returned twice though no call has asked to free it. -/
theorem Valid.not_sound (hv : Valid p) (hfree : p.freePages = p.totalPages)
    (hpos : 0 < p.totalPages) (haligned : ¬pmmPageSize ∣ p.baseAddress) : ¬Sound p := by
  have htakes : Takes p (p.takePages 0 p.totalPages).1 0 p.totalPages := by
    refine takes_takePages (fun i hi => ?_) hpos.ne'
    rw [Nat.zero_add]
    exact ⟨hi, clear_of_freePages hv hfree hi⟩
  rw [← step_allPages hv hfree hpos] at htakes
  intro hsound
  have honce := hsound.once _ [.freePage (p.baseAddress + pmmPageSize)] .allocPage 0
    (hands_allPages hv hfree hpos)
  generalize (p.step (.allocPagesAligned p.totalPages 1)).1 = q at htakes honce
  obtain ⟨htotal, hbase⟩ := htakes.marks.range
  have hq : Valid q := htakes.valid hv
  have hreopened : (q.step (.freePage (p.baseAddress + pmmPageSize))).1 = q.openPage 0 := by
    rw [← hbase] at haligned ⊢
    exact step_behindFirst hq (by rwa [htotal]) haligned
  have hmarks : Marks false q (q.openPage 0) 0 (0 + 1) := marks_openPage (by rwa [htotal])
  have hagain : (q.openPage 0).Hands .allocPage 0 := by
    refine hands_firstPage (valid_openPage hq (by rwa [htotal])) ?_ fun i hi => ?_
    · rwa [hmarks.range.1, htotal]
    · rw [hmarks.range.1, htotal] at hi
      rw [hmarks.test, htakes.marks.test, htotal]
      by_cases hzero : i = 0
      · simp [hzero, hpos]
      · rw [if_neg (by omega), if_pos (by omega), decide_eq_true hzero]
  rw [← hreopened] at hagain
  -- the call that frees names no address of the first page
  obtain ⟨f, hf, k, hk, -, hlt⟩ := honce hagain
  obtain rfl := List.mem_singleton.1 hf
  obtain rfl : k = 0 := Nat.lt_one_iff.1 hk
  have hbelow := hv.below
  have haddr : u64 (p.baseAddress + pmmPageSize) = p.baseAddress + pmmPageSize :=
    u64_of_lt (by rw [pmmPageSize] at *; omega)
  change u64 (p.baseAddress + pmmPageSize) + _ < _ at hlt
  rw [haddr] at hlt
  omega

/-- From `seraph_pmm_init_manual` on every state is sound, exactly where the base is aligned or
there is no page. -/
theorem hands_out_free_iff (buffer : Words pmmBitsPerWord) {bitmapSize base top : ℕ}
    (hle : base ≤ top) (htop : top < 2 ^ 64)
    (hcover : (top - base) / pmmPageSize ≤ 8 * bitmapSize) :
    (∀ ops, Sound (run step (initManual buffer bitmapSize base top) ops)) ↔
      pmmPageSize ∣ base ∨ top - base < pmmPageSize := by
  have hv := valid_initManual buffer hle htop hcover
  constructor
  · intro h
    by_contra hnot
    push Not at hnot
    have hpos : 0 < (top - base) / pmmPageSize := Nat.div_pos hnot.2 (by norm_num [pmmPageSize])
    rw [← totalPages_initManual buffer bitmapSize hle htop] at hpos
    exact hv.not_sound rfl hpos hnot.1 (h [])
  · intro h ops
    obtain ⟨htotal, hbase⟩ := sameRange_run hv ops
    refine (valid_run hv ops).sound fun hne => ?_
    rw [htotal, totalPages_initManual buffer bitmapSize hle htop] at hne
    rw [hbase]
    exact h.resolve_right fun hsmall => hne (Nat.div_eq_of_lt hsmall)

/-- Three pages from an aligned base on, of which two are taken and one is given back by an address
inside it. -/
theorem hands_out_free_three :
    Sound (run step (initManual (fun _ => 0#64) 8 0x1000 0x4000)
      [.allocPages 2, .freePage 0x2800, .allocPage]) :=
  (hands_out_free_iff _ (by norm_num) (by norm_num) (by decide)).2 (.inl (by decide)) _

/-- From the base 0x1800 on, `seraph_pmm_free_page` of 0x2800 frees the page at 0x1800. -/
theorem not_hands_out_free_unalignedBase :
    ¬∀ ops, Sound (run step (initManual (fun _ => 0#64) 8 0x1800 0x4800) ops) := by
  have hv := valid_initManual (fun _ => 0#64) (by norm_num : 0x1800 ≤ 0x4800) (by norm_num)
    (by decide : (0x4800 - 0x1800) / pmmPageSize ≤ 8 * 8)
  exact fun h => hv.not_sound rfl (by decide) (by decide) (h [])

end Pmm

end Seraph
