import Seraph.PhysicalMemory

/-!
# Runs of free pages

`seraph_pmm_alloc_pages` fails only where there is no run of free pages (`allocPages_void`).
`seraph_pmm_alloc_pages_aligned` looks at the page numbers that are multiples of the alignment, and
finds a run there if there is one (`findAligned_none`). The number of a page is counted from
`base_address`, so its physical address has the alignment just where `base_address` has it
(`aligned_iff`).
-/

namespace Seraph

open Bitmap

namespace Pmm

variable (p : Pmm)

/-- `count` free pages from page `start` on. Nothing is no run. -/
structure FreeRun (start count : ℕ) : Prop where
  pos : 0 < count
  free : ∀ i < count, start + i < p.totalPages ∧ p.bitmapTest (start + i) = false

/-- What the allocations of several pages promise : an address with the alignment, of pages that
were free, and VOID only where there are no such pages. -/
structure RunsFound (count alignPages : ℕ) : Prop where
  aligned : (p.allocPagesAligned count alignPages).2 ≠ voidU64 →
    (p.allocPagesAligned count alignPages).2 % (alignPages * pmmPageSize) = 0 ∧
      ∃ start, (p.allocPagesAligned count alignPages).2 = p.pageToAddr start ∧
        p.FreeRun start count
  alignedVoid : (p.allocPagesAligned count alignPages).2 = voidU64 →
    ¬∃ start, p.FreeRun start count ∧ p.pageToAddr start % (alignPages * pmmPageSize) = 0
  void : (p.allocPages count).2 = voidU64 → ¬∃ start, p.FreeRun start count

variable {p} {start count k : ℕ}

theorem FreeRun.lt (h : p.FreeRun start count) : start < p.totalPages :=
  (h.free 0 h.pos).1

/-- A run is counted in the free pages. -/
theorem FreeRun.le_freePages (h : p.FreeRun start count) (hv : Valid p) :
    count ≤ p.freePages := by
  rw [hv.counted]
  have hsub : (Finset.range count).image (start + ·) ⊆ p.clearPages := by
    intro i hi
    obtain ⟨j, hj, rfl⟩ := Finset.mem_image.1 hi
    exact mem_clearBits.2 (h.free j (Finset.mem_range.1 hj))
  have hcard := Finset.card_le_card hsub
  rwa [Finset.card_image_of_injective _ (add_right_injective start), Finset.card_range] at hcard

/-! ## The scan for a run -/

/-- A scan that finds nothing has passed every run that begins with the pages counted last. -/
theorem findRun_none : ∀ {pages page runStart runLength : ℕ},
    p.findRun count pages page runStart runLength = none → page + pages = p.totalPages →
    runLength < count → runLength ≤ page → page - runLength ≤ start → ¬p.FreeRun start count
  | 0, page, _, runLength, _, hpages, hlt, hle, hstart => by
    intro h
    have hlast := (h.free (count - 1) (Nat.sub_lt h.pos Nat.one_pos)).1
    omega
  | pages + 1, page, runStart, runLength, hnone, hpages, hlt, hle, hstart => by
    rw [findRun] at hnone
    by_cases htest : p.bitmapTest page
    · rw [if_pos htest] at hnone
      by_cases hnext : page < start
      · exact findRun_none hnone (by omega) (by omega) (Nat.zero_le _) hnext
      · -- the page is one of the run
        intro h
        have hfree := (h.free (page - start) (by omega)).2
        rw [Nat.add_sub_cancel' (not_lt.1 hnext), htest] at hfree
        cases hfree
    · rw [if_neg htest] at hnone
      dsimp only at hnone
      split_ifs at hnone with hlong
      · exact findRun_none hnone (by omega) (by omega) (by omega) (by omega)
      · exact findRun_none hnone (by omega) (by omega) (by omega) (by omega)

/-- `seraph_pmm_alloc_pages` fails only where there is no run. -/
theorem allocPages_void (hv : Valid p)
    (hvoid : (p.allocPages count).2 = voidU64) : ¬∃ start, p.FreeRun start count := by
  rintro ⟨start, h⟩
  have hpos := h.pos
  have hle := h.le_freePages hv
  have htotal := hv.totalPages_lt
  unfold allocPages at hvoid
  rw [if_neg (by omega)] at hvoid
  split at hvoid
  · next hone =>
    rcases allocPage_spec (p := p) (by omega) with ⟨-, hnone⟩ | ⟨page, q, heq, htakes⟩
    · have hcount := hv.counted
      have hempty : p.freePages = 0 := by
        rcases hnone with hzero | hempty
        · exact hzero
        · rw [hcount, hempty, Finset.card_empty]
      omega
    · rw [heq] at hvoid
      exact absurd hvoid (pageToAddr_ne hv (Nat.lt_of_succ_le htakes.below))
  · split at hvoid
    · next start' hfind =>
      have hrun := findRun_some hpos.ne' hfind (Nat.zero_add _) hpos
        (fun h => absurd rfl h) (fun i hi => absurd hi (Nat.not_lt_zero i))
      exact absurd hvoid (pageToAddr_ne hv (hrun 0 hpos).1)
    · next hnone =>
      exact findRun_none hnone (Nat.zero_add _) hpos le_rfl (Nat.zero_le _) h

/-! ## The scan at the aligned pages -/

/-- The page that a round looks at is the next multiple of the alignment. -/
theorem nextAligned_spec {page : ℕ} (hk : k < 64) (hpage : page < 2 ^ 63) :
    let aligned := if page &&& (2 ^ k - 1) ≠ 0 then
      u64 (page + 2 ^ k) &&& (2 ^ 64 - 1 - (2 ^ k - 1)) else page
    aligned % 2 ^ k = 0 ∧ page ≤ aligned ∧ ∀ start, page ≤ start → start % 2 ^ k = 0 →
      aligned ≤ start := by
  have hpos : 0 < 2 ^ k := Nat.two_pow_pos k
  have hpow : 2 ^ k ≤ 2 ^ 63 := Nat.pow_le_pow_right (by norm_num) (by omega)
  have hlt : page + 2 ^ k < 2 ^ 64 := by omega
  rw [Nat.and_two_pow_sub_one_eq_mod]
  by_cases hmod : page % 2 ^ k = 0
  · rw [if_neg (not_not.2 hmod)]
    exact ⟨hmod, le_rfl, fun _ h _ => h⟩
  rw [if_pos hmod, u64_of_lt hlt, and_clear_low hlt (by omega), Nat.add_div_right _ hpos]
  dsimp only
  have hdiv := Nat.div_add_mod page (2 ^ k)
  have hmodlt := Nat.mod_lt page hpos
  refine ⟨Nat.mul_mod_left _ _, ?_, fun start hle hstart => ?_⟩
  · rw [Nat.succ_mul, Nat.mul_comm]
    omega
  · obtain ⟨c, rfl⟩ := Nat.dvd_of_mod_eq_zero hstart
    rw [Nat.mul_comm]
    refine Nat.mul_le_mul_left _ ?_
    have hpage' : page / 2 ^ k < c := by
      rw [Nat.div_lt_iff_lt_mul hpos, Nat.mul_comm]
      refine lt_of_le_of_ne hle fun heq => hmod ?_
      rw [heq, Nat.mul_mod_right]
    exact hpage'

theorem allFree_iff {page : ℕ} (hcount : 0 < count) :
    p.allFree page count = true ↔ p.FreeRun page count := by
  rw [allFree, List.all_eq_true]
  constructor
  · refine fun h => ⟨hcount, fun i hi => ?_⟩
    have hi := h i (List.mem_range.2 hi)
    rwa [Bool.and_eq_true, decide_eq_true_iff, Bool.not_eq_true'] at hi
  · intro h i hi
    obtain ⟨hlt, hfree⟩ := h.free i (List.mem_range.1 hi)
    rw [hfree, Bool.not_false, Bool.and_true, decide_eq_true hlt]

/-- What is found is at a multiple of the alignment. -/
theorem findAligned_mod (hk : k < 64) (htotal : p.totalPages ≤ 2 ^ 63) :
    ∀ {rounds page : ℕ}, p.findAligned count (2 ^ k) rounds page = some start →
      start % 2 ^ k = 0
  | 0, _, h => by cases h
  | rounds + 1, page, h => by
    rw [findAligned] at h
    by_cases hend : p.totalPages ≤ page
    · rw [if_pos hend] at h
      cases h
    · rw [if_neg hend] at h
      obtain ⟨hmod, -⟩ := nextAligned_spec hk (show page < 2 ^ 63 by omega)
      dsimp only at h hmod
      generalize (if page &&& (2 ^ k - 1) ≠ 0 then _ else page) = aligned at h hmod
      split_ifs at h
      · rwa [← Option.some.inj h]
      · exact findAligned_mod hk htotal h

/-- A scan that finds nothing has passed every run at a multiple of the alignment. -/
theorem findAligned_none (hk : k < 64) (htotal : p.totalPages ≤ 2 ^ 63) :
    ∀ {rounds page : ℕ}, p.findAligned count (2 ^ k) rounds page = none →
      p.totalPages ≤ page + rounds → page ≤ start → start % 2 ^ k = 0 → ¬p.FreeRun start count
  | 0, page, _, hrounds, hle, _ => fun h => absurd h.lt (by omega)
  | rounds + 1, page, hnone, hrounds, hle, hmod => by
    intro hrun
    rw [findAligned] at hnone
    have hlt := hrun.lt
    rw [if_neg (by omega)] at hnone
    obtain ⟨-, hpage, hnext⟩ := nextAligned_spec hk (show page < 2 ^ 63 by omega)
    dsimp only at hnone hpage hnext
    generalize (if page &&& (2 ^ k - 1) ≠ 0 then _ else page) = aligned at hnone hpage hnext
    have haligned := hnext start hle hmod
    rw [if_neg (by omega)] at hnone
    split_ifs at hnone with hfree
    have hne : aligned ≠ start := by
      rintro rfl
      exact hfree ((allFree_iff hrun.pos).2 hrun)
    exact findAligned_none hk htotal hnone (by omega) (by omega) hmod hrun

/-- The aligned allocation takes a run at a multiple of the alignment, and fails only where there is
none. -/
theorem allocPagesAligned_cases (hv : Valid p) (hk : k < 64) (count : ℕ) :
    (p.allocPagesAligned count (2 ^ k) = (p, voidU64) ∧
        ¬∃ start, p.FreeRun start count ∧ start % 2 ^ k = 0) ∨
      ∃ start, (p.allocPagesAligned count (2 ^ k)).2 = p.pageToAddr start ∧
        p.FreeRun start count ∧ start % 2 ^ k = 0 := by
  have htotal := hv.totalPages_lt
  have hpos : 0 < 2 ^ k := Nat.two_pow_pos k
  unfold allocPagesAligned
  by_cases hcount : count = 0
  · refine .inl ⟨if_pos (.inl hcount), ?_⟩
    rintro ⟨start, h, -⟩
    exact absurd h.pos (by omega)
  have hmask : 2 ^ k &&& (2 ^ k - 1) = 0 := by
    rw [Nat.and_two_pow_sub_one_eq_mod, Nat.mod_self]
  rw [if_neg (by omega), if_neg (not_not.2 hmask)]
  by_cases hfree : p.freePages < count
  · refine .inl ⟨if_pos hfree, ?_⟩
    rintro ⟨start, h, -⟩
    exact absurd (h.le_freePages hv) (not_le.2 hfree)
  rw [if_neg hfree]
  cases hfind : p.findAligned count (2 ^ k) (p.totalPages + 1) 0 with
  | none =>
    refine .inl ⟨rfl, ?_⟩
    rintro ⟨start, h, hmod⟩
    exact findAligned_none hk (by omega) hfind (by omega) (Nat.zero_le _) hmod h
  | some start =>
    exact .inr ⟨start, rfl, ⟨Nat.pos_of_ne_zero hcount, findAligned_some hfind⟩,
      findAligned_mod hk (by omega) hfind⟩

/-! ## Physical addresses -/

/-- A page with an aligned number is at an aligned address just where `base_address` is one. -/
theorem pageToAddr_mod (hv : Valid p) (hstart : start < p.totalPages) (hmod : start % 2 ^ k = 0) :
    p.pageToAddr start % (2 ^ k * pmmPageSize) = 0 ↔ p.baseAddress % (2 ^ k * pmmPageSize) = 0 := by
  have hdvd : 2 ^ k * pmmPageSize ∣ start * pmmPageSize :=
    Nat.mul_dvd_mul_right (Nat.dvd_of_mod_eq_zero hmod) _
  rw [pageToAddr_eq hv hstart.le, ← Nat.dvd_iff_mod_eq_zero, ← Nat.dvd_iff_mod_eq_zero]
  exact Nat.dvd_add_left hdvd

/-- From an aligned `base_address` on, an aligned address is that of an aligned number. -/
theorem mod_of_pageToAddr (hv : Valid p) (hstart : start < p.totalPages)
    (hbase : p.baseAddress % (2 ^ k * pmmPageSize) = 0)
    (haddr : p.pageToAddr start % (2 ^ k * pmmPageSize) = 0) : start % 2 ^ k = 0 := by
  rw [pageToAddr_eq hv hstart.le, ← Nat.dvd_iff_mod_eq_zero] at haddr
  have hdvd := (Nat.dvd_add_right (Nat.dvd_of_mod_eq_zero hbase)).1 haddr
  exact Nat.mod_eq_zero_of_dvd (Nat.dvd_of_mul_dvd_mul_right (by decide) hdvd)

/-- The aligned allocation does what it promises exactly where `base_address` has the alignment,
or no free run begins at an aligned page number nor at an aligned address. -/
theorem aligned_iff (hv : Valid p) (hk : k < 64) (count : ℕ) :
    p.RunsFound count (2 ^ k) ↔ p.baseAddress % (2 ^ k * pmmPageSize) = 0 ∨
      ¬∃ start, p.FreeRun start count ∧
        (start % 2 ^ k = 0 ∨ p.pageToAddr start % (2 ^ k * pmmPageSize) = 0) := by
  constructor
  · intro h
    by_cases hbase : p.baseAddress % (2 ^ k * pmmPageSize) = 0
    · exact .inl hbase
    refine .inr ?_
    rcases allocPagesAligned_cases hv hk count with ⟨hvoid, hnone⟩ | ⟨page, haddr, hrun, hmod⟩
    · rintro ⟨start, hrun, hmod | haddr⟩
      · exact hnone ⟨start, hrun, hmod⟩
      · exact h.alignedVoid (congrArg Prod.snd hvoid) ⟨start, hrun, haddr⟩
    · -- a run is returned, and its address is not aligned
      have hne : (p.allocPagesAligned count (2 ^ k)).2 ≠ voidU64 := by
        rw [haddr]
        exact pageToAddr_ne hv hrun.lt
      have haligned := (h.aligned hne).1
      rw [haddr, pageToAddr_mod hv hrun.lt hmod] at haligned
      exact absurd haligned hbase
  · intro h
    rcases allocPagesAligned_cases hv hk count with ⟨hvoid, hnone⟩ | ⟨page, haddr, hrun, hmod⟩
    · have hvoid := congrArg Prod.snd hvoid
      refine ⟨fun hne => absurd hvoid hne, fun _ => ?_, allocPages_void hv⟩
      rintro ⟨start, hrun, hstart⟩
      rcases h with hbase | hno
      · exact hnone ⟨start, hrun, mod_of_pageToAddr hv hrun.lt hbase hstart⟩
      · exact hno ⟨start, hrun, .inr hstart⟩
    · have hbase := h.resolve_right fun hno => hno ⟨page, hrun, .inl hmod⟩
      refine ⟨fun _ => ?_, fun hvoid => ?_, allocPages_void hv⟩
      · rw [haddr]
        exact ⟨(pageToAddr_mod hv hrun.lt hmod).2 hbase, page, rfl, hrun⟩
      · rw [haddr] at hvoid
        exact absurd hvoid (pageToAddr_ne hv hrun.lt)

/-- Four free pages above `base`. -/
def fourPages (base : ℕ) : Pmm :=
  initManual (fun _ => 0) 8 base (base + 4 * 4096)

theorem fourPages_valid {base : ℕ} (h : base < 2 ^ 32) : Valid (fourPages base) := by
  have hsub : base + 4 * 4096 - base = 4 * 4096 := Nat.add_sub_cancel_left _ _
  refine valid_initManual _ (Nat.le_add_right _ _) (by omega) ?_
  rw [hsub]
  decide

theorem aligned_iff_fourPages : (fourPages 8192).RunsFound 2 (2 ^ 1) :=
  (aligned_iff (fourPages_valid (by norm_num)) (by norm_num) 2).2 (.inl (by decide))

/-- At `base_address` 4096 a pair of pages for an alignment of two is at 4096. -/
theorem not_aligned_oddBase : Valid (fourPages 4096) ∧ (fourPages 4096).baseAddress % 4096 = 0 ∧
    ¬(fourPages 4096).RunsFound 2 2 := by
  refine ⟨fourPages_valid (by norm_num), by decide, fun h => ?_⟩
  have haddr : ((fourPages 4096).allocPagesAligned 2 2).2 = 4096 := by decide
  have haligned := (h.aligned (by rw [haddr]; decide)).1
  rw [haddr] at haligned
  exact absurd haligned (by decide)

end Pmm

end Seraph
