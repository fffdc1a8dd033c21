import Seraph.KernelHeapRuns

/-!
# The slab lists in runs of the kernel heap

In every state that clients reach with `seraph_kmalloc` and `seraph_kfree`, each size class has its
slabs with free objects in one list and its full slabs in the other, and every slab has a list of
free objects that nobody holds, so that `seraph_kmalloc_verify` is content (`lists_kept`). This
holds for sizes that wrap around too. The manager of virtual pages is trusted to never map the page
where it keeps its own top table, which keeps the heap from reaching the end of the address space.
-/

namespace Seraph

open ByteMem Memory Runs DoublyLinked KMalloc

/-- `PML4_VIRT_ADDR`. -/
def pml4VirtAddr : ℕ :=
  0xFFFFFF7FBFDFE000

/-- The calls of `seraph_kmalloc` and `seraph_kfree`, and writes. -/
def HeapOp.Basic : HeapOp → Prop
  | .kmalloc _ _ => True
  | .kcalloc _ _ _ => False
  | .krealloc _ _ _ => False
  | .kfree _ _ => True
  | .write _ _ => True

namespace HeapState

variable (s : HeapState)

/-- `seraph_vmm_map` never maps a page where the top table is. -/
def TableStays : HeapOp → Prop
  | .kmalloc _ a => ∀ i, a.mapped i = true → u64 (s.heap.heapEnd + i * 4096) ≠ pml4VirtAddr
  | _ => True

/-- The slabs are in the lists that they belong to, and `seraph_kmalloc_verify` says so. -/
structure WellListed : Prop where
  lists : ∀ idx < kmallocNumSlabs, ∃ partials fulls,
    SlabList s.heap.mem (s.heap.caches idx).partialSlabs partials ∧
    SlabList s.heap.mem (s.heap.caches idx).fullSlabs fulls ∧
    (∀ b, b ∈ partials ↔ (b, idx) ∈ s.slabs ∧ s.heap.mem.get b SlabHeader.freeCount > 0) ∧
    ∀ b, b ∈ fulls ↔ (b, idx) ∈ s.slabs ∧ s.heap.mem.get b SlabHeader.freeCount = 0
  free : ∀ b ∈ s.slabs, ∃ free, SlabAt s.heap.mem b.1 (kmallocSizeClass b.2) free ∧
    ∀ o ∈ free, ∀ x ∈ s.live, x.ptr ≠ o
  verified : ∀ fuel, s.slabs.length < fuel → s.heap.verify fuel = some true

end HeapState

/-! ## `seraph_kmalloc_verify` -/

variable {limit : ℕ} {k : KMalloc} {g : HeapShape} {P : HeapBlock → ℕ → Prop} {s : HeapState}

/-- A list whose slabs pass the test is verified. -/
theorem verifyList_linked {head tail size : ℕ} {test : ℕ → Bool} {slabs : List ℕ} :
    ∀ {a fuel : ℕ}, Linked (slabNext k.mem head) (slabPrev k.mem tail) a slabs 0 →
      (∀ b ∈ slabs, b ≠ 0 ∧ k.mem.get b SlabHeader.objectSize = size ∧
        test (k.mem.get b SlabHeader.freeCount) = true) → slabs.length < fuel →
      k.verifyList size test fuel (slabNext k.mem head a) = some true := by
  induction slabs with
  | nil =>
    intro a fuel hlinked _ hfuel
    obtain ⟨fuel, rfl⟩ := Nat.exists_eq_add_of_lt hfuel
    rw [hlinked.1, verifyList, if_pos rfl]
  | cons b slabs ih =>
    intro a fuel hlinked hslabs hfuel
    obtain ⟨fuel, rfl⟩ : ∃ n, fuel = n + 1 := ⟨fuel - 1, by omega⟩
    obtain ⟨⟨hne, hsize, htest⟩, hrest⟩ := List.forall_mem_cons.1 hslabs
    have hnext : slabNext k.mem head b = k.mem.get b SlabHeader.next := if_neg hne
    rw [hlinked.1.1, verifyList, if_neg hne, if_neg (by simp [hsize]), if_neg (by simp [htest]),
      ← hnext]
    exact ih hlinked.2 hrest (by simpa using hfuel)

theorem verifyList_slabList {head size fuel : ℕ} {test : ℕ → Bool} {slabs : List ℕ}
    (h : SlabList k.mem head slabs) (hslabs : ∀ b ∈ slabs,
      k.mem.get b SlabHeader.objectSize = size ∧ test (k.mem.get b SlabHeader.freeCount) = true)
    (hfuel : slabs.length < fuel) : k.verifyList size test fuel head = some true := by
  have hne : ∀ b ∈ slabs, b ≠ 0 := fun b hb => h.ne_zero hb
  obtain ⟨tail, hring⟩ := h
  exact verifyList_linked (a := 0) hring.linked (fun b hb => ⟨hne b hb, hslabs b hb⟩) hfuel

/-- A loop that stops at the first failure goes through. -/
theorem foldlM_all {α : Type*} {f : α → Option Bool} {l : List α}
    (h : ∀ x ∈ l, f x = some true) :
    l.foldlM (fun ok x => if ok then f x else some false) true = some true := by
  induction l with
  | nil => rfl
  | cons x l ih =>
    obtain ⟨hx, hl⟩ := List.forall_mem_cons.1 h
    rw [List.foldlM_cons, if_pos rfl, hx]
    exact ih hl

namespace Holds

/-- The number of free objects of a slab. -/
theorem freeCount_eq (h : Holds limit k g) {b idx : ℕ} (hs : (b, idx) ∈ g.slabs) :
    k.mem.get b SlabHeader.freeCount = (g.free b).length :=
  (h.slabAt _ hs).freeCount

theorem length_lists (h : Holds limit k g) {idx : ℕ} (hidx : idx < kmallocNumSlabs) :
    (g.partials idx).length ≤ g.slabs.length ∧ (g.fulls idx).length ≤ g.slabs.length := by
  have hlists := h.lists idx hidx
  have hsub : g.partials idx ++ g.fulls idx ⊆ g.slabs.map Prod.fst := fun b hb =>
    List.mem_map_of_mem (f := Prod.fst) (h.mem_slabs hidx hb)
  have hle := (List.subperm_of_subset hlists.nodup hsub).length_le
  rw [List.length_append, List.length_map] at hle
  omega

/-- The lists of a size class are verified. -/
theorem verifyCache (h : Holds limit k g) {idx fuel : ℕ} (hidx : idx < kmallocNumSlabs)
    (hfuel : g.slabs.length < fuel) : k.verifyCache fuel idx = some true := by
  obtain ⟨hlenP, hlenF⟩ := h.length_lists hidx
  have hlists := h.lists idx hidx
  have hsize : ∀ b, (b, idx) ∈ g.slabs →
      k.mem.get b SlabHeader.objectSize = (k.caches idx).objectSize := fun b hb => by
    rw [h.sizes]
    exact (h.slabAt _ hb).objectSize
  have hfirst : k.verifyList (k.caches idx).objectSize (fun n => n ≠ 0) fuel
      (k.caches idx).partialSlabs = some true :=
    verifyList_slabList hlists.partialList (fun b hb => by
      obtain ⟨hs, hfree⟩ := (h.mem_partials idx hidx b).1 hb
      refine ⟨hsize b hs, decide_eq_true ?_⟩
      rw [h.freeCount_eq hs]
      exact fun hzero => hfree (List.length_eq_zero_iff.1 hzero)) (by omega)
  have hfull : k.verifyList (k.caches idx).objectSize (fun n => n = 0) fuel
      (k.caches idx).fullSlabs = some true :=
    verifyList_slabList hlists.fullList (fun b hb => by
      obtain ⟨hs, hfree⟩ := (h.mem_fulls idx hidx b).1 hb
      refine ⟨hsize b hs, decide_eq_true ?_⟩
      rw [h.freeCount_eq hs, hfree, List.length_nil]) (by omega)
  simp only [KMalloc.verifyCache, hfirst, hfull]
  rfl

/-- `seraph_kmalloc_verify` returns true. -/
theorem verify (h : Holds limit k g) {fuel : ℕ} (hfuel : g.slabs.length < fuel) :
    k.verify fuel = some true := by
  rw [KMalloc.verify, if_neg (by simp [h.initialized])]
  exact foldlM_all fun idx hidx => h.verifyCache (List.mem_range.1 hidx) hfuel

end Holds

/-! ## Runs -/

/-- Pages that are mapped lie below the top table. -/
theorem Holds.fits_of_tableStays (h : Holds pml4VirtAddr k g) {size : ℕ} {a : PageAnswers}
    (hstays : ∀ i, a.mapped i = true → u64 (k.heapEnd + i * 4096) ≠ pml4VirtAddr) :
    k.Fits pml4VirtAddr size a := by
  intro _ hgrants
  have hmod := h.end_mod
  have hle := h.end_le
  have htable : pml4VirtAddr % 4096 = 0 ∧ pml4VirtAddr < 2 ^ 64 := by decide
  by_contra hlt
  -- the page of the table would be one of those that are mapped
  have hpage : k.heapEnd + (pml4VirtAddr - k.heapEnd) / 4096 * 4096 = pml4VirtAddr := by omega
  refine hstays ((pml4VirtAddr - k.heapEnd) / 4096) (hgrants.2 _ (by omega)) ?_
  rw [hpage]
  exact u64_of_lt htable.2

/-- One step keeps the invariant. -/
theorem HeapInv.basic (h : HeapInv pml4VirtAddr P s g) (hP : ∀ x n, P x n) {op : HeapOp}
    (hbasic : op.Basic) (hlegal : s.Legal op) (hstays : s.TableStays op) :
    ∃ g', HeapInv pml4VirtAddr P (s.step op).1 g' := by
  cases op with
  | kmalloc size a =>
    obtain ⟨g', hr, -⟩ := h.holds.kmalloc (h.holds.fits_of_tableStays hstays)
    exact ⟨g', h.allocates hr fun _ n _ => hP _ n⟩
  | kcalloc count size a => exact hbasic.elim
  | krealloc ptr newSize a => exact hbasic.elim
  | kfree ptr a => exact h.kfree hlegal
  | write addr byte => exact ⟨g, h.write hlegal⟩

/-- A state of that shape has its slabs in their lists. -/
theorem HeapInv.wellListed (h : HeapInv limit P s g) : s.WellListed where
  lists := fun idx hidx => by
    have hlists := h.holds.lists idx hidx
    refine ⟨_, _, hlists.partialList, hlists.fullList, fun b => ?_, fun b => ?_⟩
    · rw [h.holds.mem_partials idx hidx, h.slabs]
      refine and_congr_right fun hb => ?_
      rw [h.holds.freeCount_eq (h.slabs ▸ hb), gt_iff_lt, List.length_pos_iff]
    · rw [h.holds.mem_fulls idx hidx, h.slabs]
      refine and_congr_right fun hb => ?_
      rw [h.holds.freeCount_eq (h.slabs ▸ hb), List.length_eq_zero_iff]
  free := fun b hb => by
    refine ⟨_, h.holds.slabAt b (h.slabs ▸ hb), fun o ho x hx heq => ?_⟩
    obtain ⟨n, hn, -⟩ := h.live x hx
    have hmem : (b.1, b.2) ∈ g.slabs := h.slabs ▸ hb
    exact h.holds.not_offered hmem ho n (heq ▸ hn)
  verified := fun fuel hfuel => h.holds.verify (h.slabs ▸ hfuel)

namespace HeapState

/-- In every run of `seraph_kmalloc` and `seraph_kfree` the slabs are in the lists that they belong
to. -/
theorem lists_kept (mem : Memory) (ops : List HeapOp)
    (h : Guarded step (fun s op => op.Basic ∧ s.Legal op ∧ s.TableStays op) (init mem) ops) :
    (run step (init mem) ops).WellListed := by
  have hinit : ∃ g, HeapInv pml4VirtAddr (fun _ _ => True) (init mem) g :=
    ⟨_, heapInv_init mem _ (by decide) (by decide)⟩
  have hstep : ∀ s op, (∃ g, HeapInv pml4VirtAddr (fun _ _ => True) s g) →
      op.Basic ∧ s.Legal op ∧ s.TableStays op →
      ∃ g, HeapInv pml4VirtAddr (fun _ _ => True) (s.step op).1 g :=
    fun s op ⟨_, hinv⟩ hok => hinv.basic (fun _ _ => trivial) hok.1 hok.2.1 hok.2.2
  obtain ⟨g, hinv⟩ := guarded_invariant hstep hinit h
  exact hinv.wellListed

/-- Managers of pages that have sixteen pages. -/
def somePages : PageAnswers :=
  ⟨true, fun i => i < 16, true, fun _ => 0⟩

/-- A slab of one object goes to the full slabs and comes back. -/
theorem lists_kept_full :
    (run step (init fun _ => 0)
        [.kmalloc 2048 somePages, .kfree (kheapBase + 32) somePages]).WellListed ∧
      ((run step (init fun _ => 0) [.kmalloc 2048 somePages]).heap.caches 7).fullSlabs =
        kheapBase ∧
      ((run step (init fun _ => 0) [.kmalloc 2048 somePages,
        .kfree (kheapBase + 32) somePages]).heap.caches 7).partialSlabs = kheapBase := by
  refine ⟨lists_kept _ _ ⟨⟨trivial, trivial, fun i hi => ?_⟩,
    ⟨trivial, .inr (by decide +kernel), trivial⟩, trivial⟩, by decide +kernel, by decide +kernel⟩
  have hlt : i < 16 := of_decide_eq_true hi
  change (kheapBase + i * 4096) % 2 ^ 64 ≠ pml4VirtAddr
  simp only [kheapBase, pml4VirtAddr]
  omega

end HeapState

end Seraph
