import Seraph.KernelHeapShape

/-!
# The calls of the kernel heap

A call works on one slab, and on the links of the slabs in the lists of its size class; the other
slabs and the large blocks stay as they are (`Holds.of_slab`). So a new slab, an object taken from a
slab or put back, and new pages keep the shape of the heap. A call that allocates fails or offers a
new block (`Allocates`), and no call writes into the blocks that stay offered.
-/

namespace Seraph

open ByteMem Memory KMalloc

variable {limit : ℕ} {k k' : KMalloc} {g : HeapShape} {idx b : ℕ}

/-- What a call on the slab `b` of a size class may change. -/
structure SlabStep (k k' : KMalloc) (g : HeapShape) (idx b : ℕ) : Prop where
  changes : ChangesOnly (⟨b, 4096⟩ :: linkWords (g.partials idx ++ g.fulls idx)) k.mem k'.mem
  same : ∀ i, i ≠ idx → k'.caches i = k.caches i
  mod : b % 4096 = 0
  slab : ∀ s ∈ g.slabs, s.1 = b → s.2 = idx
  large : ∀ l ∈ g.larges, (largeRegion l).Disjoint ⟨b, 4096⟩

namespace SlabStep

/-- The bytes of another slab stay the same, links in lists of this class apart. -/
theorem in_slab (hstep : SlabStep k k' g idx b) (h : Holds limit k g)
    (hidx : idx < kmallocNumSlabs) {s : ℕ × ℕ} (hs : s ∈ g.slabs) (hne : s.1 ≠ b) {x : ℕ}
    (hlow : s.1 ≤ x) (hhigh : x < s.1 + 4096) (hlinks : s.1 + 16 ≤ x ∨ s.2 ≠ idx) :
    k'.mem x = k.mem x := by
  have hmod := (h.slab s hs).2.1
  have hmodb := hstep.mod
  refine hstep.changes x fun r hr hx => ?_
  rcases List.mem_cons.1 hr with rfl | hr
  · simp only [Region.mem_def] at hx
    omega
  · obtain ⟨y, hy, rfl⟩ := List.mem_map.1 hr
    have hslab := h.mem_slabs hidx hy
    have hmody := (h.slab _ hslab).2.1
    simp only [Region.mem_def] at hx
    by_cases heq : s.1 = y
    · have hpair := h.slab_unique hs hslab heq
      rw [hpair] at hlinks hlow
      exact hlinks.elim (fun hle => by dsimp only at hle; omega) fun hne => hne rfl
    · dsimp only at hmody
      omega

/-- The bytes of a large block stay the same. -/
theorem in_large (hstep : SlabStep k k' g idx b) (h : Holds limit k g)
    (hidx : idx < kmallocNumSlabs) {l : ℕ × ℕ} (hl : l ∈ g.larges) {x : ℕ}
    (hx : x ∈ largeRegion l) : k'.mem x = k.mem x := by
  refine hstep.changes x fun r hr hmem => ?_
  rcases List.mem_cons.1 hr with rfl | hr
  · exact (hstep.large l hl).not_mem hx hmem
  · obtain ⟨y, hy, rfl⟩ := List.mem_map.1 hr
    refine (h.slab_large _ (h.mem_slabs hidx hy) l hl).not_mem hx ?_
    simp only [Region.mem_def] at hmem ⊢
    omega

/-- The other slabs keep their free lists. -/
theorem slabAt (hstep : SlabStep k k' g idx b) (h : Holds limit k g)
    (hidx : idx < kmallocNumSlabs) {s : ℕ × ℕ} (hs : s ∈ g.slabs) (hne : s.1 ≠ b) :
    SlabAt k'.mem s.1 (kmallocSizeClass s.2) (g.free s.1) := by
  have hold := h.slabAt s hs
  refine hold.congr (fun x h1 h2 => ?_) (fun o ho x h1 h2 => ?_)
  · exact hstep.in_slab h hidx hs hne (by omega) (by omega) (.inl h1)
  · have hsize := (sizeClass_bounds (h.slab s hs).1).1
    have hobj := (hold.objects o ho).bounds hsize
    exact hstep.in_slab h hidx hs hne (by omega) (by omega) (.inl (by omega))

/-- The large blocks keep their headers. -/
theorem header (hstep : SlabStep k k' g idx b) (h : Holds limit k g)
    (hidx : idx < kmallocNumSlabs) {l : ℕ × ℕ} (hl : l ∈ g.larges) :
    k'.mem.get l.1 LargeHeader.magic = largeHeaderMagic ∧
      k'.mem.get l.1 LargeHeader.blockSize = l.2 * 4096 - LargeHeader.size ∧
      k'.mem.get l.1 LargeHeader.pages = l.2 := by
  have hne := (h.large l hl).1
  have hget : ∀ f : StructField, f.Inside LargeHeader.size →
      k'.mem.get l.1 f = k.mem.get l.1 f := by
    intro f hf
    refine load_congr fun x hx => hstep.in_large h hidx hl ?_
    simp only [Region.mem_def, StructField.Inside, LargeHeader.size, largeRegion] at hx hf ⊢
    omega
  rw [hget _ (by decide), hget _ (by decide), hget _ (by decide)]
  exact h.header l hl

/-- The other size classes keep their lists. -/
theorem lists (hstep : SlabStep k k' g idx b) (h : Holds limit k g)
    (hidx : idx < kmallocNumSlabs) {i : ℕ} (hi : i < kmallocNumSlabs) (hne : i ≠ idx) :
    ClassLists k' i (g.partials i) (g.fulls i) := by
  have hold := h.lists i hi
  have hlinks : ∀ x ∈ g.partials i ++ g.fulls i,
      k'.mem.get x SlabHeader.next = k.mem.get x SlabHeader.next ∧
      k'.mem.get x SlabHeader.prev = k.mem.get x SlabHeader.prev := by
    intro x hx
    have hs := h.mem_slabs hi hx
    have hxb : x ≠ b := fun heq => hne (hstep.slab _ hs heq)
    have hget : ∀ f : StructField, f.Inside 4096 → k'.mem.get x f = k.mem.get x f := by
      intro f hf
      refine load_congr fun y hy => ?_
      simp only [Region.mem_def, StructField.Inside] at hy hf
      exact hstep.in_slab h hidx hs hxb (by dsimp only; omega) (by dsimp only; omega) (.inr hne)
    exact ⟨hget _ (by decide), hget _ (by decide)⟩
  exact hold.congr (by rw [hstep.same i hne]) (by rw [hstep.same i hne]) hlinks

end SlabStep

/-- The shape after a call on the slab `b`. -/
def HeapShape.withSlab (g : HeapShape) (slabs : List (ℕ × ℕ)) (idx b : ℕ) (P F free : List ℕ) :
    HeapShape where
  slabs := slabs
  larges := g.larges
  partials := Function.update g.partials idx P
  fulls := Function.update g.fulls idx F
  free := Function.update g.free b free

/-- A call on a slab gives the heap its new shape. -/
theorem Holds.of_slab (h : Holds limit k g) (hstep : SlabStep k k' g idx b)
    (hidx : idx < kmallocNumSlabs) {slabs : List (ℕ × ℕ)} {P F free : List ℕ}
    (hslabs : ∀ s, s ∈ slabs ↔ s = (b, idx) ∨ s ∈ g.slabs) (hnodup : (slabs.map Prod.fst).Nodup)
    (hb : kheapBase ≤ b ∧ b + 4096 ≤ k'.heapEnd)
    (hend : k.heapEnd ≤ k'.heapEnd ∧ k'.heapEnd % 4096 = 0 ∧ k'.heapEnd ≤ limit)
    (hinit : k'.initialized = true) (hsize : (k'.caches idx).objectSize = kmallocSizeClass idx)
    (hlists : ClassLists k' idx P F)
    (hP : ∀ x, x ∈ P ↔ (x, idx) ∈ slabs ∧ Function.update g.free b free x ≠ [])
    (hF : ∀ x, x ∈ F ↔ (x, idx) ∈ slabs ∧ Function.update g.free b free x = [])
    (hslab : SlabAt k'.mem b (kmallocSizeClass idx) free) :
    Holds limit k' (g.withSlab slabs idx b P F free) := by
  have hother : ∀ s ∈ slabs, s.1 ≠ b → s ∈ g.slabs := fun s hs hne =>
    ((hslabs s).1 hs).resolve_left fun heq => hne (by rw [heq])
  have hself : ∀ s ∈ slabs, s.1 = b → s = (b, idx) := fun s hs heq =>
    ((hslabs s).1 hs).elim id fun hs => Prod.ext heq (hstep.slab s hs heq)
  -- the lists of the other classes have none of the changes
  have hclass : ∀ i, i ≠ idx → ∀ x, (x, i) ∈ slabs ↔ (x, i) ∈ g.slabs := by
    intro i hi x
    rw [hslabs, or_iff_right fun heq => hi (congrArg Prod.snd heq)]
  have hfree : ∀ i, i ≠ idx → ∀ x, (x, i) ∈ g.slabs →
      Function.update g.free b free x = g.free x := by
    intro i hi x hx
    exact Function.update_of_ne (fun heq => hi (hstep.slab _ hx heq)) _ _
  exact {
    initialized := hinit
    sizes := fun i => by
      by_cases hi : i = idx
      · rw [hi, hsize]
      · rw [hstep.same i hi, h.sizes]
    end_mod := hend.2.1
    end_le := hend.2.2
    limit_lt := h.limit_lt
    base_le := h.base_le.trans hend.1
    slab := fun s hs => by
      by_cases heq : s.1 = b
      · rw [hself s hs heq]
        exact ⟨hidx, hstep.mod, hb⟩
      · obtain ⟨h1, h2, h3, h4⟩ := h.slab s (hother s hs heq)
        exact ⟨h1, h2, h3, h4.trans hend.1⟩
    large := fun l hl => by
      obtain ⟨h1, h2, h3, h4⟩ := h.large l hl
      exact ⟨h1, h2, h3, h4.trans hend.1⟩
    slabs_apart := hnodup
    larges_apart := h.larges_apart
    slab_large := fun s hs l hl => by
      by_cases heq : s.1 = b
      · rw [heq]
        exact hstep.large l hl
      · exact h.slab_large s (hother s hs heq) l hl
    lists := fun i hi => by
      by_cases heq : i = idx
      · subst heq
        simpa only [HeapShape.withSlab, Function.update_self] using hlists
      · simpa only [HeapShape.withSlab, Function.update_of_ne heq] using hstep.lists h hidx hi heq
    mem_partials := fun i hi x => by
      by_cases heq : i = idx
      · subst heq
        simpa only [HeapShape.withSlab, Function.update_self] using hP x
      · simp only [HeapShape.withSlab, Function.update_of_ne heq, h.mem_partials i hi, hclass i heq]
        exact and_congr_right fun hx => by rw [hfree i heq x hx]
    mem_fulls := fun i hi x => by
      by_cases heq : i = idx
      · subst heq
        simpa only [HeapShape.withSlab, Function.update_self] using hF x
      · simp only [HeapShape.withSlab, Function.update_of_ne heq, h.mem_fulls i hi, hclass i heq]
        exact and_congr_right fun hx => by rw [hfree i heq x hx]
    slabAt := fun s hs => by
      by_cases heq : s.1 = b
      · rw [hself s hs heq]
        simpa only [HeapShape.withSlab, Function.update_self] using hslab
      · simp only [HeapShape.withSlab, Function.update_of_ne heq]
        exact hstep.slabAt h hidx (hother s hs heq) heq
    header := fun l hl => hstep.header h hidx hl }

/-! ## What blocks keep -/

/-- No byte of a block that is given out changes. -/
def KeepsBlocks (g : HeapShape) (m m' : Memory) : Prop :=
  ∀ ptr size, Offered g ptr size → ∀ x ∈ Region.mk ptr size, m' x = m x

theorem KeepsBlocks.trans {m m' m'' : Memory} (h : KeepsBlocks g m m')
    (h' : KeepsBlocks g m' m'') : KeepsBlocks g m m'' :=
  fun ptr size hblock x hx => (h' ptr size hblock x hx).trans (h ptr size hblock x hx)

/-- Writes into what the heap keeps, or beyond its end. -/
theorem Holds.keepsBlocks (h : Holds limit k g) {rs : List Region} {m m' : Memory}
    (hc : ChangesOnly rs m m') (hrs : ∀ r ∈ rs, ∀ x ∈ r, Kept g x ∨ k.heapEnd ≤ x) :
    KeepsBlocks g m m' := by
  intro ptr size hblock x hx
  refine hc x fun r hr hmem => (hrs r hr x hmem).elim (h.not_kept hblock hx) fun hle => ?_
  have hbounds := h.bounds hblock
  simp only [Region.mem_def] at hx
  omega

/-- The links of slabs are kept. -/
theorem Holds.kept_linkWords (h : Holds limit k g) (hidx : idx < kmallocNumSlabs) :
    ∀ r ∈ linkWords (g.partials idx ++ g.fulls idx), ∀ x ∈ r, Kept g x := by
  intro r hr x hx
  obtain ⟨y, hy, rfl⟩ := List.mem_map.1 hr
  refine .inl ⟨_, h.mem_slabs hidx hy, .inl ?_⟩
  simp only [Region.mem_def, SlabHeader.size] at hx ⊢
  omega

/-! ## A new slab -/

theorem changesOnly_mapPages (m fresh : Memory) (virt count : ℕ) :
    ChangesOnly [⟨virt, count * 4096⟩] m (mapPages m fresh virt count) :=
  fun _ hx => if_neg (hx _ (List.mem_singleton_self _))

/-- The lists of a class do not depend on pages behind the heap. -/
theorem Holds.lists_beyond (h : Holds limit k g) (hidx : idx < kmallocNumSlabs) {m : Memory}
    {n : ℕ} (hc : ChangesOnly [⟨k.heapEnd, n⟩] k.mem m) :
    ClassLists { k with mem := m } idx (g.partials idx) (g.fulls idx) := by
  refine (h.lists idx hidx).congr rfl rfl fun x hx => ?_
  have hhigh := (h.slab _ (h.mem_slabs hidx hx)).2.2.2
  dsimp only at hhigh
  have hdisj : ∀ r ∈ [Region.mk k.heapEnd n], (Region.mk x 16).Disjoint r := by
    intro r hr
    rw [List.mem_singleton.1 hr]
    exact .inl (by dsimp only; omega)
  exact ⟨hc.get (by decide) hdisj, hc.get (by decide) hdisj⟩

/-- The shape with a new slab. -/
def HeapShape.newSlab (g : HeapShape) (idx b : ℕ) : HeapShape :=
  g.withSlab ((b, idx) :: g.slabs) idx b (b :: g.partials idx) (g.fulls idx)
    (slabObjects b (kmallocSizeClass idx))

theorem slabObjects_ne_nil {size : ℕ} (hsize : 16 ≤ size) (hsize' : size ≤ 2048) :
    slabObjects b size ≠ [] := by
  have hpos : 0 < 4048 / size := Nat.div_pos (by omega) (by omega)
  intro hnil
  have hlen := congrArg List.length hnil
  rw [slabObjects, List.length_map, List.length_range] at hlen
  exact hpos.ne' hlen

theorem slabAllocNew_eq (k : KMalloc) (idx : ℕ) {a : PageAnswers} (hgrant : a.granted = true)
    (hmap : a.mapped 0 = true) :
    k.slabAllocNew idx a = ({ k with
      mem := pushSlab (initSlab (mapPages k.mem a.fresh k.heapEnd 1) k.heapEnd
        (k.caches idx).objectSize) (k.caches idx).partialSlabs k.heapEnd
      heapEnd := u64 (k.heapEnd + 4096) }.setCache idx { k.caches idx with
        partialSlabs := k.heapEnd
        slabCount := u32 ((k.caches idx).slabCount + 1) }, k.heapEnd) := by
  rw [slabAllocNew, if_neg (by simp [hgrant, hmap])]

/-- `slab_alloc_new` where its page is granted and mapped. -/
theorem Holds.slabAllocNew (h : Holds limit k g) (hidx : idx < kmallocNumSlabs)
    {a : PageAnswers} (hgrant : a.granted = true) (hmap : a.mapped 0 = true)
    (hfits : k.heapEnd + 4096 ≤ limit) :
    (k.slabAllocNew idx a).2 = k.heapEnd ∧
      (k.slabAllocNew idx a).1.heapEnd = k.heapEnd + 4096 ∧
      Holds limit (k.slabAllocNew idx a).1 (g.newSlab idx k.heapEnd) ∧
      KeepsBlocks g k.mem (k.slabAllocNew idx a).1.mem := by
  have hmod := h.end_mod
  have hlimit := h.limit_lt
  have hbase := h.base_le
  obtain ⟨hsize, hsize'⟩ := sizeClass_bounds hidx
  have hb0 : k.heapEnd ≠ 0 := by
    have hpos : 0 < kheapBase := by decide
    omega
  have hend : u64 (k.heapEnd + 4096) = k.heapEnd + 4096 := u64_of_lt (by omega)
  obtain ⟨m, hm⟩ : ∃ m, m = initSlab (mapPages k.mem a.fresh k.heapEnd 1) k.heapEnd
    (kmallocSizeClass idx) := ⟨_, rfl⟩
  obtain ⟨hslab, hinit⟩ := slabAt_initSlab (mapPages k.mem a.fresh k.heapEnd 1) hmod
    (by omega) hsize hsize'
  rw [← hm] at hslab hinit
  have hfresh : ChangesOnly [⟨k.heapEnd, 4096⟩] k.mem m :=
    (changesOnly_mapPages k.mem a.fresh k.heapEnd 1).comp hinit
  have hlists := h.lists_beyond hidx hfresh
  have hnot : ∀ x ∈ g.partials idx ++ g.fulls idx, x ≠ k.heapEnd := fun x hx => by
    have hhigh := (h.slab _ (h.mem_slabs hidx hx)).2.2.2
    dsimp only at hhigh
    omega
  have hnotP : k.heapEnd ∉ g.partials idx := fun hx => hnot _ (List.mem_append_left _ hx) rfl
  have hnotF : k.heapEnd ∉ g.fulls idx := fun hx => hnot _ (List.mem_append_right _ hx) rfl
  have hlt : k.heapEnd < 2 ^ 64 := by omega
  obtain ⟨hP', hF'⟩ := push_lists hlists.partialList hlists.fullList hlists.pages
    (List.disjoint_of_nodup_append hlists.nodup) ⟨hmod, hlt⟩ hb0 hnotP hnotF
  have hpush : ChangesOnly (linkWords (k.heapEnd :: g.partials idx)) m
      (pushSlab m (k.caches idx).partialSlabs k.heapEnd) :=
    changes_push hlists.partialList List.mem_cons_self (List.subset_cons_self _ _)
  have hkeptP : ∀ r ∈ linkWords (g.partials idx), ∀ x ∈ r, Kept g x := fun r hr =>
    h.kept_linkWords hidx r (List.map_subset _ (List.subset_append_left _ _) hr)
  have heq := slabAllocNew_eq k idx hgrant hmap
  rw [h.sizes, ← hm, hend] at heq
  rw [heq]
  have hall : ChangesOnly (⟨k.heapEnd, 4096⟩ :: linkWords (g.partials idx)) k.mem
      (pushSlab m (k.caches idx).partialSlabs k.heapEnd) := by
    refine (hfresh.mono fun r hr => ⟨r, List.mem_cons.2 (.inl (List.mem_singleton.1 hr)), le_rfl,
      le_rfl⟩).comp (hpush.mono fun r hr => ?_)
    rcases List.mem_cons.1 hr with rfl | hr
    · exact ⟨_, List.mem_cons_self, le_rfl, by dsimp only; omega⟩
    · exact ⟨r, List.mem_cons_of_mem _ hr, le_rfl, le_rfl⟩
  have hnew : ∀ s ∈ g.slabs, s.1 ≠ k.heapEnd := fun s hs => by
    have hhigh := (h.slab s hs).2.2.2
    omega
  have hother : ∀ x i, (x, i) ∈ g.slabs →
      Function.update g.free k.heapEnd (slabObjects k.heapEnd (kmallocSizeClass idx)) x =
        g.free x :=
    fun x i hx => Function.update_of_ne (hnew _ hx) _ _
  have hobjects := slabObjects_ne_nil (b := k.heapEnd) hsize hsize'
  refine ⟨rfl, rfl, h.of_slab ⟨hall.mono fun r hr => ?_, fun i hi => Function.update_of_ne hi _ _,
    hmod, fun s hs heq => absurd heq (hnew s hs), fun l hl => ?_⟩ hidx (fun s => List.mem_cons) ?_
    ⟨hbase, le_rfl⟩ ⟨Nat.le_add_right _ _, ?_, hfits⟩ h.initialized ?_ ⟨?_, ?_, ?_, ?_⟩
    (fun x => ?_) (fun x => ?_) ?_, h.keepsBlocks hall fun r hr x hx => ?_⟩
  · refine ⟨r, ?_, le_rfl, le_rfl⟩
    exact (List.cons_subset_cons _ (List.map_subset _ (List.subset_append_left _ _))) hr
  · have hhigh := (h.large l hl).2.2.2
    exact .inl hhigh
  · refine List.nodup_cons.2 ⟨fun hx => ?_, h.slabs_apart⟩
    obtain ⟨s, hs, heq⟩ := List.mem_map.1 hx
    exact hnew s hs heq
  · change (k.heapEnd + 4096) % 4096 = 0
    omega
  · simpa [setCache] using h.sizes idx
  · simpa only [setCache, Function.update_self] using hP'
  · simpa only [setCache, Function.update_self] using hF'
  · exact List.nodup_cons.2 ⟨by simp [hnotP, hnotF], hlists.nodup⟩
  · exact List.forall_mem_cons.2 ⟨⟨hmod, hlt⟩, hlists.pages⟩
  · by_cases heq : x = k.heapEnd
    · simp [heq, hobjects]
    · simp [heq, h.mem_partials idx hidx]
  · by_cases heq : x = k.heapEnd
    · simp [heq, hobjects, hnotF]
    · simp [heq, h.mem_fulls idx hidx]
  · exact hslab.of_linkWords hpush (List.forall_mem_cons.2 ⟨⟨hmod, hlt⟩, fun x hx =>
      hlists.pages x (List.mem_append_left _ hx)⟩) hmod hsize
  · rcases List.mem_cons.1 hr with rfl | hr
    · exact .inr hx.1
    · exact .inl (hkeptP r hr x hx)

/-! ## Objects -/

/-- Counters do not belong to the shape. -/
theorem Holds.counters (h : Holds limit k g) (large total : ℕ) :
    Holds limit { k with largeAllocCount := large, totalAllocated := total } g :=
  { h with lists := fun i hi => (h.lists i hi).congr rfl rfl fun _ _ => ⟨rfl, rfl⟩ }

theorem Holds.counted (h : Holds limit k g) {c : SlabCache}
    (hfirst : c.partialSlabs = (k.caches idx).partialSlabs)
    (hfull : c.fullSlabs = (k.caches idx).fullSlabs)
    (hsize : c.objectSize = (k.caches idx).objectSize) : Holds limit (k.setCache idx c) g := by
  have hcaches : ∀ i, (Function.update k.caches idx c i).partialSlabs = (k.caches i).partialSlabs ∧
      (Function.update k.caches idx c i).fullSlabs = (k.caches i).fullSlabs ∧
      (Function.update k.caches idx c i).objectSize = (k.caches i).objectSize := by
    intro i
    by_cases hi : i = idx
    · rw [hi, Function.update_self]
      exact ⟨hfirst, hfull, hsize⟩
    · rw [Function.update_of_ne hi]
      exact ⟨rfl, rfl, rfl⟩
  exact { h with
    sizes := fun i => (hcaches i).2.2.trans (h.sizes i)
    lists := fun i hi => (h.lists i hi).congr (hcaches i).1 (hcaches i).2.1
      fun _ _ => ⟨rfl, rfl⟩ }

/-- Writing behind the links of a slab is a step on it. -/
theorem Holds.slabStep (h : Holds limit k g) (hs : (b, idx) ∈ g.slabs) {m : Memory}
    (hc : ChangesOnly (⟨b + 16, 4080⟩ :: linkWords (g.partials idx ++ g.fulls idx)) k.mem m)
    (hmem : k'.mem = m) (hsame : ∀ i, i ≠ idx → k'.caches i = k.caches i) :
    SlabStep k k' g idx b where
  changes := by
    rw [hmem]
    refine hc.mono fun r hr => ?_
    rcases List.mem_cons.1 hr with rfl | hr
    · exact ⟨_, List.mem_cons_self, by dsimp only; omega, by dsimp only; omega⟩
    · exact ⟨r, List.mem_cons_of_mem _ hr, le_rfl, le_rfl⟩
  same := hsame
  mod := (h.slab _ hs).2.1
  slab := fun s hs' heq => congrArg Prod.snd (h.slab_unique hs' hs heq)
  large := fun l hl => h.slab_large _ hs l hl

/-- The lists of a class do not depend on what is behind the links of a slab. -/
theorem Holds.lists_behind (h : Holds limit k g) (hs : (b, idx) ∈ g.slabs) {m : Memory}
    (hc : ChangesOnly [⟨b + 16, 4080⟩] k.mem m) :
    ClassLists { k with mem := m } idx (g.partials idx) (g.fulls idx) := by
  obtain ⟨hidx, hmod, -, -⟩ := h.slab _ hs
  refine (h.lists idx hidx).congr rfl rfl fun x hx => ?_
  have hmodx := (h.slab _ (h.mem_slabs hidx hx)).2.1
  dsimp only at hmodx hmod
  have hdisj : ∀ r ∈ [Region.mk (b + 16) 4080], (Region.mk x 16).Disjoint r := by
    intro r hr
    rw [List.mem_singleton.1 hr]
    simp only [Region.Disjoint]
    omega
  exact ⟨hc.get (by decide) hdisj, hc.get (by decide) hdisj⟩

/-- A slab whose free objects change may stay in its list while it is as full as before. -/
theorem Holds.reslab (h : Holds limit k g) (hs : (b, idx) ∈ g.slabs) {m : Memory}
    {free : List ℕ} (hc : ChangesOnly [⟨b + 16, 4080⟩] k.mem m)
    (hslab : SlabAt m b (kmallocSizeClass idx) free) (hfree : free = [] ↔ g.free b = []) :
    Holds limit { k with mem := m }
      (g.withSlab g.slabs idx b (g.partials idx) (g.fulls idx) free) := by
  obtain ⟨hidx, hmod, hlow, hhigh⟩ := h.slab _ hs
  have hstep : SlabStep k { k with mem := m } g idx b :=
    h.slabStep hs (hc.mono fun r hr => ⟨r, List.mem_cons.2 (.inl (List.mem_singleton.1 hr)),
      le_rfl, le_rfl⟩) rfl fun _ _ => rfl
  have hempty : ∀ x, Function.update g.free b free x = [] ↔ g.free x = [] := by
    intro x
    by_cases heq : x = b
    · rw [heq, Function.update_self, hfree]
    · rw [Function.update_of_ne heq]
  exact h.of_slab hstep hidx (fun s => ⟨.inr, fun hs' => hs'.elim (fun heq => heq ▸ hs) id⟩)
    h.slabs_apart ⟨hlow, hhigh⟩ ⟨le_rfl, h.end_mod, h.end_le⟩ h.initialized (h.sizes idx)
    (h.lists_behind hs hc)
    (fun x => by rw [h.mem_partials idx hidx, Ne, Ne, hempty])
    (fun x => by rw [h.mem_fulls idx hidx, hempty]) hslab

/-- A slab whose free objects change goes to the list that it belongs to. -/
theorem Holds.relist (h : Holds limit k g) (hs : (b, idx) ∈ g.slabs) {m : Memory}
    {free : List ℕ} (hc : ChangesOnly [⟨b + 16, 4080⟩] k.mem m)
    (hslab : SlabAt m b (kmallocSizeClass idx) free) :
    let k' := KMalloc.slabUpdateList { k with mem := m } idx b
    k'.heapEnd = k.heapEnd ∧ (∃ P F, Holds limit k' (g.withSlab g.slabs idx b P F free)) ∧
      ChangesOnly (linkWords (g.partials idx ++ g.fulls idx)) m k'.mem := by
  obtain ⟨hidx, hmod, hlow, hhigh⟩ := h.slab _ hs
  have hlists := h.lists_behind hs hc
  obtain ⟨hsame, hlinks, hlists'⟩ := slabUpdateList_spec hlists (h.mem_lists hs)
  have hfull : m.get b SlabHeader.freeCount = 0 ↔ free = [] := by
    rw [hslab.freeCount, List.length_eq_zero_iff]
  simp only [hfull] at hlists'
  refine ⟨hsame.heapEnd, ⟨_, _, h.of_slab (h.slabStep hs ?_ rfl hsame.caches) hidx
    (fun s => ⟨.inr, fun hs' => hs'.elim (fun heq => heq ▸ hs) id⟩) h.slabs_apart ?_ ?_ ?_ ?_
    hlists' (fun x => ?_) (fun x => ?_) (hslab.of_linkWords hlinks hlists.pages hmod
      (sizeClass_bounds hidx).1)⟩, hlinks⟩
  · exact (hc.mono fun r hr => ⟨r, List.mem_cons.2 (.inl (List.mem_singleton.1 hr)), le_rfl,
      le_rfl⟩).comp (hlinks.mono fun r hr => ⟨r, List.mem_cons_of_mem _ hr, le_rfl, le_rfl⟩)
  · rw [hsame.heapEnd]
    exact ⟨hlow, hhigh⟩
  · rw [hsame.heapEnd]
    exact ⟨le_rfl, h.end_mod, h.end_le⟩
  · exact hsame.initialized.trans h.initialized
  · exact hsame.objectSize.trans (h.sizes idx)
  · have hnodup := (List.nodup_append.1 (h.lists idx hidx).nodup).1
    by_cases heq : x = b
    · rw [heq, Function.update_self]
      split
      · next hnil => simp [hnil, hnodup.not_mem_erase]
      · next hne => simp [hne, hs]
    · rw [Function.update_of_ne heq, ← h.mem_partials idx hidx]
      split <;> simp [heq, List.mem_erase_of_ne heq]
  · have hnodup := (List.nodup_append.1 (h.lists idx hidx).nodup).2.1
    by_cases heq : x = b
    · rw [heq, Function.update_self]
      split
      · next hnil => simp [hnil, hs]
      · next hne => simp [hne, hnodup.not_mem_erase]
    · rw [Function.update_of_ne heq, ← h.mem_fulls idx hidx]
      split <;> simp [heq, List.mem_erase_of_ne heq]

/-- A slab with a free object gives one away. -/
theorem Holds.takeObject (h : Holds limit k g) (hs : (b, idx) ∈ g.slabs) {o : ℕ}
    {rest : List ℕ} (hfree : g.free b = o :: rest) :
    (k.takeObject idx b).2 = o ∧ (k.takeObject idx b).1.heapEnd = k.heapEnd ∧
      (∃ P F, Holds limit (k.takeObject idx b).1 (g.withSlab g.slabs idx b P F rest)) ∧
      KeepsBlocks g k.mem (k.takeObject idx b).1.mem := by
  obtain ⟨hidx, hmod, hlow, hhigh⟩ := h.slab _ hs
  have hsize := (sizeClass_bounds hidx).1
  have hold : SlabAt k.mem b (kmallocSizeClass idx) (o :: rest) := hfree ▸ h.slabAt _ hs
  have hobj := (hold.objects o List.mem_cons_self).bounds hsize
  have hlimit := h.limit_lt
  have hend := h.end_le
  have hb0 : b ≠ 0 := by
    have hpos : 0 < kheapBase := by decide
    dsimp only at hlow
    omega
  have hvoid : o ≠ voidU64 := by
    have hmax : voidU64 = 2 ^ 64 - 1 := rfl
    dsimp only at hhigh
    omega
  obtain ⟨m, heq, hslab, hc⟩ := slabAllocObject_spec hold hsize hb0
  have hword : ChangesOnly [⟨b + 16, 4080⟩] k.mem m := hc.mono fun r hr =>
    ⟨_, List.mem_singleton_self _, by rw [List.mem_singleton.1 hr]; exact ⟨le_rfl, by simp⟩⟩
  have hkept : KeepsBlocks g k.mem m := h.keepsBlocks hc fun r hr x hx => .inl <|
    .inl ⟨_, hs, .inl (by
      rw [List.mem_singleton.1 hr] at hx
      simp only [Region.mem_def, SlabHeader.size] at hx ⊢
      omega)⟩
  have hcount : m.get b SlabHeader.freeCount = 0 ↔ rest = [] := by
    rw [hslab.freeCount, List.length_eq_zero_iff]
  simp only [KMalloc.takeObject, heq, if_neg hvoid, hcount]
  by_cases hnil : rest = []
  · have hlisted := h.relist hs hword hslab
    simp only [if_pos hnil]
    generalize KMalloc.slabUpdateList { k with mem := m } idx b = k₁ at hlisted ⊢
    obtain ⟨hsame, ⟨P, F, hnew⟩, hlinks⟩ := hlisted
    exact ⟨trivial, hsame, ⟨P, F, (hnew.counters _ _).counted rfl rfl rfl⟩, hkept.trans
      (h.keepsBlocks hlinks fun r hr x hx => .inl (h.kept_linkWords hidx r hr x hx))⟩
  · simp only [if_neg hnil]
    have hnew := h.reslab hs hword hslab (by simp [hnil, hfree])
    exact ⟨trivial, rfl, ⟨_, _, (hnew.counters _ _).counted rfl rfl rfl⟩, hkept⟩

/-- An object that is given out goes back to its slab. -/
theorem Holds.putObject (h : Holds limit k g) (hs : (b, idx) ∈ g.slabs) {o : ℕ}
    (hobject : IsObject b (kmallocSizeClass idx) o) (hnot : o ∉ g.free b) :
    (k.putObject o).heapEnd = k.heapEnd ∧ ∃ P F,
      Holds limit (k.putObject o) (g.withSlab g.slabs idx b P F (o :: g.free b)) ∧
      KeepsBlocks (g.withSlab g.slabs idx b P F (o :: g.free b)) k.mem (k.putObject o).mem := by
  obtain ⟨hidx, hmod, hlow, hhigh⟩ := h.slab _ hs
  have hsize := (sizeClass_bounds hidx).1
  have hold := h.slabAt _ hs
  have hobj := hobject.bounds hsize
  have hlimit := h.limit_lt
  have hend := h.end_le
  dsimp only at hlow hhigh hmod
  have hb0 : b ≠ 0 := by
    have hpos : 0 < kheapBase := by decide
    omega
  obtain ⟨m, heq, hslab, hc⟩ := slabFreeObject_spec hold hobject hnot hsize hb0 (by omega)
  have hpage : getSlabFromObject o = b :=
    Holds.getSlabFromObject_eq hmod (by omega) (by omega) (by omega)
  have hword : ChangesOnly [⟨b + 16, 4080⟩] k.mem m := hc.mono fun r hr => by
    refine ⟨_, List.mem_singleton_self _, ?_⟩
    rcases List.mem_pair.1 hr with rfl | rfl
    · exact ⟨le_rfl, by simp⟩
    · exact ⟨by dsimp only; omega, by dsimp only; omega⟩
  have hclass : kmallocSizeClassIndex (kmallocSizeClass idx) = some idx := by
    have hall : ∀ i < kmallocNumSlabs, kmallocSizeClassIndex (kmallocSizeClass i) = some i := by
      decide
    exact hall idx hidx
  have hcount : k.mem.get b SlabHeader.freeCount = 0 ↔ g.free b = [] := by
    rw [hold.freeCount, List.length_eq_zero_iff]
  have hkept : ∀ P F, ∀ r ∈ [Region.mk (b + 16) 16, ⟨o, 8⟩], ∀ x ∈ r,
      Kept (g.withSlab g.slabs idx b P F (o :: g.free b)) x := by
    intro P F r hr x hx
    refine .inl ⟨_, hs, ?_⟩
    rcases List.mem_pair.1 hr with rfl | rfl
    · simp only [Region.mem_def, SlabHeader.size] at hx ⊢
      omega
    · refine .inr ⟨o, ?_, hx⟩
      simp [HeapShape.withSlab]
  simp only [KMalloc.putObject, hpage, heq, hcount, hslab.objectSize, hclass]
  by_cases hnil : g.free b = []
  · have hlisted := h.relist hs hword hslab
    simp only [if_pos hnil]
    generalize KMalloc.slabUpdateList { k with mem := m } idx b = k₁ at hlisted ⊢
    obtain ⟨hsame, ⟨P, F, hnew⟩, hlinks⟩ := hlisted
    refine ⟨hsame, P, F, Holds.counters (hnew.counted ?_ ?_ ?_) _ _,
      (hnew.keepsBlocks hc fun r hr x hx => .inl (hkept P F r hr x hx)).trans
        (hnew.keepsBlocks hlinks fun r hr x hx => .inl ?_)⟩
    rotate_right
    · obtain ⟨y, hy, rfl⟩ := List.mem_map.1 hr
      refine .inl ⟨_, h.mem_slabs hidx hy, .inl ?_⟩
      simp only [Region.mem_def, SlabHeader.size] at hx ⊢
      omega
    all_goals rfl
  · simp only [if_neg hnil]
    have hnew := h.reslab hs hword hslab (by simp [hnil])
    exact ⟨trivial, _, _, hnew.counters _ _,
      hnew.keepsBlocks hc fun r hr x hx => .inl (hkept _ _ r hr x hx)⟩

end Seraph
