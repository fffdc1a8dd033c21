import Seraph.AtlasGenTable

/-!
# The bump allocator

`alloc`, `calloc` and `allocPages` all move the bump pointer of Genesis (`bump`). A run
of allocator and generation-table calls hands out a list of blocks (`handedOut`).

The allocator is sound where the 64-bit sums do not wrap : blocks are large enough,
inside the region, past the header and pairwise disjoint (`blocks_sound`). The header
is smaller than Genesis and the generation table together, so the first block already
lies in the table : a run of a new Atlas keeps its blocks separate from the table exactly
when every request in it is refused (`separate_iff_refused`).
-/

namespace Seraph

open ByteMem Memory Runs

namespace Atlas

variable (σ : Atlas)

/-- Move the bump pointer from `off` over `size` bytes, if they fit. -/
def bump (off size : ℕ) : Atlas × Ptr :=
  if σ.size < u64 (off + size) then (σ, none)
  else
    let m := σ.mem.set 0 Genesis.nextAllocOffset (off + size)
    let m := m.set 0 Genesis.totalAllocated (m.get 0 Genesis.totalAllocated + size)
    let m := m.set 0 Genesis.modifiedAt 0
    ({ σ with mem := m }, some off)

/-- `seraph_atlas_alloc`. -/
def alloc (size : ℕ) : Atlas × Ptr :=
  if !σ.initialized ∨ size = 0 then (σ, none)
  else σ.bump σ.next (alignUp size atlasAlign)

/-- `seraph_atlas_calloc`. -/
def calloc (size : ℕ) : Atlas × Ptr :=
  match σ.alloc size with
  | (τ, some off) => ({ τ with mem := τ.mem.fill off size 0 }, some off)
  | (τ, none) => (τ, none)

/-- `seraph_atlas_alloc_pages`. -/
def allocPages (size : ℕ) : Atlas × Ptr :=
  if !σ.initialized ∨ size = 0 then (σ, none)
  else σ.bump (alignUp σ.next pageSize) (alignUp size pageSize)

/-- The Genesis bytes an allocation writes : bump pointer, total, modification time. -/
def bumpWrites : List Region :=
  [⟨48, 16⟩, ⟨80, 8⟩]

/-- Bumping fails and changes nothing, or moves the bump pointer. -/
theorem bump_cases (off size : ℕ) :
    (σ.size < u64 (off + size) ∧ σ.bump off size = (σ, none)) ∨
      ∃ m, u64 (off + size) ≤ σ.size ∧ σ.bump off size = ({ σ with mem := m }, some off) ∧
        m.get 0 Genesis.nextAllocOffset = u64 (off + size) ∧
        ChangesOnly bumpWrites σ.mem m := by
  unfold bump
  split_ifs with hfit
  · exact Or.inl ⟨hfit, rfl⟩
  · refine Or.inr ⟨_, not_lt.1 hfit, rfl, ?_, ?_⟩
    · exact (get_set_apart _ _ (by decide) _).trans
        ((get_set_apart _ _ (by decide) _).trans (get_set_same _ _ _ _))
    · have h1 := changesOnly_store σ.mem 48 8 (off + size)
      have h2 := changesOnly_store (σ.mem.set 0 Genesis.nextAllocOffset (off + size)) 56 8
        ((σ.mem.set 0 Genesis.nextAllocOffset (off + size)).get 0 Genesis.totalAllocated + size)
      refine ((h1.trans h2).trans (changesOnly_store _ 80 8 0)).mono ?_
      simp only [bumpWrites, Region.Within]
      decide

variable {σ}

/-- What `alloc` can do. -/
theorem alloc_cases (hinit : σ.initialized = true) (size : ℕ) :
    ((size = 0 ∨ σ.size < u64 (σ.next + alignUp size 8)) ∧ σ.alloc size = (σ, none)) ∨
      ∃ m, size ≠ 0 ∧ u64 (σ.next + alignUp size 8) ≤ σ.size ∧
        σ.alloc size = ({ σ with mem := m }, some σ.next) ∧
        m.get 0 Genesis.nextAllocOffset = u64 (σ.next + alignUp size 8) ∧
        ChangesOnly bumpWrites σ.mem m := by
  unfold alloc
  split_ifs with hbad
  · exact Or.inl ⟨Or.inl (by simpa [hinit] using hbad), rfl⟩
  · rcases σ.bump_cases σ.next (alignUp size atlasAlign) with ⟨hlt, h⟩ | ⟨m, hle, h, hm, hc⟩
    · exact Or.inl ⟨Or.inr hlt, h⟩
    · exact Or.inr ⟨m, by simpa [hinit] using hbad, hle, h, hm, hc⟩

/-- What `calloc` can do. -/
theorem calloc_cases (hinit : σ.initialized = true) (size : ℕ) :
    ((size = 0 ∨ σ.size < u64 (σ.next + alignUp size 8)) ∧ σ.calloc size = (σ, none)) ∨
      ∃ m, size ≠ 0 ∧ u64 (σ.next + alignUp size 8) ≤ σ.size ∧
        σ.calloc size = ({ σ with mem := m.fill σ.next size 0 }, some σ.next) ∧
        m.get 0 Genesis.nextAllocOffset = u64 (σ.next + alignUp size 8) ∧
        ChangesOnly bumpWrites σ.mem m := by
  unfold calloc
  rcases alloc_cases hinit size with ⟨hbad, h⟩ | ⟨m, h0, hle, h, hm, hc⟩
  · exact Or.inl ⟨hbad, by rw [h]⟩
  · exact Or.inr ⟨m, h0, hle, by rw [h], hm, hc⟩

/-- What `allocPages` can do. -/
theorem allocPages_cases (hinit : σ.initialized = true) (size : ℕ) :
    ((size = 0 ∨ σ.size < u64 (alignUp σ.next 4096 + alignUp size 4096)) ∧
        σ.allocPages size = (σ, none)) ∨
      ∃ m, size ≠ 0 ∧ u64 (alignUp σ.next 4096 + alignUp size 4096) ≤ σ.size ∧
        σ.allocPages size = ({ σ with mem := m }, some (alignUp σ.next 4096)) ∧
        m.get 0 Genesis.nextAllocOffset = u64 (alignUp σ.next 4096 + alignUp size 4096) ∧
        ChangesOnly bumpWrites σ.mem m := by
  unfold allocPages
  split_ifs with hbad
  · exact Or.inl ⟨Or.inl (by simpa [hinit] using hbad), rfl⟩
  · rcases σ.bump_cases (alignUp σ.next pageSize) (alignUp size pageSize) with
      ⟨hlt, h⟩ | ⟨m, hle, h, hm, hc⟩
    · exact Or.inl ⟨Or.inr hlt, h⟩
    · exact Or.inr ⟨m, by simpa [hinit] using hbad, hle, h, hm, hc⟩

end Atlas

/-! ## Runs of the allocator -/

/-- Calls that allocate blocks or generations, and revocation. -/
inductive AllocOp where
  | alloc (size : ℕ)
  | calloc (size : ℕ)
  | allocPages (size : ℕ)
  | allocGeneration
  | revoke (allocId : ℕ)
deriving DecidableEq, Repr

/-- A pointer or a 64-bit number. -/
inductive AllocResult where
  | ptr (p : Ptr)
  | word (w : ℕ)
deriving DecidableEq, Repr

/-- Perform one call. -/
def AllocOp.step (σ : Atlas) : AllocOp → Atlas × AllocResult
  | alloc size => ((σ.alloc size).1, .ptr (σ.alloc size).2)
  | calloc size => ((σ.calloc size).1, .ptr (σ.calloc size).2)
  | allocPages size => ((σ.allocPages size).1, .ptr (σ.allocPages size).2)
  | allocGeneration => (σ.allocGeneration.1, .word σ.allocGeneration.2)
  | revoke allocId => ((σ.revoke allocId).1, .word (σ.revoke allocId).2)

/-- A block handed out : where it starts, the bytes asked for and the bytes the bump
pointer moved over. -/
structure Block where
  start : ℕ
  requested : ℕ
  reserved : ℕ
deriving DecidableEq, Repr

/-- The addresses of a block. -/
def Block.region (b : Block) : Region :=
  ⟨b.start, b.reserved⟩

/-- The bytes the bump pointer moves over for a request, `none` for a call that hands out
no block. -/
def AllocOp.request : AllocOp → Option (ℕ × ℕ)
  | alloc size => some (size, alignUp size atlasAlign)
  | calloc size => some (size, alignUp size atlasAlign)
  | allocPages size => some (size, alignUp size pageSize)
  | allocGeneration => none
  | revoke _ => none

/-- The block a call hands out. -/
def handedOutBy (c : Call Atlas AllocOp AllocResult) : Option Block :=
  match c.op.request, c.result with
  | some (requested, reserved), .ptr (some start) => some ⟨start, requested, reserved⟩
  | _, _ => none

/-- The blocks a run hands out, in order. -/
def handedOut (σ : Atlas) (ops : List AllocOp) : List Block :=
  (calls AllocOp.step σ ops).filterMap handedOutBy

/-- The blocks are inside the region, large enough, and disjoint from one another, from
Genesis and from the whole generation table. -/
structure Separate (size : ℕ) (bs : List Block) : Prop where
  inside : ∀ b ∈ bs, b.region.Within ⟨0, size⟩
  large : ∀ b ∈ bs, b.requested ≤ b.reserved
  pairwise : bs.Pairwise fun b c => b.region.Disjoint c.region
  genesis : ∀ b ∈ bs, b.region.Disjoint ⟨0, Genesis.size⟩
  table : ∀ b ∈ bs, b.region.Disjoint Atlas.genTableRegion

/-- Where a request is placed : `allocPages` rounds the bump pointer up first. -/
def AllocOp.place (next : ℕ) : AllocOp → ℕ
  | allocPages _ => alignUp next pageSize
  | _ => next

/-- A call whose request the allocator refuses with the bump pointer at `next` : nothing
asked for, or the 64-bit end of the block is past `size`. -/
def AllocOp.Refused (size next : ℕ) (op : AllocOp) : Prop :=
  ∀ r ∈ op.request, r.1 = 0 ∨ size < u64 (op.place next + r.2)

/-- A call whose sums stay below `2 ^ 64`. -/
def AllocOp.NoWrap (σ : Atlas) (op : AllocOp) : Prop :=
  ∀ r ∈ op.request, r.1 + pageSize ≤ 2 ^ 64 ∧ σ.next + pageSize ≤ 2 ^ 64 ∧
    op.place σ.next + r.2 < 2 ^ 64

theorem handedOut_concat (σ : Atlas) (ops : List AllocOp) (op : AllocOp) :
    handedOut σ (ops ++ [op]) = handedOut σ ops ++
      (handedOutBy ⟨run AllocOp.step σ ops, op,
        (AllocOp.step (run AllocOp.step σ ops) op).2⟩).toList := by
  rw [handedOut, calls_concat, List.filterMap_append]
  rfl

/-- A call that allocates : refused without effect, or a block at the bump pointer. A
`calloc` also clears its block. -/
theorem AllocOp.step_request {σ : Atlas} {op : AllocOp} {r : ℕ × ℕ} (hr : op.request = some r)
    (hinit : σ.initialized = true) :
    ((r.1 = 0 ∨ σ.size < u64 (op.place σ.next + r.2)) ∧
        (AllocOp.step σ op).1 = σ ∧ (AllocOp.step σ op).2 = .ptr none) ∨
      ∃ m m', r.1 ≠ 0 ∧ u64 (op.place σ.next + r.2) ≤ σ.size ∧
        AllocOp.step σ op = ({ σ with mem := m' }, .ptr (some (op.place σ.next))) ∧
        m.get 0 Genesis.nextAllocOffset = u64 (op.place σ.next + r.2) ∧
        ChangesOnly Atlas.bumpWrites σ.mem m ∧
        ChangesOnly [⟨op.place σ.next, r.1⟩] m m' := by
  cases op with
  | alloc size =>
    obtain rfl := Option.some.inj hr
    rcases Atlas.alloc_cases hinit size with ⟨hbad, h⟩ | ⟨m, h0, hle, h, hm, hc⟩
    · exact Or.inl ⟨hbad, by rw [AllocOp.step, h], by rw [AllocOp.step, h]⟩
    · exact Or.inr ⟨m, m, h0, hle, by rw [AllocOp.step, h]; rfl, hm, hc, ChangesOnly.refl _ _⟩
  | calloc size =>
    obtain rfl := Option.some.inj hr
    rcases Atlas.calloc_cases hinit size with ⟨hbad, h⟩ | ⟨m, h0, hle, h, hm, hc⟩
    · exact Or.inl ⟨hbad, by rw [AllocOp.step, h], by rw [AllocOp.step, h]⟩
    · exact Or.inr ⟨m, _, h0, hle, by rw [AllocOp.step, h]; rfl, hm, hc,
        changesOnly_fill _ _ _ _⟩
  | allocPages size =>
    obtain rfl := Option.some.inj hr
    rcases Atlas.allocPages_cases hinit size with ⟨hbad, h⟩ | ⟨m, h0, hle, h, hm, hc⟩
    · exact Or.inl ⟨hbad, by rw [AllocOp.step, h], by rw [AllocOp.step, h]⟩
    · exact Or.inr ⟨m, m, h0, hle, by rw [AllocOp.step, h]; rfl, hm, hc, ChangesOnly.refl _ _⟩
  | allocGeneration => cases hr
  | revoke id => cases hr

/-- A call on the generation table changes the table only. -/
theorem AllocOp.step_table {σ : Atlas} {op : AllocOp} (hr : op.request = none)
    (htable : σ.tableOffset = Genesis.size) (hcount : σ.entryCount ≤ genTableSize) :
    ∃ m w, AllocOp.step σ op = ({ σ with mem := m }, .word w) ∧
      ChangesOnly [Atlas.genTableRegion] σ.mem m ∧
      m.get Genesis.size GenTable.entryCount ≤ genTableSize := by
  have hcount' : σ.mem.get Genesis.size GenTable.entryCount ≤ genTableSize := by
    rw [← htable]
    exact hcount
  cases op with
  | alloc size => cases hr
  | calloc size => cases hr
  | allocPages size => cases hr
  | allocGeneration =>
    rcases Atlas.allocGeneration_cases (σ := σ) with h | ⟨m, -, hlt, h, hm, -, hc⟩
    · exact ⟨σ.mem, voidU64, by rw [AllocOp.step, h], ChangesOnly.refl _ _, hcount'⟩
    · rw [htable] at hc hm
      refine ⟨m, _, by rw [AllocOp.step, h], hc.mono fun r hr' => ?_, hm ▸ hlt⟩
      refine ⟨_, List.mem_singleton_self _, ?_⟩
      simp only [Atlas.entryWrites, List.mem_cons, List.not_mem_nil, or_false] at hr'
      rcases hr' with rfl | rfl
      · simp only [Region.Within, Atlas.genTableRegion, GenTable.generations, GenTable.size]
        omega
      · simp only [Region.Within, Atlas.genTableRegion, GenTable.size]
        omega
  | revoke id =>
    rcases Atlas.revoke_cases (σ := σ) id with h | ⟨m, -, hlt, h, -, hc⟩
    · exact ⟨σ.mem, voidU64, by rw [AllocOp.step, h], ChangesOnly.refl _ _, hcount'⟩
    · refine ⟨m, _, by rw [AllocOp.step, h], hc.mono fun r hr' => ?_, ?_⟩
      · rw [List.mem_singleton.1 hr', htable]
        refine ⟨_, List.mem_singleton_self _, ?_⟩
        simp only [Region.Within, Atlas.genTableRegion, GenTable.generations, GenTable.size]
        omega
      · have hkeep : m.get Genesis.size GenTable.entryCount =
            σ.mem.get Genesis.size GenTable.entryCount := by
          refine hc.load fun r hr' => ?_
          rw [List.mem_singleton.1 hr', htable]
          simp only [Region.Disjoint, GenTable.generations, GenTable.entryCount]
          omega
        rw [hkeep]
        exact hcount'

/-- A request leaves the words outside its block and the bump pointer's words alone. -/
theorem AllocOp.get_of_request {σ : Atlas} {m m' : Memory} {start len base : ℕ}
    {f : StructField} {n : ℕ} (hc : ChangesOnly Atlas.bumpWrites σ.mem m)
    (hc' : ChangesOnly [⟨start, len⟩] m m') (hf : f.Inside n)
    (hb : ∀ r ∈ Atlas.bumpWrites, (Region.mk (base + f.off) f.width).Disjoint r)
    (hs : base + n ≤ start) : m'.get base f = σ.mem.get base f := by
  refine (hc'.get hf fun r hr => ?_).trans (hc.load hb)
  rw [List.mem_singleton.1 hr]
  exact Or.inl hs

/-! ## Where the sums do not wrap -/

/-- The state of a run whose sums do not wrap : the blocks handed out lie one after the
other between the header and the bump pointer. -/
structure Placed (σ : Atlas) (bs : List Block) : Prop where
  init : σ.initialized = true
  table : σ.tableOffset = Genesis.size
  count : σ.entryCount ≤ genTableSize
  header : headerSize ≤ σ.next
  size : σ.next ≤ σ.size
  start : ∀ b ∈ bs, headerSize ≤ b.start
  stop : ∀ b ∈ bs, b.start + b.reserved ≤ σ.next
  large : ∀ b ∈ bs, b.requested ≤ b.reserved
  pairwise : bs.Pairwise fun b c => b.region.Disjoint c.region

theorem placed_format (size : ℕ) (mem : Memory) (hsize : headerSize ≤ size) :
    Placed (mapped size mem).format [] where
  init := rfl
  table := Atlas.format_tableOffset _
  count := by rw [Atlas.format_entryCount]; exact Nat.zero_le _
  header := (Atlas.format_next _).ge
  size := by rw [Atlas.format_next]; exact hsize
  start := by simp
  stop := by simp
  large := by simp
  pairwise := List.Pairwise.nil

/-- Rounding up does not fall below the value unless it wraps. -/
theorem le_place {σ : Atlas} (op : AllocOp) (h : σ.next + pageSize ≤ 2 ^ 64) :
    σ.next ≤ op.place σ.next := by
  cases op with
  | allocPages size =>
    simp only [AllocOp.place, pageSize, alignUp_page] at h ⊢
    omega
  | _ => exact le_refl _

theorem le_reserved {op : AllocOp} {r : ℕ × ℕ} (hr : op.request = some r)
    (h : r.1 + pageSize ≤ 2 ^ 64) : r.1 ≤ r.2 := by
  cases op with
  | allocPages size =>
    obtain rfl := Option.some.inj hr
    simp only [pageSize, alignUp_page] at h ⊢
    omega
  | allocGeneration => cases hr
  | revoke id => cases hr
  | _ =>
    obtain rfl := Option.some.inj hr
    simp only [pageSize, atlasAlign, alignUp_eight] at h ⊢
    omega

/-- One call keeps the blocks placed. -/
theorem Placed.step {σ : Atlas} {bs : List Block} (h : Placed σ bs) {op : AllocOp}
    (hop : op.NoWrap σ) : Placed (AllocOp.step σ op).1
      (bs ++ (handedOutBy ⟨σ, op, (AllocOp.step σ op).2⟩).toList) := by
  cases hr : op.request with
  | none =>
    obtain ⟨m, w, hstep, hc, hcount⟩ := AllocOp.step_table hr h.table h.count
    have hgen : ∀ f : StructField, f.Inside Genesis.size → m.get 0 f = σ.mem.get 0 f :=
      fun f hf => hc.get hf (by decide)
    have htable : m.get 0 Genesis.genTableOffset = Genesis.size :=
      (hgen Genesis.genTableOffset (by decide)).trans h.table
    have hnext : m.get 0 Genesis.nextAllocOffset = σ.next := hgen _ (by decide)
    have hnone : (handedOutBy ⟨σ, op, (AllocOp.step σ op).2⟩).toList = [] := by
      rw [handedOutBy, hr]
      rfl
    rw [hnone, List.append_nil, hstep]
    refine ⟨h.init, htable, ?_, h.header.trans_eq hnext.symm, hnext.trans_le h.size, h.start, ?_,
      h.large, h.pairwise⟩
    · exact (congrArg (fun t => m.get t GenTable.entryCount) htable).trans_le hcount
    · exact fun b hb => (h.stop b hb).trans_eq hnext.symm
  | some r =>
    obtain ⟨hreq, hpage, hsum⟩ := hop r hr
    have hplace := le_place op hpage
    have hres := le_reserved hr hreq
    rcases AllocOp.step_request hr h.init with ⟨-, hσ, hp⟩ | ⟨m, m', h0, hle, hs, hm, hc, hc'⟩
    · have hnone : (handedOutBy ⟨σ, op, (AllocOp.step σ op).2⟩).toList = [] := by
        rw [handedOutBy, hr, hp]
        rfl
      rw [hnone, List.append_nil, hσ]
      exact h
    · have hstart : headerSize ≤ op.place σ.next := h.header.trans hplace
      have hroom : Genesis.size + 24 ≤ op.place σ.next :=
        le_trans (by decide) hstart
      have hnext : m'.get 0 Genesis.nextAllocOffset = op.place σ.next + r.2 := by
        refine (hc'.get (n := Genesis.size) (by decide) fun q hq => ?_).trans
          (hm.trans (u64_of_lt hsum))
        rw [List.mem_singleton.1 hq]
        exact Or.inl (by simpa using Nat.le_of_add_right_le hroom)
      have htable : m'.get 0 Genesis.genTableOffset = Genesis.size :=
        (AllocOp.get_of_request hc hc' (n := Genesis.size) (by decide) (by decide)
          (by simpa using Nat.le_of_add_right_le hroom)).trans h.table
      have hcount : m'.get Genesis.size GenTable.entryCount =
          σ.mem.get Genesis.size GenTable.entryCount :=
        AllocOp.get_of_request hc hc' (n := 24) (by decide) (by decide) hroom
      have hnew : (handedOutBy ⟨σ, op, (AllocOp.step σ op).2⟩).toList =
          [⟨op.place σ.next, r.1, r.2⟩] := by
        rw [handedOutBy, hr, hs]
        rfl
      rw [u64_of_lt hsum] at hle
      rw [hnew, hs]
      refine ⟨h.init, htable, ?_, ?_, hnext.trans_le hle, ?_, ?_, ?_, ?_⟩
      · have := h.count
        rw [Atlas.entryCount, h.table, ← hcount] at this
        exact (congrArg (fun t => m'.get t GenTable.entryCount) htable).trans_le this
      · exact (hstart.trans (Nat.le_add_right _ _)).trans_eq hnext.symm
      · intro b hb
        rcases List.mem_append.1 hb with hb | hb
        · exact h.start b hb
        · rw [List.mem_singleton.1 hb]
          exact hstart
      · intro b hb
        refine le_of_le_of_eq ?_ hnext.symm
        rcases List.mem_append.1 hb with hb | hb
        · exact (h.stop b hb).trans (hplace.trans (Nat.le_add_right _ _))
        · rw [List.mem_singleton.1 hb]
      · intro b hb
        rcases List.mem_append.1 hb with hb | hb
        · exact h.large b hb
        · rw [List.mem_singleton.1 hb]
          exact hres
      · refine List.pairwise_append.2 ⟨h.pairwise, List.pairwise_singleton _ _, ?_⟩
        intro b hb c hc
        rw [List.mem_singleton.1 hc]
        exact Or.inl ((h.stop b hb).trans hplace)

/-- Along a run whose sums do not wrap the blocks stay placed. -/
theorem placed_run {σ : Atlas} (hσ : Placed σ []) (ops : List AllocOp)
    (hg : Guarded AllocOp.step (fun σ op => op.NoWrap σ) σ ops) :
    Placed (run AllocOp.step σ ops) (handedOut σ ops) := by
  induction ops using List.reverseRecOn with
  | nil => exact hσ
  | append_singleton ops op ih =>
    obtain ⟨hg, hop⟩ := guarded_concat.1 hg
    rw [run_concat, handedOut_concat]
    exact (ih hg).step hop

/-- No sum wraps where the Atlas and the request are far smaller than the address space. -/
theorem Placed.noWrap {σ : Atlas} {bs : List Block} (h : Placed σ bs) {op : AllocOp}
    (hsize : σ.size ≤ 2 ^ 63) (hop : ∀ r ∈ op.request, r.1 ≤ 2 ^ 62) : op.NoWrap σ := by
  intro r hr
  have hreq := hop r hr
  have hnext := h.size
  have hpage : pageSize = 4096 := rfl
  refine ⟨by omega, by omega, ?_⟩
  cases op with
  | allocPages size =>
    obtain rfl := Option.some.inj hr
    simp only [AllocOp.place, hpage, alignUp_page] at hreq ⊢
    omega
  | allocGeneration => cases hr
  | revoke id => cases hr
  | _ =>
    obtain rfl := Option.some.inj hr
    simp only [AllocOp.place, atlasAlign, alignUp_eight] at hreq ⊢
    omega

theorem Placed.size_step {σ : Atlas} {bs : List Block} (h : Placed σ bs) (op : AllocOp) :
    (AllocOp.step σ op).1.size = σ.size := by
  cases hr : op.request with
  | none =>
    obtain ⟨m, w, hstep, -⟩ := AllocOp.step_table hr h.table h.count
    rw [hstep]
  | some r =>
    rcases AllocOp.step_request hr h.init with ⟨-, hσ, -⟩ | ⟨m, m', -, -, hs, -⟩
    · rw [hσ]
    · rw [hs]

/-- In a run of such requests no sum wraps. -/
theorem Placed.guarded {σ : Atlas} (hσ : Placed σ []) (hsize : σ.size ≤ 2 ^ 63)
    {ops : List AllocOp} (hops : ∀ op ∈ ops, ∀ r ∈ op.request, r.1 ≤ 2 ^ 62) :
    Guarded AllocOp.step (fun σ op => op.NoWrap σ) σ ops ∧
      (run AllocOp.step σ ops).size = σ.size := by
  induction ops using List.reverseRecOn with
  | nil => exact ⟨trivial, rfl⟩
  | append_singleton ops op ih =>
    obtain ⟨hg, hrun⟩ := ih fun o ho => hops o (List.mem_append_left _ ho)
    have hplaced := placed_run hσ ops hg
    refine ⟨guarded_concat.2 ⟨hg, hplaced.noWrap (hrun ▸ hsize) ?_⟩, ?_⟩
    · exact hops op (List.mem_append_right _ (List.mem_singleton_self op))
    · rw [run_concat, hplaced.size_step, hrun]

theorem newFileSize_bounds {request : ℕ} (h : request ≤ 2 ^ 62) :
    headerSize ≤ newFileSize request ∧ newFileSize request ≤ 2 ^ 63 := by
  have hpage : pageSize = 4096 := rfl
  have hheader : headerSize = 16384 := rfl
  have hdefault : defaultSize ≤ 2 ^ 62 := by decide
  rw [newFileSize, hpage, alignUp_page]
  split <;> split <;> omega

/-- In every run of calls on a new Atlas, with requests far smaller than the address space, the
blocks handed out are large enough, inside the region and past the header, and no two of them
overlap. -/
theorem blocks_sound {mmap : ℕ → Bool} {mem : Memory} {request : ℕ} {σ : Atlas}
    (h : atlasInit mmap mem none request = some σ) (hrequest : request ≤ 2 ^ 62)
    {ops : List AllocOp} (hops : ∀ op ∈ ops, ∀ r ∈ op.request, r.1 ≤ 2 ^ 62) :
    (∀ b ∈ handedOut σ ops, b.region.Within ⟨headerSize, σ.size - headerSize⟩ ∧
        b.requested ≤ b.reserved) ∧
      (handedOut σ ops).Pairwise fun b c => b.region.Disjoint c.region := by
  obtain ⟨hheader, hbound⟩ := newFileSize_bounds hrequest
  obtain rfl : (mapped (newFileSize request) mem).format = σ := by
    simp only [atlasInit] at h
    split_ifs at h
    exact Option.some.inj h
  have hσ := placed_format (newFileSize request) mem hheader
  obtain ⟨hg, hsize⟩ := hσ.guarded hbound hops
  have hplaced := placed_run hσ ops hg
  refine ⟨fun b hb => ⟨?_, hplaced.large b hb⟩, hplaced.pairwise⟩
  have hstart := hplaced.start b hb
  have hstop := hplaced.stop b hb
  have hnext := hplaced.size
  simp only [Region.Within, Block.region]
  omega

/-- On 64 KiB, a word and two pages : the pages come after the word. -/
theorem blocks_sound_64k : (handedOut (mapped 65536 fun _ => 0).format
    [.alloc 8, .revoke 0, .allocPages 8192]).Pairwise fun b c => b.region.Disjoint c.region :=
  have hsize : newFileSize 65536 = 65536 := by decide
  have hnew : atlasInit (fun _ => true) (fun _ => 0) none 65536 =
      some (mapped 65536 fun _ => 0).format := by
    rw [atlasInit, hsize]
    rfl
  (blocks_sound hnew (by norm_num) (by
    intro op hop r hr
    simp only [List.mem_cons, List.not_mem_nil, or_false] at hop
    rcases hop with rfl | rfl | rfl
    · obtain rfl := Option.some.inj hr
      norm_num
    · cases hr
    · obtain rfl := Option.some.inj hr
      norm_num)).2

/-! ## Blocks and the generation table -/

/-- A new Atlas before its first block : the bump pointer is still at the header. -/
structure Idle (size : ℕ) (σ : Atlas) : Prop where
  init : σ.initialized = true
  size : σ.size = size
  table : σ.tableOffset = Genesis.size
  count : σ.entryCount ≤ genTableSize
  next : σ.next = headerSize

theorem idle_format (size : ℕ) (mem : Memory) : Idle size (mapped size mem).format where
  init := rfl
  size := rfl
  table := Atlas.format_tableOffset _
  count := by rw [Atlas.format_entryCount]; exact Nat.zero_le _
  next := Atlas.format_next _

/-- Refused calls hand out nothing and leave the bump pointer at the header. -/
theorem Idle.step {size : ℕ} {σ : Atlas} (h : Idle size σ) {op : AllocOp}
    (hop : op.Refused size headerSize) :
    Idle size (AllocOp.step σ op).1 ∧ handedOutBy ⟨σ, op, (AllocOp.step σ op).2⟩ = none := by
  cases hr : op.request with
  | none =>
    obtain ⟨m, w, hstep, hc, hcount⟩ := AllocOp.step_table hr h.table h.count
    have hgen : ∀ f : StructField, f.Inside Genesis.size → m.get 0 f = σ.mem.get 0 f :=
      fun f hf => hc.get hf (by decide)
    have htable : m.get 0 Genesis.genTableOffset = Genesis.size :=
      (hgen Genesis.genTableOffset (by decide)).trans h.table
    refine ⟨?_, by rw [handedOutBy, hr]⟩
    rw [hstep]
    refine ⟨h.init, h.size, htable, ?_, (hgen _ (by decide)).trans h.next⟩
    exact (congrArg (fun t => m.get t GenTable.entryCount) htable).trans_le hcount
  | some r =>
    have hbad := hop r hr
    rw [← h.next, ← h.size] at hbad
    rcases AllocOp.step_request hr h.init with ⟨-, hσ, hp⟩ | ⟨m, m', h0, hle, -⟩
    · exact ⟨by rw [hσ]; exact h, by rw [handedOutBy, hr, hp]⟩
    · rcases hbad with hbad | hbad
      · exact absurd hbad h0
      · exact absurd hle (not_le.2 hbad)

theorem Idle.run {size : ℕ} {σ : Atlas} (h : Idle size σ) (ops : List AllocOp)
    (hops : ∀ op ∈ ops, op.Refused size headerSize) :
    Idle size (run AllocOp.step σ ops) ∧ handedOut σ ops = [] := by
  induction ops using List.reverseRecOn with
  | nil => exact ⟨h, rfl⟩
  | append_singleton ops op ih =>
    obtain ⟨hrun, hnone⟩ := ih fun o ho => hops o (List.mem_append_left _ ho)
    obtain ⟨hstep, hblock⟩ := hrun.step (hops op (by simp))
    rw [run_concat, handedOut_concat, hnone, hblock]
    exact ⟨hstep, rfl⟩

/-- A request that is not refused gets the block at the header. -/
theorem Idle.first {size : ℕ} {σ : Atlas} (h : Idle size σ) {op : AllocOp}
    (hop : ¬op.Refused size headerSize) :
    ∃ b, handedOutBy ⟨σ, op, (AllocOp.step σ op).2⟩ = some b ∧ b.start = headerSize := by
  unfold AllocOp.Refused at hop
  push Not at hop
  obtain ⟨r, hr, h0, hfit⟩ := hop
  have hplace : op.place headerSize = headerSize := by
    cases op with
    | allocPages n => simp [AllocOp.place, headerSize, pageSize, alignUp_page]
    | _ => rfl
  rw [← h.next, ← h.size] at hfit
  rcases AllocOp.step_request hr h.init with ⟨hbad, -⟩ | ⟨m, m', -, -, hs, -⟩
  · rcases hbad with hbad | hbad
    · exact absurd hbad h0
    · exact absurd hfit (not_le.2 hbad)
  · refine ⟨⟨op.place σ.next, r.1, r.2⟩, ?_, by rw [h.next, hplace]⟩
    rw [handedOutBy, hr, hs]

/-- A run with a request that is not refused hands out the block at the header. -/
theorem Idle.mem_handedOut {size : ℕ} {σ : Atlas} (h : Idle size σ) (ops : List AllocOp)
    (hops : ∃ op ∈ ops, ¬op.Refused size headerSize) :
    ∃ b ∈ handedOut σ ops, b.start = headerSize := by
  induction ops generalizing σ with
  | nil => simp at hops
  | cons op ops ih =>
    have hcons : handedOut σ (op :: ops) =
        (handedOutBy ⟨σ, op, (AllocOp.step σ op).2⟩).toList ++
          handedOut (AllocOp.step σ op).1 ops := by
      rw [handedOut, calls, List.filterMap_cons]
      cases handedOutBy ⟨σ, op, (AllocOp.step σ op).2⟩ <;> rfl
    by_cases hop : op.Refused size headerSize
    · obtain ⟨hstep, -⟩ := h.step hop
      obtain ⟨b, hb, hstart⟩ := ih hstep (by
        obtain ⟨o, ho, hno⟩ := hops
        rcases List.mem_cons.1 ho with rfl | ho
        · exact absurd hop hno
        · exact ⟨o, ho, hno⟩)
      exact ⟨b, hcons ▸ List.mem_append_right _ hb, hstart⟩
    · obtain ⟨b, hb, hstart⟩ := h.first hop
      exact ⟨b, by rw [hcons, hb]; exact List.mem_append_left _ List.mem_cons_self, hstart⟩

/-- A run of a new Atlas keeps its blocks inside the region and separate from one another,
from Genesis and from the generation table exactly when it hands out none : the block at
the header lies in the table. -/
theorem separate_iff_refused {mmap : ℕ → Bool} {mem : Memory} {request : ℕ} {σ : Atlas}
    (h : atlasInit mmap mem none request = some σ) (ops : List AllocOp) :
    Separate σ.size (handedOut σ ops) ↔ ∀ op ∈ ops, op.Refused σ.size headerSize := by
  have hidle : Idle σ.size σ := by
    obtain ⟨size, -, rfl⟩ := atlasInit_new h
    exact idle_format _ _
  constructor
  · intro hsep
    by_contra hall
    push Not at hall
    obtain ⟨b, hb, hstart⟩ := hidle.mem_handedOut ops hall
    have ht := hsep.table b hb
    simp only [Region.Disjoint, Block.region, hstart, Atlas.genTableRegion, GenTable.size,
      genTableSize, Genesis.size, headerSize, pageSize] at ht
    omega
  · intro hops
    rw [(hidle.run ops hops).2]
    exact ⟨by simp, by simp, List.Pairwise.nil, by simp, by simp⟩

/-- On 64 KiB, a run that asks for nothing keeps the blocks separate. -/
theorem separate_iff_refused_64k : Separate 65536
    (handedOut (mapped 65536 fun _ => 0).format [.alloc 0, .allocGeneration, .revoke 0]) :=
  have hsize : newFileSize 65536 = 65536 := by decide
  have hnew : atlasInit (fun _ => true) (fun _ => 0) none 65536 =
      some (mapped 65536 fun _ => 0).format := by
    rw [atlasInit, hsize]
    rfl
  (separate_iff_refused hnew [.alloc 0, .allocGeneration, .revoke 0]).2 (by
      intro op hop r hr
      simp only [List.mem_cons, List.not_mem_nil, or_false] at hop
      rcases hop with rfl | rfl | rfl
      · exact Or.inl (by obtain rfl := Option.some.inj hr; rfl)
      · cases hr
      · cases hr)

/-- On 64 KiB, the first eight bytes handed out are slot 2013 of the generation table. -/
theorem not_separate_first_block : ¬Separate 65536
    (handedOut (mapped 65536 fun _ => 0).format [.alloc 8]) := by
  intro h
  have hblock : (⟨16384, 8, 8⟩ : Block) ∈
      handedOut (mapped 65536 fun _ => 0).format [.alloc 8] := by
    decide
  have ht := h.table _ hblock
  revert ht
  decide

end Seraph
