import Seraph.AtlasAlloc
import Seraph.FreeList

/-!
# The Atlas free list

`seraph_atlas_free` writes a `Seraph_Atlas_Free_Entry` of 24 bytes at the start of the block
it is given and puts it in front of the list that begins at `free_list_offset`. A block of
`seraph_atlas_alloc` may be 8 or 16 bytes long, and then the entry runs into the block that
follows. In the runs that free no such block and whose sums do not wrap, every `free` stays
inside the block and Genesis, and the list holds the freed blocks with their sizes
(`frees_own`).
-/

namespace Seraph

open ByteMem Memory Runs FreeList

/-! ### Fields of `Seraph_Atlas_Free_Entry`. -/

namespace FreeEntry

/-- `next_offset`. -/
def nextOffset : StructField := ⟨0, 8⟩

/-- `size`. -/
def blockSize : StructField := ⟨8, 8⟩

/-- `freed_generation`. -/
def freedGeneration : StructField := ⟨16, 8⟩

/-- `sizeof(Seraph_Atlas_Free_Entry)`. -/
def size : ℕ := 24

end FreeEntry

namespace Atlas

variable (σ : Atlas)

/-- The entry `seraph_atlas_free` writes into the block at `off`. -/
def freeEntry (off size : ℕ) : Memory :=
  let m := σ.mem.assign off [(FreeEntry.nextOffset, σ.genesis Genesis.freeListOffset),
    (FreeEntry.blockSize, size)]
  m.set off FreeEntry.freedGeneration (m.get 0 Genesis.generation)

/-- The words of Genesis that `seraph_atlas_free` updates. -/
def freeGenesis (m : Memory) (off size : ℕ) : Memory :=
  let m := m.set 0 Genesis.freeListOffset off
  let m := m.set 0 Genesis.totalFreed (m.get 0 Genesis.totalFreed + size)
  m.set 0 Genesis.modifiedAt 0

/-- The block at `off` comes to the front of the free list. -/
def pushFree (off size : ℕ) : Atlas :=
  { σ with mem := freeGenesis (σ.freeEntry off size) (σ.ptrToOffset (some off)) size }

/-- `seraph_atlas_free`. -/
def free (ptr : Ptr) (size : ℕ) : Atlas :=
  match ptr with
  | none => σ
  | some off =>
    if !σ.initialized ∨ size = 0 then σ
    else if !σ.contains (some off) then σ
    else σ.pushFree off size

/-- Where the list of freed blocks goes on after the one at `off`. -/
def nextFree (off : ℕ) : ℕ :=
  σ.mem.get off FreeEntry.nextOffset

/-- The words of Genesis that change. -/
def freeWrites : List Region :=
  [⟨32, 8⟩, ⟨64, 8⟩, ⟨80, 8⟩]

theorem freeWrites_within : ∀ r ∈ freeWrites, r.Within ⟨0, Genesis.size⟩ := by
  decide

theorem freeWrites_next : ∀ r ∈ freeWrites, (Region.mk 48 8).Disjoint r := by
  decide

theorem changesOnly_freeEntry (off size : ℕ) :
    ChangesOnly [⟨off, FreeEntry.size⟩] σ.mem (σ.freeEntry off size) :=
  (changesOnly_assign off _ σ.mem (by simp [StructField.Inside, FreeEntry.nextOffset,
    FreeEntry.blockSize, FreeEntry.size])).comp
    (changesOnly_set _ off (f := FreeEntry.freedGeneration) (by decide) _)

theorem changesOnly_freeGenesis (m : Memory) (off size : ℕ) :
    ChangesOnly freeWrites m (freeGenesis m off size) :=
  ((changesOnly_store m 32 8 off).trans (changesOnly_store _ 64 8 _)).trans
    (changesOnly_store _ 80 8 0)

/-- The words of the entry. -/
theorem freeEntry_words (off size : ℕ) :
    (σ.freeEntry off size).get off FreeEntry.nextOffset =
        u64 (σ.genesis Genesis.freeListOffset) ∧
      (σ.freeEntry off size).get off FreeEntry.blockSize = u64 size := by
  unfold freeEntry
  simp (disch := decide) only [assign, get_set_apart, get_set_same]
  exact ⟨rfl, rfl⟩

theorem freeGenesis_head (m : Memory) (off size : ℕ) :
    (freeGenesis m off size).get 0 Genesis.freeListOffset = u64 off := by
  unfold freeGenesis
  rw [get_set_apart _ _ (by decide), get_set_apart _ _ (by decide), get_set_u64 _ _ rfl]

/-- `free` of a block that starts inside the region. -/
theorem free_eq (hinit : σ.initialized = true) {off size : ℕ} (hsize : size ≠ 0)
    (hoff : off < σ.size) :
    σ.free (some off) size = σ.pushFree off size ∧
      (σ.pushFree off size).mem = freeGenesis (σ.freeEntry off size) off size := by
  have hin : σ.contains (some off) = true := decide_eq_true hoff
  refine ⟨by rw [free, if_neg (by simp [hinit, hsize]), if_neg (by simp [hin])], ?_⟩
  rw [pushFree, ptrToOffset, if_pos hin]

end Atlas

/-! ## Runs of `alloc` and `free` -/

/-- Calls that allocate and free blocks. -/
inductive FreeOp where
  | alloc (size : ℕ)
  | free (off size : ℕ)
deriving DecidableEq, Repr

/-- An Atlas with the blocks that are allocated and those that have been freed, the last one
first. -/
structure BlockState where
  atlas : Atlas
  live : List Block
  freed : List Block

namespace BlockState

/-- The freed block with the given start and size. -/
def blockAt (s : BlockState) (off size : ℕ) : Option Block :=
  s.live.find? fun b => b.start = off ∧ b.requested = size

/-- Perform one call. `alloc` returns the block. -/
def step (s : BlockState) : FreeOp → BlockState × Option Block
  | .alloc size =>
    let r := s.atlas.alloc size
    let block := r.2.map fun off => ⟨off, size, alignUp size atlasAlign⟩
    (⟨r.1, block.toList ++ s.live, s.freed⟩, block)
  | .free off size =>
    let block := s.blockAt off size
    (⟨s.atlas.free (some off) size, block.elim s.live s.live.erase, block.toList ++ s.freed⟩,
      none)

/-- A block is freed once, with the size it was allocated with. -/
def Legal (s : BlockState) : FreeOp → Prop
  | .alloc _ => True
  | .free off size => (s.blockAt off size).isSome

/-- The sums of `alloc` do not wrap, and the block that is freed has room for the entry. -/
def Fits (s : BlockState) : FreeOp → Prop
  | .alloc size => size + 7 < 2 ^ 64 ∧ s.atlas.next + alignUp size atlasAlign < 2 ^ 64
  | .free _ size => 16 < size

instance (s : BlockState) (op : FreeOp) : Decidable (s.Legal op) :=
  match op with
  | .alloc _ => inferInstanceAs (Decidable True)
  | .free _ _ => inferInstanceAs (Decidable (_ = true))

instance (s : BlockState) (op : FreeOp) : Decidable (s.Fits op) :=
  match op with
  | .alloc _ => inferInstanceAs (Decidable (_ ∧ _))
  | .free _ _ => inferInstanceAs (Decidable (_ < _))

/-- `free` changes no byte outside the block and Genesis. -/
def FreesOwn (c : Call BlockState FreeOp (Option Block)) : Prop :=
  match c.op with
  | .alloc _ => True
  | .free off size => ∀ b ∈ c.before.blockAt off size,
      ChangesOnly [b.region, ⟨0, Genesis.size⟩] c.before.atlas.mem
        (step c.before (.free off size)).1.atlas.mem

/-- The free list has no cycle and goes through the freed blocks, which hold their sizes. -/
structure ListsFreed (s : BlockState) : Prop where
  threads : Threads s.atlas.nextFree 0 (s.atlas.genesis Genesis.freeListOffset)
    (s.freed.map Block.start)
  sizes : ∀ b ∈ s.freed, s.atlas.mem.get b.start FreeEntry.blockSize = b.requested

/-- The invariant : the blocks lie one after the other between the header and the bump pointer,
and those that are freed have their entries. -/
structure Valid (s : BlockState) : Prop where
  init : s.atlas.initialized = true
  header : headerSize ≤ s.atlas.next
  start : ∀ b ∈ s.live ++ s.freed, headerSize ≤ b.start
  stop : ∀ b ∈ s.live ++ s.freed, b.start + b.reserved ≤ s.atlas.next
  inside : ∀ b ∈ s.live ++ s.freed, b.start + b.reserved ≤ s.atlas.size
  nonempty : ∀ b ∈ s.live ++ s.freed, 0 < b.requested ∧ b.requested < 2 ^ 64
  reserved : ∀ b ∈ s.live ++ s.freed, b.reserved = alignUp b.requested atlasAlign
  large : ∀ b ∈ s.live ++ s.freed, b.requested ≤ b.reserved
  pairwise : (s.live ++ s.freed).Pairwise fun b c => b.region.Disjoint c.region
  room : ∀ b ∈ s.freed, FreeEntry.size ≤ b.reserved
  lists : s.ListsFreed

theorem valid_format (size : ℕ) (mem : Memory) :
    Valid ⟨(mapped size mem).format, [], []⟩ where
  init := rfl
  header := (Atlas.format_next _).ge
  start := by simp
  stop := by simp
  inside := by simp
  nonempty := by simp
  reserved := by simp
  large := by simp
  pairwise := List.Pairwise.nil
  room := by simp
  lists := ⟨⟨by
    change Atlas.genesis _ _ = 0
    rw [Atlas.genesis_format _ (by decide)]
    simp (disch := decide) only [Atlas.genesisInit, assign, get_set_same, get_set_apart]
    rfl, List.nodup_nil⟩, by simp⟩

variable {s : BlockState}

/-- A change of the memory that touches no entry leaves the list alone. -/
theorem ListsFreed.frame (h : s.ListsFreed) {rs : List Region} {τ : Atlas} {live : List Block}
    (hc : ChangesOnly rs s.atlas.mem τ.mem) (hhead : ∀ r ∈ rs, (Region.mk 32 8).Disjoint r)
    (hentry : ∀ b ∈ s.freed, ∀ r ∈ rs, (Region.mk b.start FreeEntry.size).Disjoint r) :
    (BlockState.mk τ live s.freed).ListsFreed := by
  have hnext : ∀ b ∈ s.freed, τ.nextFree b.start = s.atlas.nextFree b.start :=
    fun b hb => hc.get (by decide) (hentry b hb)
  refine ⟨?_, fun b hb => ?_⟩
  · change Threads τ.nextFree 0 (τ.mem.load 32 8) _
    rw [hc.load hhead]
    refine h.threads.congr fun a ha => ?_
    obtain ⟨b, hb, rfl⟩ := List.mem_map.1 ha
    exact hnext b hb
  · rw [hc.get (by decide) (hentry b hb)]
    exact h.sizes b hb

/-- The block that `free` is given is live. -/
theorem mem_live_of_blockAt {off size : ℕ} {b : Block} (h : s.blockAt off size = some b) :
    b ∈ s.live ∧ b.start = off ∧ b.requested = size := by
  refine ⟨List.mem_of_find?_eq_some h, ?_⟩
  simpa using List.find?_some h

theorem Valid.entry_room (h : s.Valid) {b : Block} (hb : b ∈ s.live ++ s.freed)
    (hsize : 16 < b.requested) : FreeEntry.size ≤ b.reserved := by
  have hlarge := h.large b hb
  rw [h.reserved b hb, atlasAlign, alignUp_eight] at hlarge ⊢
  simp only [FreeEntry.size]
  omega

theorem valid_alloc (h : s.Valid) {size : ℕ} (hfits : s.Fits (.alloc size)) :
    (step s (.alloc size)).1.Valid := by
  rcases Atlas.alloc_cases h.init size with ⟨-, hs⟩ | ⟨m, h0, hle, hs, hm, hc⟩
  · simp only [step, hs]
    exact h
  obtain ⟨hsize, hsum⟩ := hfits
  simp only [atlasAlign] at hsum
  rw [u64_of_lt hsum] at hle hm
  have hlarge : size ≤ alignUp size 8 := by
    rw [alignUp_eight]
    omega
  have hnext : Atlas.next { s.atlas with mem := m } = s.atlas.next + alignUp size 8 := hm
  have hheader := h.header
  simp only [headerSize, pageSize] at hheader
  have hstep : (step s (.alloc size)).1 =
      ⟨{ s.atlas with mem := m }, ⟨s.atlas.next, size, alignUp size 8⟩ :: s.live, s.freed⟩ := by
    simp only [step, hs]
    rfl
  rw [hstep]
  refine ⟨h.init, (h.header.trans (Nat.le_add_right _ _)).trans_eq hnext.symm,
    List.forall_mem_cons.2 ⟨h.header, h.start⟩, ?_, List.forall_mem_cons.2 ⟨hle, h.inside⟩,
    ?_, ?_, ?_, ?_, h.room, ?_⟩
  · rw [hnext]
    exact List.forall_mem_cons.2
      ⟨le_rfl, fun b hb => (h.stop b hb).trans (Nat.le_add_right _ _)⟩
  · exact List.forall_mem_cons.2 ⟨⟨Nat.pos_of_ne_zero h0, by dsimp only; omega⟩, h.nonempty⟩
  · exact List.forall_mem_cons.2 ⟨rfl, h.reserved⟩
  · exact List.forall_mem_cons.2 ⟨hlarge, h.large⟩
  · exact List.pairwise_cons.2 ⟨fun b hb => .inr (h.stop b hb), h.pairwise⟩
  · refine h.lists.frame hc (by decide) fun b hb r hr => ?_
    have hstart := h.start b (List.mem_append_right _ hb)
    simp only [headerSize, pageSize] at hstart
    simp only [Atlas.bumpWrites, List.mem_cons, List.not_mem_nil, or_false] at hr
    rcases hr with rfl | rfl <;> simp only [Region.Disjoint] <;> omega

/-- `free` of a live block. -/
theorem free_live (h : s.Valid) {b : Block} (hlive : b ∈ s.live) :
    s.atlas.free (some b.start) b.requested = s.atlas.pushFree b.start b.requested ∧
      (s.atlas.pushFree b.start b.requested).mem =
        Atlas.freeGenesis (s.atlas.freeEntry b.start b.requested) b.start b.requested := by
  have hmem : b ∈ s.live ++ s.freed := List.mem_append_left _ hlive
  have hpos := (h.nonempty b hmem).1
  have hlarge := h.large b hmem
  have hinside := h.inside b hmem
  exact Atlas.free_eq _ h.init (by omega) (by omega)

/-- The bytes that change. -/
theorem changesOnly_pushFree (h : s.Valid) {b : Block} (hlive : b ∈ s.live) :
    ChangesOnly ([⟨b.start, FreeEntry.size⟩] ++ Atlas.freeWrites) s.atlas.mem
      (s.atlas.pushFree b.start b.requested).mem := by
  rw [(free_live h hlive).2]
  exact (Atlas.changesOnly_freeEntry _ _ _).trans (Atlas.changesOnly_freeGenesis _ _ _)

theorem freesOwn (h : s.Valid) {op : FreeOp} (hfits : s.Fits op) :
    FreesOwn ⟨s, op, (step s op).2⟩ := by
  cases op with
  | alloc size => trivial
  | free off size =>
    intro b hb
    obtain ⟨hlive, rfl, rfl⟩ := mem_live_of_blockAt hb
    have hroom := h.entry_room (List.mem_append_left _ hlive) hfits
    simp only [step, (free_live h hlive).1]
    refine (changesOnly_pushFree h hlive).mono fun r hr => ?_
    rcases List.mem_append.1 hr with hr | hr
    · rw [List.mem_singleton.1 hr]
      exact ⟨_, List.mem_cons_self, le_rfl, Nat.add_le_add_left hroom _⟩
    · exact ⟨⟨0, Genesis.size⟩, by simp, Atlas.freeWrites_within r hr⟩

/-- Past the header the words of Genesis are elsewhere. -/
theorem disjoint_freeWrites {off : ℕ} (hoff : headerSize ≤ off) :
    ∀ r ∈ Atlas.freeWrites, (Region.mk off FreeEntry.size).Disjoint r := by
  intro r hr
  have hin := Atlas.freeWrites_within r hr
  simp only [Region.Within, Region.Disjoint, Genesis.size, headerSize, pageSize] at hin hoff ⊢
  omega

/-- A freed block has its entry apart from that of a live one. -/
theorem Valid.entries_apart (h : s.Valid) {b c : Block} (hlive : b ∈ s.live)
    (hroom : FreeEntry.size ≤ b.reserved) (hc : c ∈ s.freed) :
    (Region.mk c.start FreeEntry.size).Disjoint ⟨b.start, FreeEntry.size⟩ := by
  have hd := (List.pairwise_append.1 h.pairwise).2.2 b hlive c hc
  have hc' := h.room c hc
  simp only [Region.Disjoint, Block.region] at hd ⊢
  omega

/-- The block that is freed comes to the front of the list. -/
theorem listsFreed_pushFree (h : s.Valid) {b : Block} (hlive : b ∈ s.live)
    (hroom : FreeEntry.size ≤ b.reserved) {live : List Block} :
    (BlockState.mk (s.atlas.pushFree b.start b.requested) live (b :: s.freed)).ListsFreed := by
  have hmem : b ∈ s.live ++ s.freed := List.mem_append_left _ hlive
  have hstop := h.stop b hmem
  have hlarge := h.large b hmem
  have hnonempty := h.nonempty b hmem
  have hword : b.start < 2 ^ 64 := by
    have hnext : s.atlas.next < 2 ^ 64 := get_lt _ _ _
    omega
  have hmemEq := (free_live h hlive).2
  have hgenesis := Atlas.changesOnly_freeGenesis (s.atlas.freeEntry b.start b.requested)
    b.start b.requested
  have hown := disjoint_freeWrites (h.start b hmem)
  obtain ⟨hnext, hsize⟩ := s.atlas.freeEntry_words b.start b.requested
  rw [u64_of_lt (get_lt _ _ _)] at hnext
  rw [u64_of_lt hnonempty.2] at hsize
  have hother : ∀ c ∈ s.freed, ∀ r ∈ [Region.mk b.start FreeEntry.size] ++ Atlas.freeWrites,
      (Region.mk c.start FreeEntry.size).Disjoint r := by
    intro c hc r hr
    rcases List.mem_append.1 hr with hr | hr
    · rw [List.mem_singleton.1 hr]
      exact h.entries_apart hlive hroom hc
    · exact disjoint_freeWrites (h.start c (List.mem_append_right _ hc)) r hr
  have hall := changesOnly_pushFree h hlive
  have hhead : (s.atlas.pushFree b.start b.requested).genesis Genesis.freeListOffset = b.start := by
    rw [Atlas.genesis, hmemEq, Atlas.freeGenesis_head, u64_of_lt hword]
  have hback : (s.atlas.pushFree b.start b.requested).nextFree b.start =
      s.atlas.genesis Genesis.freeListOffset := by
    rw [Atlas.nextFree, hmemEq]
    exact (hgenesis.get (by decide) hown).trans hnext
  have hnew : b.start ∉ s.freed.map Block.start := by
    intro hin
    obtain ⟨c, hc, heq⟩ := List.mem_map.1 hin
    have hd := h.entries_apart hlive hroom hc
    simp only [Region.Disjoint, FreeEntry.size] at hd
    omega
  refine ⟨?_, List.forall_mem_cons.2 ⟨?_, fun c hc => ?_⟩⟩
  · -- the entry leads to the list as it was
    refine ⟨⟨hhead, ?_⟩, List.nodup_cons.2 ⟨hnew, h.lists.threads.nodup⟩⟩
    rw [hback]
    refine h.lists.threads.chain.congr fun a ha => ?_
    obtain ⟨c, hc, rfl⟩ := List.mem_map.1 ha
    exact hall.get (by decide) (hother c hc)
  · rw [hmemEq]
    exact (hgenesis.get (by decide) hown).trans hsize
  · exact (hall.get (by decide) (hother c hc)).trans (h.lists.sizes c hc)

theorem valid_free (h : s.Valid) {off size : ℕ} (hlegal : s.Legal (.free off size))
    (hfits : s.Fits (.free off size)) : (step s (.free off size)).1.Valid := by
  obtain ⟨b, hb⟩ := Option.isSome_iff_exists.1 hlegal
  obtain ⟨hlive, rfl, rfl⟩ := mem_live_of_blockAt hb
  have hmem : b ∈ s.live ++ s.freed := List.mem_append_left _ hlive
  have hroom := h.entry_room hmem hfits
  have hstart := h.start b hmem
  simp only [headerSize, pageSize] at hstart
  have hstep : (step s (.free b.start b.requested)).1 =
      ⟨s.atlas.pushFree b.start b.requested, s.live.erase b, b :: s.freed⟩ := by
    simp only [step, (free_live h hlive).1, hb]
    rfl
  -- the same blocks, in another order
  have hperm : (s.live.erase b ++ b :: s.freed).Perm (s.live ++ s.freed) :=
    List.perm_middle.trans ((List.perm_cons_erase hlive).symm.append_right _)
  have hsame : ∀ c, c ∈ s.live.erase b ++ b :: s.freed → c ∈ s.live ++ s.freed :=
    fun c hc => hperm.mem_iff.1 hc
  have hnext : (s.atlas.pushFree b.start b.requested).next = s.atlas.next := by
    refine (changesOnly_pushFree h hlive).load fun r hr => ?_
    rcases List.mem_append.1 hr with hr | hr
    · rw [List.mem_singleton.1 hr]
      exact .inl ((by decide : 0 + 48 + 8 ≤ 4096 * 4).trans hstart)
    · exact Atlas.freeWrites_next r hr
  rw [hstep]
  exact ⟨h.init, h.header.trans_eq hnext.symm, fun c hc => h.start c (hsame c hc),
    fun c hc => (h.stop c (hsame c hc)).trans_eq hnext.symm,
    fun c hc => h.inside c (hsame c hc), fun c hc => h.nonempty c (hsame c hc),
    fun c hc => h.reserved c (hsame c hc),
    fun c hc => h.large c (hsame c hc),
    (hperm.pairwise_iff fun h => h.symm).2 h.pairwise,
    List.forall_mem_cons.2 ⟨hroom, h.room⟩, listsFreed_pushFree h hlive hroom⟩

theorem valid_step (h : s.Valid) {op : FreeOp} (hlegal : s.Legal op) (hfits : s.Fits op) :
    (step s op).1.Valid := by
  cases op with
  | alloc size => exact valid_alloc h hfits
  | free off size => exact valid_free h hlegal hfits

/-- Where the run frees each block once, no sum wraps and every block that is freed has room for
the entry, `free` stays inside the block and Genesis, and the list holds the freed blocks. -/
theorem frees_own {mmap : ℕ → Bool} {mem : Memory} {request : ℕ} {σ : Atlas}
    (hnew : atlasInit mmap mem none request = some σ) (ops : List FreeOp)
    (hlegal : Guarded step Legal ⟨σ, [], []⟩ ops) (hfits : Guarded step Fits ⟨σ, [], []⟩ ops) :
    (∀ c ∈ calls step ⟨σ, [], []⟩ ops, FreesOwn c) ∧
      (run step ⟨σ, [], []⟩ ops).ListsFreed := by
  obtain ⟨size, -, rfl⟩ := atlasInit_new hnew
  have hok := guarded_and.2 ⟨hlegal, hfits⟩
  have hvalid := valid_format size mem
  exact ⟨guarded_calls (I := Valid) (P := FreesOwn) (fun _ _ hs ho => valid_step hs ho.1 ho.2)
      (fun _ _ hs ho => freesOwn hs ho.2) hvalid hok,
    (guarded_invariant (I := Valid) (fun _ _ hs ho => valid_step hs ho.1 ho.2) hvalid hok).lists⟩

/-- Two blocks of 24 bytes and more are freed, and one of 8 bytes stays. -/
def freeTwo : List FreeOp :=
  [.alloc 24, .alloc 8, .alloc 100, .free 16384 24, .free 16416 100]

theorem frees_own_256k : Guarded step Legal ⟨smallAtlas, [], []⟩ freeTwo ∧
    (run step ⟨smallAtlas, [], []⟩ freeTwo).ListsFreed := by
  have hlegal : Guarded step Legal ⟨smallAtlas, [], []⟩ freeTwo := by decide
  exact ⟨hlegal, (frees_own atlasInit_smallAtlas freeTwo hlegal (by decide)).2⟩

/-- Two blocks of 8 bytes are allocated and the first one is freed : the entry runs into the
second one. -/
theorem not_freesOwn_eight :
    Guarded step Legal ⟨smallAtlas, [], []⟩ [.alloc 8, .alloc 8, .free 16384 8] ∧
      ¬∀ c ∈ calls step ⟨smallAtlas, [], []⟩ [.alloc 8, .alloc 8, .free 16384 8], FreesOwn c := by
  refine ⟨by decide, fun h => ?_⟩
  have hfree := h _ (List.mem_cons_of_mem _ (List.mem_cons_of_mem _ List.mem_cons_self))
  have hkeep := hfree ⟨16384, 8, 8⟩ (by decide) 16392 (by decide)
  revert hkeep
  decide

end BlockState

end Seraph
