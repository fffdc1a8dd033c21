import Seraph.AtlasSnapshot

/-!
# The snapshot calls, case by case

Each call of a snapshot has one lemma that lists what it can do, with the state it leaves
and the bytes it may change : `snapshotBegin_cases`, `snapshotInclude_cases`,
`snapshotActivate_cases`, `snapshotCommit_cases`, `snapshotCowPage_cases` and
`snapshotRestore_cases`. `Copies` says when `cowPage` copies a page, and `restoredPages`
lists the pages that the restore loop writes.
-/

namespace Seraph

open ByteMem Memory Runs

namespace Atlas

variable (σ : Atlas)

/-- The struct of the snapshot at `s`. -/
def snapRegion (s : ℕ) : Region :=
  ⟨s, Snapshot.size⟩

/-- The COW storage of the snapshot at `s`. -/
def storageOf (s : ℕ) : Region :=
  ⟨σ.mem.get s Snapshot.cowStorageOffset, σ.mem.get s Snapshot.cowStorageSize⟩

/-- Number of copies of the snapshot at `s`. -/
def cowCount (s : ℕ) : ℕ :=
  σ.mem.get s Snapshot.cowPageCount

/-- The page that entry `i` of the snapshot at `s` is a copy of. -/
def cowPageAt (s i : ℕ) : ℕ :=
  σ.mem.get (cowEntry s i) CowPage.pageOffset

/-- The size of the region and the snapshots of the slots are those of `σ`. -/
structure Keeps (τ : Atlas) : Prop where
  size : τ.size = σ.size
  init : τ.initialized = σ.initialized
  snapshots : ∀ k s, σ.snapshots k = some s → τ.snapshots k = some s

/-- The region and all the slots are those of `σ`. -/
structure SameSlots (τ : Atlas) : Prop where
  size : τ.size = σ.size
  init : τ.initialized = σ.initialized
  snapshots : τ.snapshots = σ.snapshots

theorem SameSlots.refl : SameSlots σ σ :=
  ⟨rfl, rfl, rfl⟩

variable {σ} in
theorem SameSlots.trans {τ υ : Atlas} (h : SameSlots σ τ) (h' : SameSlots τ υ) : SameSlots σ υ :=
  ⟨h'.size.trans h.size, h'.init.trans h.init, h'.snapshots.trans h.snapshots⟩

variable {σ} in
theorem SameSlots.keeps {τ : Atlas} (h : SameSlots σ τ) : Keeps σ τ :=
  ⟨h.size, h.init, fun k _ hk => (congrFun h.snapshots k).trans hk⟩

theorem Keeps.refl : Keeps σ σ :=
  (SameSlots.refl σ).keeps

variable {σ} in
theorem Keeps.trans {τ υ : Atlas} (h : Keeps σ τ) (h' : Keeps τ υ) : Keeps σ υ :=
  ⟨h'.size.trans h.size, h'.init.trans h.init, fun k s hk => h'.snapshots k s (h.snapshots k s hk)⟩

@[simp] theorem tickVclock_mem : σ.tickVclock.mem = σ.mem := by
  unfold tickVclock
  split <;> rfl

theorem sameSlots_tickVclock : SameSlots σ σ.tickVclock := by
  unfold tickVclock
  split <;> exact ⟨rfl, rfl, rfl⟩

theorem sameSlots_mem (m : Memory) : SameSlots σ { σ with mem := m } :=
  ⟨rfl, rfl, rfl⟩

/-! ## Begin -/

/-- The vector clock occupies bytes 56 to 576 of the struct. -/
theorem changesOnly_captureVclock (m : Memory) (s : ℕ) (vclock : Option VectorClock) :
    ChangesOnly [⟨s + 56, 520⟩] m (σ.snapshotCaptureVclock m s vclock) := by
  have hcapture : ∀ (count self : ℕ) (is : List (Fin vclockMaxNodes))
      (value : Fin vclockMaxNodes → ℕ), ChangesOnly [⟨s + 56, 520⟩] m (m.assign s
        ((Snapshot.vclockNodeCount, count) :: (Snapshot.vclockSelfId, self) ::
          is.map fun i => (Snapshot.vclock i.val, value i))) := by
    intro count self is value
    refine changesOnly_assign_within s 56 520 _ m ?_
    simp only [List.forall_mem_cons, List.forall_mem_map]
    refine ⟨by decide, by decide, fun i _ => ?_⟩
    have hi : i.val < 64 := i.isLt
    simp only [Snapshot.vclock]
    omega
  unfold snapshotCaptureVclock
  split <;> exact hcapture _ _ _ _

theorem changesOnly_snapshotInit (s : ℕ) (vclock : Option VectorClock) :
    ChangesOnly [snapRegion s] σ.mem (σ.snapshotInit s vclock) := by
  have hcapture : ∀ m, ChangesOnly [snapRegion s] m (σ.snapshotCaptureVclock m s vclock) := by
    refine fun m => (σ.changesOnly_captureVclock m s vclock).mono fun r hr => ?_
    rw [List.mem_singleton.1 hr]
    refine ⟨_, List.mem_singleton_self _, ?_⟩
    simp only [Region.Within, snapRegion, Snapshot.size]
    omega
  have hcopy : ∀ m : Memory, ChangesOnly [snapRegion s] m
      (m.copy (s + Snapshot.genesisCopy) 0 Genesis.size) := by
    refine fun m => (changesOnly_copy m _ _ _).mono fun r hr => ?_
    rw [List.mem_singleton.1 hr]
    refine ⟨_, List.mem_singleton_self _, ?_⟩
    simp only [Region.Within, snapRegion, Snapshot.size, Snapshot.genesisCopy, Genesis.size]
    omega
  have hassign : ∀ (fs : List (StructField × ℕ)) (m : Memory),
      (∀ p ∈ fs, p.1.Inside Snapshot.size) → ChangesOnly [snapRegion s] m (m.assign s fs) :=
    fun fs m h => changesOnly_assign s fs m h
  have hset : ∀ (f : StructField) (v : ℕ) (m : Memory), f.Inside Snapshot.size →
      ChangesOnly [snapRegion s] m (m.set s f v) :=
    fun f v m h => changesOnly_set m s h v
  unfold snapshotInit
  refine (hassign _ _ ?_).comp ((hset _ _ _ (by decide)).comp ((hset _ _ _ (by decide)).comp
    ((hcapture _).comp ((hassign _ _ ?_).comp ((hcopy _).comp (hassign _ _ ?_))))))
  all_goals
    simp only [List.forall_mem_cons]
    decide

/-- Capturing the vector clock leaves the fields before it and after it alone. -/
theorem captureVclock_get (m : Memory) (s : ℕ) (vclock : Option VectorClock) {f : StructField}
    (hf : f.Apart ⟨56, 520⟩) : (σ.snapshotCaptureVclock m s vclock).get s f = m.get s f := by
  refine (σ.changesOnly_captureVclock m s vclock).load fun r hr => ?_
  rw [List.mem_singleton.1 hr]
  simp only [StructField.Apart, Region.Disjoint] at hf ⊢
  omega

/-- Copying Genesis into the struct leaves the fields before the copy alone. -/
theorem copyGenesis_get (m : Memory) (s : ℕ) {f : StructField}
    (hf : f.Inside Snapshot.genesisCopy) :
    (m.copy (s + Snapshot.genesisCopy) 0 Genesis.size).get s f = m.get s f := by
  refine load_copy_of_disjoint m (Or.inl ?_)
  unfold StructField.Inside at hf
  omega

theorem snapshotInit_state (s : ℕ) (vclock : Option VectorClock) :
    (σ.snapshotInit s vclock).get s Snapshot.state = SnapState.preparing.code := by
  unfold snapshotInit
  simp (disch := decide) only [assign, get_set_same, get_set_apart, captureVclock_get,
    copyGenesis_get]
  rfl

theorem snapshotInit_magic (s : ℕ) (vclock : Option VectorClock) :
    (σ.snapshotInit s vclock).get s Snapshot.magic = Snapshot.magicValue := by
  unfold snapshotInit
  simp (disch := decide) only [assign, get_set_same, get_set_apart, captureVclock_get,
    copyGenesis_get]
  rfl

theorem snapshotInit_cowStorage (s : ℕ) (vclock : Option VectorClock) :
    (σ.snapshotInit s vclock).get s Snapshot.cowStorageOffset = 0 ∧
      (σ.snapshotInit s vclock).get s Snapshot.cowStorageSize = 0 := by
  unfold snapshotInit
  simp (disch := decide) only [assign, get_set_same, get_set_apart, copyGenesis_get]
  exact ⟨rfl, rfl⟩

theorem snapshotInit_cowPageCount (s : ℕ) (vclock : Option VectorClock) :
    (σ.snapshotInit s vclock).get s Snapshot.cowPageCount = 0 := by
  unfold snapshotInit
  simp (disch := decide) only [assign, get_set_same, get_set_apart, copyGenesis_get]
  rfl

variable {σ}

/-- The slot of a new snapshot : none is free, an empty slot gets a new struct at the bump
pointer, or a void or failed snapshot is cleared. -/
theorem snapshotSlot_cases (hinit : σ.initialized = true) : ∀ is : List (Fin maxSnapshots),
    σ.snapshotSlot is = (σ, none) ∨
      (∃ i m τ, σ.snapshots i = none ∧ u64 (σ.next + Snapshot.size) ≤ σ.size ∧
        σ.snapshotSlot is = (τ, some σ.next) ∧ Keeps σ τ ∧
        τ.snapshots = Function.update σ.snapshots i (some σ.next) ∧
        τ.mem = m.fill σ.next Snapshot.size 0 ∧
        m.get 0 Genesis.nextAllocOffset = u64 (σ.next + Snapshot.size) ∧
        ChangesOnly bumpWrites σ.mem m) ∨
      ∃ i s τ, σ.snapshots i = some s ∧
        (σ.snapState s = SnapState.void.code ∨ σ.snapState s = SnapState.failed.code) ∧
        σ.snapshotSlot is = (τ, some s) ∧ Keeps σ τ ∧ τ.snapshots = σ.snapshots ∧
        τ.mem = σ.mem.fill s Snapshot.size 0
  | [] => Or.inl rfl
  | i :: is => by
    cases hi : σ.snapshots i with
    | none =>
      have hround : alignUp Snapshot.size 8 = Snapshot.size := by decide
      rcases calloc_cases hinit Snapshot.size with ⟨-, hc⟩ | ⟨m, -, hfit, hc, hm, hw⟩
      · exact Or.inl (by simp only [snapshotSlot, hi, hc])
      · rw [hround] at hfit hm
        refine Or.inr (Or.inl ⟨i, m, { σ with
          mem := m.fill σ.next Snapshot.size 0
          snapshots := Function.update σ.snapshots i (some σ.next) }, hi, hfit,
          by simp only [snapshotSlot, hi, hc], ⟨rfl, rfl, fun k s hk => ?_⟩, by dsimp only,
          by dsimp only, hm, hw⟩)
        have hne : k ≠ i := fun hki => by
          rw [hki, hi] at hk
          cases hk
        exact (Function.update_of_ne hne _ _).trans hk
    | some s =>
      by_cases hfree : σ.snapState s = SnapState.void.code ∨
          σ.snapState s = SnapState.failed.code
      · exact Or.inr (Or.inr ⟨i, s, { σ with mem := σ.mem.fill s Snapshot.size 0 }, hi, hfree,
          by simp only [snapshotSlot, hi, if_pos hfree], ⟨rfl, rfl, fun _ _ hk => hk⟩,
          by dsimp only, by dsimp only⟩)
      · have hskip : σ.snapshotSlot (i :: is) = σ.snapshotSlot is := by
          simp only [snapshotSlot, hi, if_neg hfree]
        rw [hskip]
        exact snapshotSlot_cases hinit is

/-- `τ` is `σ` after beginning a snapshot at `s` : it is being prepared and has no copies,
and its struct is a new block at the bump pointer or that of a void or failed snapshot. -/
structure Begun (σ τ : Atlas) (s : ℕ) : Prop where
  keeps : Keeps σ τ
  writes : ChangesOnly (bumpWrites ++ [snapRegion s]) σ.mem τ.mem
  magic : τ.mem.get s Snapshot.magic = Snapshot.magicValue
  state : τ.snapState s = SnapState.preparing.code
  noCopies : τ.mem.get s Snapshot.cowPageCount = 0
  noStorage : τ.storageOf s = ⟨0, 0⟩
  slot : ∃ i, τ.snapshots = Function.update σ.snapshots i (some s)
  place : (s = σ.next ∧ u64 (σ.next + Snapshot.size) ≤ σ.size ∧
      (Genesis.size ≤ s → τ.next = u64 (σ.next + Snapshot.size))) ∨
    ((∃ i, σ.snapshots i = some s) ∧
      (σ.snapState s = SnapState.void.code ∨ σ.snapState s = SnapState.failed.code) ∧
      ChangesOnly [snapRegion s] σ.mem τ.mem)

@[simp] theorem startSnapshot_mem (σ : Atlas) (s : ℕ) (vclock : Option VectorClock) :
    (σ.startSnapshot s vclock).mem = σ.snapshotInit s vclock :=
  tickVclock_mem _

theorem sameSlots_startSnapshot (σ : Atlas) (s : ℕ) (vclock : Option VectorClock) :
    SameSlots σ (σ.startSnapshot s vclock) := by
  refine SameSlots.trans (τ := { σ with
    mem := σ.snapshotInit s vclock
    nextSnapshotId := u64 (σ.nextSnapshotId + 1) }) ⟨rfl, rfl, rfl⟩ ?_
  exact sameSlots_tickVclock _

theorem startSnapshot_state (σ : Atlas) (s : ℕ) (vclock : Option VectorClock) :
    (σ.startSnapshot s vclock).snapState s = SnapState.preparing.code := by
  rw [snapState, startSnapshot_mem, snapshotInit_state]

theorem startSnapshot_magic (σ : Atlas) (s : ℕ) (vclock : Option VectorClock) :
    (σ.startSnapshot s vclock).mem.get s Snapshot.magic = Snapshot.magicValue := by
  rw [startSnapshot_mem, snapshotInit_magic]

theorem startSnapshot_storage (σ : Atlas) (s : ℕ) (vclock : Option VectorClock) :
    (σ.startSnapshot s vclock).storageOf s = ⟨0, 0⟩ := by
  obtain ⟨hoffset, hsize⟩ := σ.snapshotInit_cowStorage s vclock
  rw [storageOf, startSnapshot_mem, hoffset, hsize]

theorem startSnapshot_cowPageCount (σ : Atlas) (s : ℕ) (vclock : Option VectorClock) :
    (σ.startSnapshot s vclock).mem.get s Snapshot.cowPageCount = 0 := by
  rw [startSnapshot_mem, snapshotInit_cowPageCount]

/-- Clearing the struct and filling it in writes the struct. -/
theorem changesOnly_startSnapshot {τ : Atlas} {m : Memory} {s : ℕ}
    (hτ : τ.mem = m.fill s Snapshot.size 0) (vclock : Option VectorClock) :
    ChangesOnly [snapRegion s] m (τ.startSnapshot s vclock).mem := by
  rw [startSnapshot_mem]
  have h := τ.changesOnly_snapshotInit s vclock
  rw [hτ] at h
  exact (changesOnly_fill m s Snapshot.size 0).comp h

theorem snapshotBegin_cases (hinit : σ.initialized = true) (vclock : Option VectorClock) :
    σ.snapshotBegin vclock = (σ, none) ∨
      ∃ τ s, σ.snapshotBegin vclock = (τ, some s) ∧ Begun σ τ s := by
  unfold snapshotBegin
  rw [if_neg (by simp [hinit])]
  rcases snapshotSlot_cases hinit (List.finRange maxSnapshots) with h |
      ⟨i, m, τ, hi, hfit, h, hkeeps, hslots, hmem, hm, hw⟩ |
      ⟨i, s, τ, hi, hfree, h, hkeeps, hslots, hmem⟩
  · exact Or.inl (by rw [h])
  · have hinside := changesOnly_startSnapshot hmem vclock
    refine Or.inr ⟨τ.startSnapshot σ.next vclock, σ.next, by rw [h],
      hkeeps.trans (sameSlots_startSnapshot _ _ _).keeps, hw.trans hinside,
      startSnapshot_magic _ _ _, startSnapshot_state _ _ _, startSnapshot_cowPageCount _ _ _,
      startSnapshot_storage _ _ _, ⟨i, ?_⟩, Or.inl ⟨rfl, hfit, fun hs => ?_⟩⟩
    · rw [← hslots]
      exact (sameSlots_startSnapshot _ _ _).snapshots
    · refine (hinside.get (n := Genesis.size) (f := Genesis.nextAllocOffset) (by decide)
        fun r hr => ?_).trans hm
      rw [List.mem_singleton.1 hr]
      exact Or.inl (by simpa [snapRegion] using hs)
  · have hinside := changesOnly_startSnapshot hmem vclock
    refine Or.inr ⟨τ.startSnapshot s vclock, s, by rw [h],
      hkeeps.trans (sameSlots_startSnapshot _ _ _).keeps,
      hinside.mono fun r hr => ⟨r, List.mem_append_right _ hr, le_refl _, le_refl _⟩,
      startSnapshot_magic _ _ _, startSnapshot_state _ _ _, startSnapshot_cowPageCount _ _ _,
      startSnapshot_storage _ _ _, ⟨i, ?_⟩, Or.inr ⟨⟨i, hi⟩, hfree, hinside⟩⟩
    rw [← hi, Function.update_eq_self, ← hslots]
    exact (sameSlots_startSnapshot _ _ _).snapshots

/-! ## Include, activate, commit -/

/-- Including pages fails, or counts them in a snapshot that is being prepared. -/
theorem snapshotInclude_cases (s : ℕ) (ptr : Ptr) (size : ℕ) :
    (σ.snapshotInclude (some s) ptr size).1 = σ ∨
      ∃ v, σ.snapState s = SnapState.preparing.code ∧
        (σ.snapshotInclude (some s) ptr size).1 =
          { σ with mem := σ.mem.set s Snapshot.includedPageCount v } := by
  unfold snapshotInclude
  dsimp only
  split_ifs with h1 h2 h3 h4
  · exact Or.inl rfl
  · exact Or.inl rfl
  · exact Or.inl rfl
  · exact Or.inl rfl
  · exact Or.inr ⟨_, not_not.1 h2, rfl⟩

theorem snapshotIncludeAll_cases (s : ℕ) :
    (σ.snapshotIncludeAll (some s)).1 = σ ∨
      ∃ v, σ.snapState s = SnapState.preparing.code ∧
        (σ.snapshotIncludeAll (some s)).1 =
          { σ with
            mem := σ.mem.assign s
              [(Snapshot.includedPageCount, v), (Snapshot.includedPages, voidU64)] } := by
  unfold snapshotIncludeAll
  dsimp only
  split_ifs with h1 h2
  · exact Or.inl rfl
  · exact Or.inl rfl
  · exact Or.inr ⟨_, not_not.1 h2, rfl⟩

/-- Activating fails, or makes a snapshot that is being prepared active, with a block of COW
storage at the page above the bump pointer or, if that does not fit, with none. -/
theorem snapshotActivate_cases (hinit : σ.initialized = true) (s : ℕ) :
    (∃ b, σ.snapshotActivate (some s) = (σ, b) ∧ b ≠ .true) ∨
      (σ.snapState s = SnapState.preparing.code ∧
        ∃ size, σ.snapshotActivate (some s) = (σ.startCow s size none, .true)) ∨
      ∃ m size, σ.snapState s = SnapState.preparing.code ∧
        size = σ.mem.get s Snapshot.includedPageCount * pageSize ∧ size ≠ 0 ∧
        u64 (alignUp σ.next 4096 + size) ≤ σ.size ∧
        σ.snapshotActivate (some s) =
          (Atlas.startCow { σ with mem := m } s size (some (alignUp σ.next 4096)), .true) ∧
        m.get 0 Genesis.nextAllocOffset = u64 (alignUp σ.next 4096 + size) ∧
        ChangesOnly bumpWrites σ.mem m := by
  unfold snapshotActivate
  dsimp only
  rw [if_neg (by simp [hinit])]
  by_cases hstate : σ.snapState s = SnapState.preparing.code
  swap
  · rw [if_pos hstate]
    split_ifs
    · exact Or.inl ⟨_, rfl, by decide⟩
    · exact Or.inl ⟨_, rfl, by decide⟩
  rw [if_neg (not_not.2 hstate)]
  split_ifs with hzero
  · exact Or.inl ⟨_, rfl, by decide⟩
  have hround : alignUp (σ.mem.get s Snapshot.includedPageCount * pageSize) 4096 =
      σ.mem.get s Snapshot.includedPageCount * pageSize := by
    have hlt := get_lt σ.mem s Snapshot.includedPageCount
    generalize σ.mem.get s Snapshot.includedPageCount = n at hlt ⊢
    simp only [Snapshot.includedPageCount] at hlt
    rw [alignUp_page]
    unfold pageSize
    omega
  rcases allocPages_cases hinit (σ.mem.get s Snapshot.includedPageCount * pageSize) with
    ⟨-, ha⟩ | ⟨m, -, hfit, ha, hm, hw⟩
  · exact Or.inr (Or.inl ⟨hstate, _, by rw [ha]⟩)
  · rw [hround] at hfit hm
    have hsize : σ.mem.get s Snapshot.includedPageCount * pageSize ≠ 0 :=
      Nat.mul_ne_zero hzero (by decide)
    exact Or.inr (Or.inr ⟨m, _, hstate, rfl, hsize, hfit, by rw [ha], hm, hw⟩)

/-- Committing fails, or makes a snapshot committed that is active or being prepared. -/
theorem snapshotCommit_cases (s : ℕ) :
    (σ.snapshotCommit (some s)).1 = σ ∨
      (σ.snapState s = SnapState.active.code ∨ σ.snapState s = SnapState.preparing.code) ∧
        (σ.snapshotCommit (some s)).1 = tickVclock { σ with
          mem := σ.mem.assign s [(Snapshot.commitTime, σ.currentEpoch),
            (Snapshot.state, SnapState.committed.code)] } := by
  unfold snapshotCommit
  dsimp only
  split_ifs with h1 h2 h3
  · exact Or.inl rfl
  · exact Or.inl rfl
  · exact Or.inl rfl
  · refine Or.inr ⟨?_, rfl⟩
    rcases not_and_or.1 h3 with h | h
    · exact Or.inl (not_not.1 h)
    · exact Or.inr (not_not.1 h)

/-! ## Copy on write -/

variable (σ) in
/-- Offset of the page that a pointer lies in. -/
def pageOf (page : Ptr) : ℕ :=
  σ.ptrToOffset page / pageSize * pageSize

variable (σ) in
/-- Where the next copy of the snapshot at `s` goes. -/
def cowSlot (s : ℕ) : ℕ :=
  u64 (σ.mem.get s Snapshot.cowStorageOffset + σ.mem.get s Snapshot.cowPageCount * pageSize)

variable (σ) in
/-- `cowPage` has to copy the page : the snapshot is active and has no copy of it. -/
def MustCopy (s : ℕ) (page : Ptr) : Prop :=
  σ.snapState s = SnapState.active.code ∧ σ.ptrToOffset page ≠ voidU64 ∧
    snapshotFindCowPage σ.mem s (σ.pageOf page) = none

variable (σ) in
/-- `cowPage` has to copy the page and can : there is an entry and a slot for it. -/
def Copies (s : ℕ) (page : Ptr) : Prop :=
  σ.MustCopy s page ∧ σ.mem.get s Snapshot.cowPageCount < snapshotMaxPages ∧
    σ.mem.get s Snapshot.cowStorageOffset ≠ 0 ∧
    σ.offsetToPtr (σ.cowSlot s) = some (σ.cowSlot s) ∧
    σ.offsetToPtr (σ.pageOf page) = some (σ.pageOf page)

instance (s : ℕ) (page : Ptr) : Decidable (σ.MustCopy s page) :=
  inferInstanceAs (Decidable (_ ∧ _ ∧ _))

instance (s : ℕ) (page : Ptr) : Decidable (σ.Copies s page) :=
  inferInstanceAs (Decidable (_ ∧ _ ∧ _ ∧ _ ∧ _))

/-- An entry that is found is valid and for the page. -/
theorem find_some {m : Memory} {s pageOffset i : ℕ}
    (h : snapshotFindCowPage m s pageOffset = some i) :
    i < m.get s Snapshot.cowPageCount ∧
      m.get (cowEntry s i) CowPage.flags &&& CowPage.valid ≠ 0 ∧
      m.get (cowEntry s i) CowPage.pageOffset = pageOffset := by
  have hmem := List.mem_of_find?_eq_some h
  have hentry := List.find?_some h
  simp only [decide_eq_true_eq] at hentry
  exact ⟨List.mem_range.1 hmem, hentry⟩

/-- A page without an entry is the page of no valid entry. -/
theorem find_none {m : Memory} {s pageOffset : ℕ} :
    snapshotFindCowPage m s pageOffset = none ↔ ∀ i < m.get s Snapshot.cowPageCount,
      m.get (cowEntry s i) CowPage.flags &&& CowPage.valid ≠ 0 →
      m.get (cowEntry s i) CowPage.pageOffset ≠ pageOffset := by
  simp [snapshotFindCowPage, List.find?_eq_none]

theorem offsetToPtr_cases (offset : ℕ) :
    σ.offsetToPtr offset = none ∨ σ.offsetToPtr offset = some offset := by
  unfold offsetToPtr
  split_ifs
  · exact Or.inl rfl
  · exact Or.inl rfl
  · exact Or.inr rfl

/-- `cowPage` does nothing, and returns FALSE only for a page that has a copy; or it has to
copy the page and cannot, and the snapshot fails; or it copies the page. -/
theorem snapshotCowPage_cases (hinit : σ.initialized = true) (s : ℕ) (page : Ptr) :
    (∃ b, ¬σ.MustCopy s page ∧ σ.snapshotCowPage (some s) page = (σ, b) ∧
      (b = .void ∨ b = .false ∧ (snapshotFindCowPage σ.mem s (σ.pageOf page)).isSome = true)) ∨
    (σ.MustCopy s page ∧ ¬σ.Copies s page ∧
      σ.snapshotCowPage (some s) page = (σ.failSnapshot s, .void)) ∨
    (σ.Copies s page ∧ σ.snapshotCowPage (some s) page = ({ σ with
      mem := σ.recordCow s (σ.pageOf page) (σ.cowSlot s) (σ.cowSlot s) (σ.pageOf page) },
      .true)) := by
  cases page with
  | none => exact Or.inl ⟨.void, fun h => h.2.1 rfl, rfl, Or.inl rfl⟩
  | some p =>
    have hpage : ∀ q, σ.ptrToOffset q / pageSize * pageSize = σ.pageOf q := fun _ => rfl
    have hslot : u64 (σ.mem.get s Snapshot.cowStorageOffset +
        σ.mem.get s Snapshot.cowPageCount * pageSize) = σ.cowSlot s := rfl
    simp only [snapshotCowPage, hinit, Bool.not_true, Bool.false_eq_true, if_false, hpage, hslot]
    by_cases hact : σ.snapState s = SnapState.active.code
    swap
    · exact Or.inl ⟨.void, fun h => hact h.1, by rw [if_pos hact], Or.inl rfl⟩
    by_cases hoff : σ.ptrToOffset (some p) = voidU64
    · exact Or.inl ⟨.void, fun h => h.2.1 hoff, by rw [if_neg (not_not.2 hact), if_pos hoff],
        Or.inl rfl⟩
    rw [if_neg (not_not.2 hact), if_neg hoff]
    by_cases hfind : (snapshotFindCowPage σ.mem s (σ.pageOf (some p))).isSome = true
    · refine Or.inl ⟨.false, fun h => ?_, by rw [if_pos hfind], Or.inr ⟨rfl, hfind⟩⟩
      rw [h.2.2] at hfind
      cases hfind
    have hmust : σ.MustCopy s (some p) := ⟨hact, hoff, by simpa using hfind⟩
    rw [if_neg hfind]
    by_cases hfull : snapshotMaxPages ≤ σ.mem.get s Snapshot.cowPageCount
    · exact Or.inr (Or.inl ⟨hmust, fun h => absurd h.2.1 (not_lt.2 hfull), by rw [if_pos hfull]⟩)
    rw [if_neg hfull]
    by_cases hzero : σ.mem.get s Snapshot.cowStorageOffset = 0
    · exact Or.inr (Or.inl ⟨hmust, fun h => h.2.2.1 hzero, by rw [if_pos hzero]⟩)
    rw [if_neg hzero]
    rcases σ.offsetToPtr_cases (σ.cowSlot s) with hdest | hdest
    · refine Or.inr (Or.inl ⟨hmust, fun h => ?_, by rw [hdest]⟩)
      rw [h.2.2.2.1] at hdest
      cases hdest
    rcases σ.offsetToPtr_cases (σ.pageOf (some p)) with hsrc | hsrc
    · refine Or.inr (Or.inl ⟨hmust, fun h => ?_, by rw [hdest, hsrc]⟩)
      rw [h.2.2.2.2] at hsrc
      cases hsrc
    · exact Or.inr (Or.inr ⟨⟨hmust, not_le.1 hfull, hzero, hdest, hsrc⟩, by rw [hdest, hsrc]⟩)

variable (σ) in
/-- The entry that records the copy of a page. -/
def cowIndex (s : ℕ) (page : Ptr) : ℕ :=
  (σ.mem.copy (σ.cowSlot s) (σ.pageOf page) pageSize).get s Snapshot.cowPageCount

/-- A copy off the struct leaves the count as it was. -/
theorem cowIndex_eq {s : ℕ} {page : Ptr}
    (hslot : (Region.mk (σ.cowSlot s) pageSize).Disjoint (snapRegion s)) :
    σ.cowIndex s page = σ.mem.get s Snapshot.cowPageCount := by
  refine (changesOnly_copy _ _ _ _).get (n := Snapshot.size) (by decide) fun r hr => ?_
  rw [List.mem_singleton.1 hr]
  exact hslot.symm

variable (σ) in
/-- What `cowPage` writes : the copy, its entry and the count, or the state of a snapshot
that fails. -/
def cowWrites (s : ℕ) (page : Ptr) : List Region :=
  if σ.Copies s page then
    [⟨σ.cowSlot s, pageSize⟩, ⟨cowEntry s (σ.cowIndex s page), CowPage.size⟩,
      ⟨s + Snapshot.cowPageCount.off, 4⟩]
  else if σ.MustCopy s page then [⟨s + Snapshot.state.off, 4⟩]
  else []

theorem changesOnly_writeCowEntry (m : Memory) (cow pageOffset cowOffset : ℕ) :
    ChangesOnly [⟨cow, CowPage.size⟩] m (σ.writeCowEntry m cow pageOffset cowOffset) := by
  have hfields : ∀ fs : List (StructField × ℕ), (∀ p ∈ fs, p.1.Inside CowPage.size) →
      ChangesOnly [⟨cow, CowPage.size⟩] m (m.assign cow fs) :=
    fun fs hfs => changesOnly_assign cow fs m hfs
  have hflags : ∀ (m : Memory) (v : ℕ),
      ChangesOnly [⟨cow, CowPage.size⟩] m (m.set cow CowPage.flags v) :=
    fun m v => changesOnly_set m cow (by decide) v
  unfold writeCowEntry
  dsimp only
  split
  · refine (hfields _ ?_).comp (hflags _ _)
    simp only [List.forall_mem_cons]
    decide
  · refine hfields _ ?_
    simp only [List.forall_mem_cons]
    decide

/-- The fields of a new entry. -/
theorem writeCowEntry_get (m : Memory) (cow pageOffset cowOffset : ℕ) :
    (σ.writeCowEntry m cow pageOffset cowOffset).get cow CowPage.pageOffset = u64 pageOffset ∧
      (σ.writeCowEntry m cow pageOffset cowOffset).get cow CowPage.copyOffset = u64 cowOffset ∧
      (σ.writeCowEntry m cow pageOffset cowOffset).get cow CowPage.pageCount = 1 ∧
      (σ.writeCowEntry m cow pageOffset cowOffset).get cow CowPage.flags &&& CowPage.valid ≠ 0 := by
  unfold writeCowEntry
  dsimp only
  split
  · simp (disch := decide) only [assign, get_set_same, get_set_apart]
    exact ⟨rfl, rfl, rfl, by decide⟩
  · simp (disch := decide) only [assign, get_set_same, get_set_apart]
    exact ⟨rfl, rfl, rfl, by decide⟩

theorem changesOnly_recordCow (s pageOffset cowOffset cowDest pageSrc : ℕ) :
    ChangesOnly [⟨cowDest, pageSize⟩,
      ⟨cowEntry s ((σ.mem.copy cowDest pageSrc pageSize).get s Snapshot.cowPageCount),
        CowPage.size⟩,
      ⟨s + Snapshot.cowPageCount.off, 4⟩] σ.mem
      (σ.recordCow s pageOffset cowOffset cowDest pageSrc) :=
  ((changesOnly_copy _ _ _ _).trans (changesOnly_writeCowEntry _ _ _ _)).trans
    (changesOnly_store _ _ _ _)

theorem changesOnly_cowPage (hinit : σ.initialized = true) (s : ℕ) (page : Ptr) :
    ChangesOnly (σ.cowWrites s page) σ.mem (σ.snapshotCowPage (some s) page).1.mem := by
  rcases snapshotCowPage_cases hinit s page with ⟨b, hno, h, -⟩ | ⟨hmust, hno, h⟩ | ⟨hcopy, h⟩
  · rw [h]
    exact ChangesOnly.refl _ _
  · rw [h, cowWrites, if_neg hno, if_pos hmust]
    exact changesOnly_store _ _ _ _
  · rw [h, cowWrites, if_pos hcopy]
    exact changesOnly_recordCow _ _ _ _ _

/-- The copy, its entry and the new count, where there is an entry left and the slot is off
the struct. -/
theorem recordCow_spec {s slot : ℕ} (page : ℕ)
    (hcount : σ.mem.get s Snapshot.cowPageCount < snapshotMaxPages)
    (hslot : (Region.mk slot pageSize).Disjoint (snapRegion s)) :
    (σ.recordCow s page slot slot page).get s Snapshot.cowPageCount =
        σ.mem.get s Snapshot.cowPageCount + 1 ∧
      (σ.recordCow s page slot slot page).get
          (cowEntry s (σ.mem.get s Snapshot.cowPageCount)) CowPage.pageOffset = u64 page ∧
      (σ.recordCow s page slot slot page).get
          (cowEntry s (σ.mem.get s Snapshot.cowPageCount)) CowPage.copyOffset = u64 slot ∧
      (σ.recordCow s page slot slot page).get
          (cowEntry s (σ.mem.get s Snapshot.cowPageCount)) CowPage.pageCount = 1 ∧
      (σ.recordCow s page slot slot page).get
          (cowEntry s (σ.mem.get s Snapshot.cowPageCount)) CowPage.flags &&& CowPage.valid ≠ 0 ∧
      SameBytes σ.mem page (σ.recordCow s page slot slot page) slot pageSize := by
  -- the copy is off the struct, so the count is read back unchanged
  have hindex : (σ.mem.copy slot page pageSize).get s Snapshot.cowPageCount =
      σ.mem.get s Snapshot.cowPageCount := by
    refine (changesOnly_copy _ _ _ _).get (n := Snapshot.size) (by decide) fun r hr => ?_
    rw [List.mem_singleton.1 hr]
    exact hslot.symm
  have hinside : cowEntry s (σ.mem.get s Snapshot.cowPageCount) + CowPage.size ≤
      s + Snapshot.cowPageCount.off := by
    simp only [cowEntry, Snapshot.cowPages, CowPage.size, Snapshot.cowPageCount,
      snapshotMaxPages] at hcount ⊢
    omega
  have hfrom : s ≤ cowEntry s (σ.mem.get s Snapshot.cowPageCount) := Nat.le_add_right _ _
  unfold recordCow
  dsimp only
  rw [hindex]
  have hentry := writeCowEntry_get (σ := σ) (σ.mem.copy slot page pageSize)
    (cowEntry s (σ.mem.get s Snapshot.cowPageCount)) page slot
  have hw := changesOnly_writeCowEntry (σ := σ) (σ.mem.copy slot page pageSize)
    (cowEntry s (σ.mem.get s Snapshot.cowPageCount)) page slot
  generalize cowEntry s (σ.mem.get s Snapshot.cowPageCount) = cow at hinside hfrom hentry hw ⊢
  generalize σ.writeCowEntry (σ.mem.copy slot page pageSize) cow page slot = m at hentry hw ⊢
  have hcopy : SameBytes σ.mem page (σ.mem.copy slot page pageSize) slot pageSize :=
    (SameBytes.refl σ.mem page pageSize).copy slot
  have hread : m.get s Snapshot.cowPageCount = σ.mem.get s Snapshot.cowPageCount := by
    refine (hw.load fun r hr => ?_).trans hindex
    rw [List.mem_singleton.1 hr]
    exact Or.inr hinside
  have hset := changesOnly_store m (s + Snapshot.cowPageCount.off) 4
    (m.get s Snapshot.cowPageCount + 1)
  have hkeep : ∀ f : StructField, f.Inside CowPage.size →
      (m.set s Snapshot.cowPageCount (m.get s Snapshot.cowPageCount + 1)).get cow f =
        m.get cow f := by
    refine fun f hf => hset.get hf fun r hr => ?_
    rw [List.mem_singleton.1 hr]
    exact Or.inl hinside
  have hfit : s + Snapshot.cowPageCount.off + 4 ≤ s + Snapshot.size :=
    Nat.add_le_add_left (n := 33364) (by decide) s
  refine ⟨?_, ?_, ?_, ?_, ?_, ?_⟩
  · rw [get_set_same, hread]
    unfold snapshotMaxPages at hcount
    simp only [Snapshot.cowPageCount] at hcount ⊢
    omega
  · rw [hkeep _ (by decide)]
    exact hentry.1
  · rw [hkeep _ (by decide)]
    exact hentry.2.1
  · rw [hkeep _ (by decide)]
    exact hentry.2.2.1
  · rw [hkeep _ (by decide)]
    exact hentry.2.2.2
  · refine (hcopy.frame hw fun r hr => ?_).frame hset fun r hr => ?_
    · rw [List.mem_singleton.1 hr]
      exact hslot.mono ⟨hfrom, hinside.trans (Nat.le_of_add_right_le hfit)⟩
    · rw [List.mem_singleton.1 hr]
      exact hslot.mono ⟨Nat.le_add_right _ _, hfit⟩

/-! ## Restore -/

variable (σ) in
/-- The page that entry `i` of the snapshot at `s` is copied back to. -/
def restoredPage (s i : ℕ) : List Region :=
  if σ.mem.get (cowEntry s i) CowPage.flags &&& CowPage.valid = 0 then []
  else
    match σ.offsetToPtr (σ.mem.get (cowEntry s i) CowPage.pageOffset),
        σ.offsetToPtr (σ.mem.get (cowEntry s i) CowPage.copyOffset) with
    | some originalPage, some _ =>
      [⟨originalPage, σ.mem.get (cowEntry s i) CowPage.pageCount * pageSize⟩]
    | _, _ => []

/-- The pages that the restore loop copies back, from entry `i` on. -/
def restoredPages (s : ℕ) : ℕ → ℕ → Atlas → List Region
  | 0, _, _ => []
  | rounds + 1, i, σ =>
    if i < σ.mem.get s Snapshot.cowPageCount then
      σ.restoredPage s i ++ restoredPages s rounds (i + 1) (σ.restorePage s i)
    else []

/-- Restoring an entry does nothing or copies its page back. -/
theorem restorePage_cases (s i : ℕ) :
    (σ.restorePage s i = σ ∧ σ.restoredPage s i = []) ∨
      ∃ page copy, page = σ.mem.get (cowEntry s i) CowPage.pageOffset ∧
        copy = σ.mem.get (cowEntry s i) CowPage.copyOffset ∧
        σ.mem.get (cowEntry s i) CowPage.flags &&& CowPage.valid ≠ 0 ∧
        σ.offsetToPtr page = some page ∧ σ.offsetToPtr copy = some copy ∧
        σ.restorePage s i = { σ with
          mem := σ.mem.copy page copy
            (σ.mem.get (cowEntry s i) CowPage.pageCount * pageSize) } ∧
        σ.restoredPage s i =
          [⟨page, σ.mem.get (cowEntry s i) CowPage.pageCount * pageSize⟩] := by
  unfold restorePage restoredPage
  dsimp only
  by_cases hvalid : σ.mem.get (cowEntry s i) CowPage.flags &&& CowPage.valid = 0
  · rw [if_pos hvalid, if_pos hvalid]
    exact Or.inl ⟨rfl, rfl⟩
  rw [if_neg hvalid, if_neg hvalid]
  rcases σ.offsetToPtr_cases (σ.mem.get (cowEntry s i) CowPage.pageOffset) with hp | hp
  · rw [hp]
    exact Or.inl ⟨rfl, rfl⟩
  rcases σ.offsetToPtr_cases (σ.mem.get (cowEntry s i) CowPage.copyOffset) with hc | hc
  · rw [hp, hc]
    exact Or.inl ⟨rfl, rfl⟩
  · refine Or.inr ⟨_, _, rfl, rfl, hvalid, hp, hc, ?_, ?_⟩
    · rw [hp, hc]
    · rw [hp, hc]

theorem sameSlots_restorePage (s i : ℕ) : SameSlots σ (σ.restorePage s i) := by
  rcases restorePage_cases (σ := σ) s i with ⟨h, -⟩ | ⟨page, copy, -, -, -, -, -, h, -⟩
  · rw [h]
    exact SameSlots.refl σ
  · rw [h]
    exact sameSlots_mem σ _

theorem changesOnly_restorePage (s i : ℕ) :
    ChangesOnly (σ.restoredPage s i) σ.mem (σ.restorePage s i).mem := by
  rcases restorePage_cases (σ := σ) s i with ⟨h, hr⟩ | ⟨page, copy, -, -, -, -, -, h, hr⟩
  · rw [h]
    exact ChangesOnly.refl _ _
  · rw [h, hr]
    exact changesOnly_copy _ _ _ _

theorem sameSlots_restorePages (s : ℕ) : ∀ (rounds i : ℕ) (σ : Atlas),
    SameSlots σ (restorePages s rounds i σ)
  | 0, _, σ => SameSlots.refl σ
  | rounds + 1, i, σ => by
    rw [restorePages]
    split
    · exact (sameSlots_restorePage s i).trans (sameSlots_restorePages s rounds (i + 1) _)
    · exact SameSlots.refl σ

theorem changesOnly_restorePages (s : ℕ) : ∀ (rounds i : ℕ) (σ : Atlas),
    ChangesOnly (restoredPages s rounds i σ) σ.mem (restorePages s rounds i σ).mem
  | 0, _, _ => ChangesOnly.refl _ _
  | rounds + 1, i, σ => by
    rw [restorePages, restoredPages]
    split
    · exact (changesOnly_restorePage s i).trans (changesOnly_restorePages s rounds (i + 1) _)
    · exact ChangesOnly.refl _ _

theorem sameSlots_abort (τ : Atlas) (i : Fin maxTransactions) : SameSlots τ (τ.abort (some i)) := by
  rcases τ.abort_cases i with ⟨-, h⟩ | ⟨-, h⟩
  · rw [h]
    exact SameSlots.refl τ
  · rw [h]
    exact ⟨rfl, rfl, rfl⟩

/-- Aborting every transaction counts the aborts in Genesis. -/
theorem abortAll_spec (σ : Atlas) : SameSlots σ σ.abortAll ∧
    ChangesOnly [⟨104, 8⟩] σ.mem σ.abortAll.mem := by
  unfold abortAll
  generalize List.finRange maxTransactions = is
  induction is generalizing σ with
  | nil => exact ⟨SameSlots.refl σ, ChangesOnly.refl _ _⟩
  | cons i is ih =>
    obtain ⟨hsame, hw⟩ := ih (σ.abort (some i))
    exact ⟨(sameSlots_abort σ i).trans hsame, (changesOnly_abort σ (some i)).comp hw⟩

theorem changesOnly_restoreGenesis (σ : Atlas) (s : ℕ) :
    ChangesOnly [⟨0, Genesis.size⟩] σ.mem (σ.restoreGenesis s) := by
  refine (changesOnly_copy _ _ _ _).comp (changesOnly_assign 0 _ _ ?_)
  simp only [List.forall_mem_cons]
  decide

@[simp] theorem genesisRestored_mem (σ : Atlas) (s : ℕ) :
    (σ.genesisRestored s).mem = σ.restoreGenesis s := by
  simp only [genesisRestored, tickVclock_mem]

theorem sameSlots_genesisRestored (σ : Atlas) (s : ℕ) : SameSlots σ (σ.genesisRestored s) := by
  unfold genesisRestored
  have h := (sameSlots_mem σ (σ.restoreGenesis s)).trans (SameSlots.trans (τ := { σ with
    mem := σ.restoreGenesis s
    currentVclock := Atlas.mergeVclock { σ with mem := σ.restoreGenesis s } s }) ⟨rfl, rfl, rfl⟩
    (sameSlots_tickVclock _))
  exact ⟨h.size, h.init, h.snapshots⟩

theorem sameSlots_pagesRestored (σ : Atlas) (s : ℕ) : SameSlots σ (σ.pagesRestored s) := by
  unfold pagesRestored
  exact (abortAll_spec σ).1.trans (sameSlots_restorePages s _ 0 σ.abortAll)

theorem changesOnly_pagesRestored (σ : Atlas) (s : ℕ) :
    ChangesOnly ([⟨104, 8⟩] ++ restoredPages s (2 ^ 32) 0 σ.abortAll) σ.mem
      (σ.pagesRestored s).mem :=
  (abortAll_spec σ).2.trans (changesOnly_restorePages s (2 ^ 32) 0 σ.abortAll)

/-- Restoring fails, or copies the pages of a committed snapshot back and then Genesis. -/
theorem snapshotRestore_cases (hinit : σ.initialized = true) (s : ℕ) :
    (∃ b, σ.snapshotRestore (some s) = (σ, b) ∧ b ≠ .true) ∨
      (σ.snapState s = SnapState.committed.code ∧
        σ.mem.get s Snapshot.magic = Snapshot.magicValue ∧
        σ.snapshotRestore (some s) = ((σ.pagesRestored s).genesisRestored s, .true)) := by
  unfold snapshotRestore
  dsimp only
  rw [if_neg (by simp [hinit])]
  split_ifs with h1 h2
  · exact Or.inl ⟨_, rfl, by decide⟩
  · exact Or.inl ⟨_, rfl, by decide⟩
  · exact Or.inr ⟨not_not.1 h1, not_not.1 h2, rfl⟩

/-- What a restore writes : Genesis and the pages it copies back. -/
def restoreWrites (σ : Atlas) (s : ℕ) : List Region :=
  if σ.snapState s = SnapState.committed.code ∧
      σ.mem.get s Snapshot.magic = Snapshot.magicValue then
    ⟨0, Genesis.size⟩ :: restoredPages s (2 ^ 32) 0 σ.abortAll
  else []

theorem changesOnly_restore (hinit : σ.initialized = true) (s : ℕ) :
    ChangesOnly (σ.restoreWrites s) σ.mem (σ.snapshotRestore (some s)).1.mem := by
  rcases snapshotRestore_cases hinit s with ⟨b, h, -⟩ | ⟨hstate, hmagic, h⟩
  · rw [h]
    exact ChangesOnly.refl _ _
  · rw [h, restoreWrites, if_pos ⟨hstate, hmagic⟩, genesisRestored_mem]
    refine ((changesOnly_pagesRestored σ s).trans
      (changesOnly_restoreGenesis (σ.pagesRestored s) s)).mono fun r hr => ?_
    rcases List.mem_append.1 hr with hr | hr
    · rcases List.mem_append.1 hr with hr | hr
      · rw [List.mem_singleton.1 hr]
        exact ⟨_, List.mem_cons_self, by decide⟩
      · exact ⟨r, List.mem_cons_of_mem _ hr, le_refl _, le_refl _⟩
    · rw [List.mem_singleton.1 hr]
      exact ⟨_, List.mem_cons_self, le_refl _, le_refl _⟩

end Atlas

end Seraph
