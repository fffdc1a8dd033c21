import Seraph.AtlasSnapshotSteps

/-!
# What each operation writes

`Op.writes σ op` lists the regions that `op` writes in the state `σ`, and every other byte
keeps its value (`Op.changesOnly`). A snapshot call writes fields of its snapshot; `begin`
and `activate` also move the bump pointer, `cowPage` writes the next slot of COW storage,
and `restore` writes Genesis and the pages it copies back. The size of the region and the
snapshots that the slots point at never change (`Op.keeps`).
-/

namespace Seraph

open ByteMem Memory Runs

open Atlas

/-! ## Writes -/

/-- What an allocator call writes. -/
def AllocOp.writes (σ : Atlas) : AllocOp → List Region
  | alloc size => if (σ.alloc size).2 = none then [] else bumpWrites
  | calloc size =>
    match (σ.calloc size).2 with
    | none => []
    | some block => bumpWrites ++ [⟨block, size⟩]
  | allocPages size => if (σ.allocPages size).2 = none then [] else bumpWrites
  | allocGeneration =>
    if σ.getGenTable = none ∨ genTableSize ≤ σ.entryCount then []
    else entryWrites σ.tableOffset σ.entryCount
  | revoke id =>
    if σ.getGenTable = none ∨ σ.entryCount ≤ id then []
    else [⟨σ.tableOffset + (GenTable.generations id).off, 8⟩]

/-- What a transaction call or a client writes. -/
def WorkOp.writes : WorkOp → List Region
  | call .begin => []
  | call _ => txWrites
  | markDirty _ _ _ => []
  | setRoot _ => rootWrites
  | write off bytes => [⟨off, bytes.length⟩]

/-- What a snapshot call writes. -/
def SnapOp.writes (σ : Atlas) : SnapOp → List Region
  | begin vclock =>
    match (σ.snapshotBegin vclock).2 with
    | none => []
    | some s => bumpWrites ++ [snapRegion s]
  | includePages k _ _ =>
    match σ.snapshots k with
    | none => []
    | some s =>
      if σ.snapState s = SnapState.preparing.code then [⟨s + Snapshot.includedPageCount.off, 4⟩]
      else []
  | includeAll k =>
    match σ.snapshots k with
    | none => []
    | some s =>
      if σ.snapState s = SnapState.preparing.code then [⟨s + Snapshot.includedPages.off, 16⟩]
      else []
  | activate k =>
    match σ.snapshots k with
    | none => []
    | some s =>
      if σ.snapState s = SnapState.preparing.code then
        bumpWrites ++ [⟨s + Snapshot.state.off, 4⟩, ⟨s + Snapshot.cowStorageOffset.off, 16⟩]
      else []
  | commit k =>
    match σ.snapshots k with
    | none => []
    | some s =>
      if σ.snapState s = SnapState.active.code ∨ σ.snapState s = SnapState.preparing.code then
        [⟨s + Snapshot.state.off, 4⟩, ⟨s + Snapshot.commitTime.off, 8⟩]
      else []
  | restore k =>
    match σ.snapshots k with
    | none => []
    | some s => σ.restoreWrites s
  | cowPage k page =>
    match σ.snapshots k with
    | none => []
    | some s => σ.cowWrites s page

/-- What an operation writes. -/
def Op.writes (σ : Atlas) : Op → List Region
  | alloc op => op.writes σ
  | work op => op.writes
  | snap op => op.writes σ

variable {σ : Atlas}

/-- An operation of the allocator changes the bytes that it writes only. -/
theorem AllocOp.changesOnly (hinit : σ.initialized = true) (op : AllocOp) :
    ChangesOnly (op.writes σ) σ.mem (AllocOp.step σ op).1.mem := by
  cases op with
  | alloc size =>
    rcases alloc_cases hinit size with ⟨-, h⟩ | ⟨m, -, -, h, -, hw⟩
    · simp only [AllocOp.step, h]
      exact ChangesOnly.refl _ _
    · simpa [AllocOp.step, AllocOp.writes, h] using hw
  | calloc size =>
    rcases calloc_cases hinit size with ⟨-, h⟩ | ⟨m, -, -, h, -, hw⟩
    · simp only [AllocOp.step, h]
      exact ChangesOnly.refl _ _
    · simp only [AllocOp.step, AllocOp.writes, h]
      exact hw.trans (changesOnly_fill _ _ _ _)
  | allocPages size =>
    rcases allocPages_cases hinit size with ⟨-, h⟩ | ⟨m, -, -, h, -, hw⟩
    · simp only [AllocOp.step, h]
      exact ChangesOnly.refl _ _
    · simpa [AllocOp.step, AllocOp.writes, h] using hw
  | allocGeneration =>
    rcases allocGeneration_cases (σ := σ) with h | ⟨m, ht, hlt, h, -, -, hw⟩
    · simp only [AllocOp.step, h]
      exact ChangesOnly.refl _ _
    · simp only [AllocOp.step, AllocOp.writes, h]
      rw [if_neg (by simp [ht, hlt])]
      exact hw
  | revoke id =>
    rcases revoke_cases (σ := σ) id with h | ⟨m, ht, hlt, h, -, hw⟩
    · simp only [AllocOp.step, h]
      exact ChangesOnly.refl _ _
    · simp only [AllocOp.step, AllocOp.writes, h]
      rw [if_neg (by simp [ht, hlt])]
      exact hw

/-- Work in a transaction changes the bytes that it writes only. -/
theorem WorkOp.changesOnly (op : WorkOp) :
    ChangesOnly op.writes σ.mem (WorkOp.step σ op).1.mem := by
  cases op with
  | call op =>
    cases op with
    | begin =>
      rcases σ.begin_cases with h | ⟨i, -, -, h⟩
      · simp only [WorkOp.step, TxOp.step, h]
        exact ChangesOnly.refl _ _
      · simp only [WorkOp.step, TxOp.step, h]
        exact ChangesOnly.refl _ _
    | commit tx => exact TxOp.changesOnly σ (.commit tx)
    | abort tx => exact TxOp.changesOnly σ (.abort tx)
  | markDirty tx ptr size =>
    cases tx with
    | none => exact ChangesOnly.refl _ _
    | some i =>
      simp only [WorkOp.step, txMarkDirty]
      split_ifs <;> exact ChangesOnly.refl _ _
  | setRoot root => exact σ.changesOnly_setRoot root
  | write off bytes => exact changesOnly_write _ _ _

/-- Storing the fields of COW storage and the state. -/
theorem changesOnly_startCow (τ : Atlas) (s size : ℕ) (cowStorage : Ptr) :
    ChangesOnly [⟨s + Snapshot.state.off, 4⟩, ⟨s + Snapshot.cowStorageOffset.off, 16⟩] τ.mem
      (τ.startCow s size cowStorage).mem := by
  have hfields : ∀ (m : Memory) (offset size : ℕ), ChangesOnly
      [⟨s + Snapshot.cowStorageOffset.off, 16⟩] m (m.assign s
        [(Snapshot.cowStorageOffset, offset), (Snapshot.cowStorageSize, size)]) := by
    intro m offset size
    refine changesOnly_assign_within s _ 16 _ m ?_
    simp only [List.forall_mem_cons]
    decide
  have hall : ∀ (m : Memory) (offset size : ℕ), ChangesOnly
      [⟨s + Snapshot.state.off, 4⟩, ⟨s + Snapshot.cowStorageOffset.off, 16⟩] m ((m.assign s
        [(Snapshot.cowStorageOffset, offset), (Snapshot.cowStorageSize, size)]).set s
          Snapshot.state SnapState.active.code) := by
    refine fun m offset size => ((hfields m offset size).trans
      (changesOnly_store _ _ _ _)).mono fun r hr => ?_
    simp only [List.cons_append, List.nil_append, List.mem_cons, List.not_mem_nil,
      or_false] at hr
    rcases hr with rfl | rfl
    · exact ⟨_, List.mem_cons_of_mem _ List.mem_cons_self, le_refl _, le_refl _⟩
    · exact ⟨_, List.mem_cons_self, le_refl _, le_refl _⟩
  unfold startCow
  rw [tickVclock_mem]
  cases cowStorage <;> exact hall _ _ _

/-- An operation of the snapshots changes the bytes that it writes only. -/
theorem SnapOp.changesOnly (hinit : σ.initialized = true) (op : SnapOp) :
    ChangesOnly (op.writes σ) σ.mem (SnapOp.step σ op).1.mem := by
  cases op with
  | begin vclock =>
    rcases snapshotBegin_cases hinit vclock with h | ⟨τ, s, h, hb⟩
    · simp only [SnapOp.step, h]
      exact ChangesOnly.refl _ _
    · simp only [SnapOp.step, SnapOp.writes, h]
      exact hb.writes
  | includePages k ptr size =>
    simp only [SnapOp.step, SnapOp.writes]
    cases σ.snapshots k with
    | none => exact ChangesOnly.refl _ _
    | some s =>
      rcases snapshotInclude_cases s ptr size with h | ⟨v, hprep, h⟩
      · rw [h]
        exact ChangesOnly.refl _ _
      · simp only [h, if_pos hprep]
        exact changesOnly_store _ _ _ _
  | includeAll k =>
    simp only [SnapOp.step, SnapOp.writes]
    cases σ.snapshots k with
    | none => exact ChangesOnly.refl _ _
    | some s =>
      rcases snapshotIncludeAll_cases s with h | ⟨v, hprep, h⟩
      · rw [h]
        exact ChangesOnly.refl _ _
      · simp only [h, if_pos hprep]
        refine changesOnly_assign_within s _ 16 _ σ.mem ?_
        simp only [List.forall_mem_cons]
        decide
  | activate k =>
    simp only [SnapOp.step, SnapOp.writes]
    cases σ.snapshots k with
    | none => exact ChangesOnly.refl _ _
    | some s =>
      rcases snapshotActivate_cases hinit s with ⟨b, h, -⟩ | ⟨hprep, size, h⟩ |
        ⟨m, size, hprep, -, -, -, h, -, hw⟩
      · rw [h]
        exact ChangesOnly.refl _ _
      · simp only [h, if_pos hprep]
        exact (changesOnly_startCow σ s size none).mono fun r hr =>
          ⟨r, List.mem_append_right _ hr, le_refl _, le_refl _⟩
      · simp only [h, if_pos hprep]
        exact hw.trans (changesOnly_startCow { σ with mem := m } s size _)
  | commit k =>
    simp only [SnapOp.step, SnapOp.writes]
    cases σ.snapshots k with
    | none => exact ChangesOnly.refl _ _
    | some s =>
      rcases snapshotCommit_cases (σ := σ) s with h | ⟨hstate, h⟩
      · rw [h]
        exact ChangesOnly.refl _ _
      · simp only [h, tickVclock_mem, if_pos hstate]
        refine ((changesOnly_store _ _ _ _).trans (changesOnly_store _ _ _ _)).mono
          fun r hr => ?_
        simp only [List.cons_append, List.nil_append, List.mem_cons, List.not_mem_nil,
          or_false] at hr
        rcases hr with rfl | rfl
        · exact ⟨_, List.mem_cons_of_mem _ List.mem_cons_self, le_refl _, le_refl _⟩
        · exact ⟨_, List.mem_cons_self, le_refl _, le_refl _⟩
  | restore k =>
    simp only [SnapOp.step, SnapOp.writes]
    cases σ.snapshots k with
    | none => exact ChangesOnly.refl _ _
    | some s => exact changesOnly_restore hinit s
  | cowPage k page =>
    simp only [SnapOp.step, SnapOp.writes]
    cases σ.snapshots k with
    | none => exact ChangesOnly.refl _ _
    | some s => exact changesOnly_cowPage hinit s page

/-- An operation writes nothing but its regions. -/
theorem Op.changesOnly (hinit : σ.initialized = true) (op : Op) :
    ChangesOnly (op.writes σ) σ.mem (Op.step σ op).1.mem := by
  cases op with
  | alloc op => exact AllocOp.changesOnly hinit op
  | work op => exact WorkOp.changesOnly op
  | snap op => exact SnapOp.changesOnly hinit op

/-! ## The handle -/

/-- Allocator calls change the memory only. -/
theorem AllocOp.sameSlots (hinit : σ.initialized = true) (op : AllocOp) :
    SameSlots σ (AllocOp.step σ op).1 := by
  cases op with
  | alloc size =>
    rcases alloc_cases hinit size with ⟨-, h⟩ | ⟨m, -, -, h, -, -⟩ <;> simp only [AllocOp.step, h]
    · exact SameSlots.refl σ
    · exact sameSlots_mem σ m
  | calloc size =>
    rcases calloc_cases hinit size with ⟨-, h⟩ | ⟨m, -, -, h, -, -⟩ <;> simp only [AllocOp.step, h]
    · exact SameSlots.refl σ
    · exact sameSlots_mem σ _
  | allocPages size =>
    rcases allocPages_cases hinit size with ⟨-, h⟩ | ⟨m, -, -, h, -, -⟩ <;>
      simp only [AllocOp.step, h]
    · exact SameSlots.refl σ
    · exact sameSlots_mem σ m
  | allocGeneration =>
    rcases allocGeneration_cases (σ := σ) with h | ⟨m, -, -, h, -, -⟩ <;>
      simp only [AllocOp.step, h]
    · exact SameSlots.refl σ
    · exact sameSlots_mem σ m
  | revoke id =>
    rcases revoke_cases (σ := σ) id with h | ⟨m, -, -, h, -⟩ <;> simp only [AllocOp.step, h]
    · exact SameSlots.refl σ
    · exact sameSlots_mem σ m

/-- Work in a transaction leaves the slots of the snapshots. -/
theorem WorkOp.sameSlots (op : WorkOp) : SameSlots σ (WorkOp.step σ op).1 := by
  cases op with
  | call op =>
    cases op with
    | begin =>
      rcases σ.begin_cases with h | ⟨i, -, -, h⟩ <;> simp only [WorkOp.step, TxOp.step, h]
      · exact SameSlots.refl σ
      · exact ⟨rfl, rfl, rfl⟩
    | commit tx =>
      cases tx with
      | none => exact SameSlots.refl σ
      | some i =>
        simp only [WorkOp.step, TxOp.step, commit]
        split_ifs <;> exact ⟨rfl, rfl, rfl⟩
    | abort tx =>
      cases tx with
      | none => exact SameSlots.refl σ
      | some i => exact sameSlots_abort σ i
  | markDirty tx ptr size =>
    cases tx with
    | none => exact SameSlots.refl σ
    | some i =>
      simp only [WorkOp.step, txMarkDirty]
      split_ifs <;> exact ⟨rfl, rfl, rfl⟩
  | setRoot root =>
    simp only [WorkOp.step]
    unfold Atlas.setRoot
    split
    · exact SameSlots.refl σ
    · split
      · exact SameSlots.refl σ
      · exact sameSlots_mem σ _
  | write off bytes => exact sameSlots_mem σ _

/-- Starting a copy leaves the slots. -/
theorem sameSlots_startCow (s size : ℕ) (cowStorage : Ptr) :
    SameSlots σ (σ.startCow s size cowStorage) := by
  unfold startCow
  exact (sameSlots_mem σ _).trans (sameSlots_tickVclock _)

theorem sameSlots_include (s : ℕ) (ptr : Ptr) (size : ℕ) :
    SameSlots σ (σ.snapshotInclude (some s) ptr size).1 := by
  rcases snapshotInclude_cases s ptr size with h | ⟨v, -, h⟩ <;> rw [h]
  · exact SameSlots.refl σ
  · exact sameSlots_mem σ _

theorem sameSlots_includeAll (s : ℕ) : SameSlots σ (σ.snapshotIncludeAll (some s)).1 := by
  rcases snapshotIncludeAll_cases s with h | ⟨v, -, h⟩ <;> rw [h]
  · exact SameSlots.refl σ
  · exact sameSlots_mem σ _

theorem sameSlots_activate (hinit : σ.initialized = true) (s : ℕ) :
    SameSlots σ (σ.snapshotActivate (some s)).1 := by
  rcases snapshotActivate_cases hinit s with ⟨b, h, -⟩ | ⟨-, size, h⟩ |
    ⟨m, size, -, -, -, -, h, -, -⟩ <;> simp only [h]
  · exact SameSlots.refl σ
  · exact sameSlots_startCow _ _ _
  · exact (sameSlots_mem σ m).trans (sameSlots_startCow _ _ _)

theorem sameSlots_commit (s : ℕ) : SameSlots σ (σ.snapshotCommit (some s)).1 := by
  rcases snapshotCommit_cases (σ := σ) s with h | ⟨-, h⟩ <;> simp only [h]
  · exact SameSlots.refl σ
  · exact (sameSlots_mem σ _).trans (sameSlots_tickVclock _)

theorem sameSlots_restore (hinit : σ.initialized = true) (s : ℕ) :
    SameSlots σ (σ.snapshotRestore (some s)).1 := by
  rcases snapshotRestore_cases hinit s with ⟨b, h, -⟩ | ⟨-, -, h⟩ <;> simp only [h]
  · exact SameSlots.refl σ
  · exact (sameSlots_pagesRestored σ s).trans (sameSlots_genesisRestored _ s)

theorem sameSlots_cowPage (hinit : σ.initialized = true) (s : ℕ) (page : Ptr) :
    SameSlots σ (σ.snapshotCowPage (some s) page).1 := by
  rcases snapshotCowPage_cases hinit s page with ⟨b, -, h, -⟩ | ⟨-, -, h⟩ | ⟨-, h⟩ <;> simp only [h]
  · exact SameSlots.refl σ
  · exact sameSlots_mem σ _
  · exact sameSlots_mem σ _

/-- An operation of the snapshots keeps the handle. -/
theorem SnapOp.keeps (hinit : σ.initialized = true) (op : SnapOp) :
    Keeps σ (SnapOp.step σ op).1 := by
  cases op with
  | begin vclock =>
    rcases snapshotBegin_cases hinit vclock with h | ⟨τ, s, h, hb⟩ <;> simp only [SnapOp.step, h]
    · exact Keeps.refl σ
    · exact hb.keeps
  | includePages k ptr size =>
    simp only [SnapOp.step]
    cases σ.snapshots k with
    | none => exact Keeps.refl σ
    | some s => exact (sameSlots_include s ptr size).keeps
  | includeAll k =>
    simp only [SnapOp.step]
    cases σ.snapshots k with
    | none => exact Keeps.refl σ
    | some s => exact (sameSlots_includeAll s).keeps
  | activate k =>
    simp only [SnapOp.step]
    cases σ.snapshots k with
    | none => exact Keeps.refl σ
    | some s => exact (sameSlots_activate hinit s).keeps
  | commit k =>
    simp only [SnapOp.step]
    cases σ.snapshots k with
    | none => exact Keeps.refl σ
    | some s => exact (sameSlots_commit s).keeps
  | restore k =>
    simp only [SnapOp.step]
    cases σ.snapshots k with
    | none => exact Keeps.refl σ
    | some s => exact (sameSlots_restore hinit s).keeps
  | cowPage k page =>
    simp only [SnapOp.step]
    cases σ.snapshots k with
    | none => exact Keeps.refl σ
    | some s => exact (sameSlots_cowPage hinit s page).keeps

/-- Every operation keeps the handle. -/
theorem Op.keeps (hinit : σ.initialized = true) (op : Op) : Keeps σ (Op.step σ op).1 := by
  cases op with
  | alloc op => exact (AllocOp.sameSlots hinit op).keeps
  | work op => exact (WorkOp.sameSlots op).keeps
  | snap op => exact SnapOp.keeps hinit op

/-- So does a run. -/
theorem keeps_run (hinit : σ.initialized = true) (ops : List Op) :
    Keeps σ (run Op.step σ ops) := by
  induction ops generalizing σ with
  | nil => exact Keeps.refl σ
  | cons op ops ih =>
    have h := Op.keeps hinit op
    exact h.trans (ih (h.init.trans hinit))

end Seraph
