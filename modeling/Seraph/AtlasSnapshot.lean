import Seraph.AtlasAlloc
import Seraph.AtlasTransactions

/-!
# Causal snapshots

A snapshot is a struct inside the region, reached through one of eight slots of the
handle. `snapshotInclude` counts pages, `snapshotActivate` reserves one page of COW
storage for each, and `snapshotCowPage` copies a page to the next reserved one and records
the copy. `snapshotReadPage` finds the copy of a page or the page itself, and
`snapshotRestore` copies the pages back and then puts back Genesis, with newer counters.
-/

namespace Seraph

open ByteMem Memory Runs

/-- `Seraph_VectorClock`, as far as snapshots read it. -/
structure VectorClock where
  /-- `none` is NULL. -/
  timestamps : Option (List ℕ)
  nodeCount : ℕ
  selfId : ℕ
deriving DecidableEq, Repr

/-- Offset of `cow_pages[i]` of the snapshot at `s`. -/
def cowEntry (s i : ℕ) : ℕ :=
  s + Snapshot.cowPages i

/-- `snapshot_find_cow_page` : index of the valid entry for a page. -/
def snapshotFindCowPage (m : Memory) (s pageOffset : ℕ) : Option ℕ :=
  (List.range (m.get s Snapshot.cowPageCount)).find? fun i =>
    m.get (cowEntry s i) CowPage.flags &&& CowPage.valid ≠ 0 ∧
      m.get (cowEntry s i) CowPage.pageOffset = pageOffset

namespace Atlas

variable (σ : Atlas)

/-- State of the snapshot at `s`, as stored. -/
def snapState (s : ℕ) : ℕ :=
  σ.mem.get s Snapshot.state

/-- Increment the local component of the vector clock. -/
def tickVclock : Atlas :=
  if h : σ.localNodeId < vclockMaxNodes then
    { σ with
      currentVclock := Function.update σ.currentVclock ⟨σ.localNodeId, h⟩
        (u64 (σ.currentVclock ⟨σ.localNodeId, h⟩ + 1)) }
  else σ

/-- `snapshot_capture_vclock`. -/
def snapshotCaptureVclock (m : Memory) (s : ℕ) (vclock : Option VectorClock) : Memory :=
  let capture (count self : ℕ) (value : Fin vclockMaxNodes → ℕ) : Memory :=
    let entries := (List.finRange vclockMaxNodes).filter fun i => i.val < count
    m.assign s ((Snapshot.vclockNodeCount, count) :: (Snapshot.vclockSelfId, self) ::
      entries.map fun i => (Snapshot.vclock i.val, value i))
  match vclock with
  | some ⟨some timestamps, nodeCount, selfId⟩ =>
    capture nodeCount selfId fun i => timestamps.getD i.val 0
  | _ => capture (if 0 < σ.nodeCount then σ.nodeCount else 1) σ.localNodeId σ.currentVclock

/-- The slot of a new snapshot : the first that is empty, void or failed. -/
def snapshotSlot : List (Fin maxSnapshots) → Atlas × Ptr
  | [] => (σ, none)
  | i :: is =>
    match σ.snapshots i with
    | none =>
      match σ.calloc Snapshot.size with
      | (τ, none) => (τ, none)
      | (τ, some s) => ({ τ with snapshots := Function.update τ.snapshots i (some s) }, some s)
    | some s =>
      if σ.snapState s = SnapState.void.code ∨ σ.snapState s = SnapState.failed.code then
        ({ σ with mem := σ.mem.fill s Snapshot.size 0 }, some s)
      else snapshotSlot is

/-- The struct of a new snapshot at `s`. -/
def snapshotInit (s : ℕ) (vclock : Option VectorClock) : Memory :=
  let m := σ.mem.assign s [(Snapshot.magic, Snapshot.magicValue),
    (Snapshot.version, Snapshot.versionValue), (Snapshot.state, SnapState.preparing.code),
    (Snapshot.snapshotId, σ.nextSnapshotId), (Snapshot.timestamp, σ.currentEpoch),
    (Snapshot.wallClock, 0)]
  let m := m.set s Snapshot.generation (m.get 0 Genesis.generation)
  let m := m.set s Snapshot.epoch σ.currentEpoch
  let m := σ.snapshotCaptureVclock m s vclock
  let m := m.assign s [(Snapshot.totalPageCount, σ.size / pageSize),
    (Snapshot.includedPageCount, 0), (Snapshot.includedPages, 0), (Snapshot.cowPageCount, 0),
    (Snapshot.cowStorageOffset, 0), (Snapshot.cowStorageSize, 0)]
  let m := m.copy (s + Snapshot.genesisCopy) 0 Genesis.size
  m.assign s [(Snapshot.creationTime, σ.currentEpoch), (Snapshot.commitTime, 0)]

/-- Fill in the struct of a new snapshot at `s`. -/
def startSnapshot (s : ℕ) (vclock : Option VectorClock) : Atlas :=
  tickVclock { σ with
    mem := σ.snapshotInit s vclock
    nextSnapshotId := u64 (σ.nextSnapshotId + 1) }

/-- `seraph_atlas_snapshot_begin`. -/
def snapshotBegin (vclock : Option VectorClock) : Atlas × Ptr :=
  if !σ.initialized then (σ, none)
  else
    match σ.snapshotSlot (List.finRange maxSnapshots) with
    | (τ, none) => (τ, none)
    | (τ, some s) => (τ.startSnapshot s vclock, some s)

/-- Number of pages that `snapshotInclude` counts for `size` bytes at `startOffset`. -/
def includedCount (startOffset size : ℕ) : ℕ :=
  let endOffset := u64 (startOffset + size)
  let pageStart := startOffset / pageSize * pageSize
  let pageEnd := u64 (endOffset + pageSize - 1) / pageSize * pageSize
  let pageEnd := if σ.size < pageEnd then σ.size else pageEnd
  u32 (u64 (pageEnd + 2 ^ 64 - pageStart) / pageSize)

/-- `seraph_atlas_snapshot_include`. -/
def snapshotInclude (snapshot ptr : Ptr) (size : ℕ) : Atlas × Vbit :=
  match snapshot with
  | none => (σ, .void)
  | some s =>
    if !σ.initialized then (σ, .void)
    else if σ.snapState s ≠ SnapState.preparing.code then (σ, .void)
    else if !σ.contains ptr then (σ, .void)
    else
      let pageCount := σ.includedCount (σ.ptrToOffset ptr) size
      let included := σ.mem.get s Snapshot.includedPageCount
      if snapshotMaxPages < u32 (included + pageCount) then (σ, .false)
      else
        ({ σ with mem := σ.mem.set s Snapshot.includedPageCount (included + pageCount) }, .true)

/-- `seraph_atlas_snapshot_include_all`. -/
def snapshotIncludeAll (snapshot : Ptr) : Atlas × Vbit :=
  match snapshot with
  | none => (σ, .void)
  | some s =>
    if !σ.initialized then (σ, .void)
    else if σ.snapState s ≠ SnapState.preparing.code then (σ, .void)
    else
      ({ σ with
          mem := σ.mem.assign s
            [(Snapshot.includedPageCount, σ.mem.get s Snapshot.totalPageCount),
              (Snapshot.includedPages, voidU64)] }, .true)

/-- Record the COW storage of the snapshot at `s`, if there is any, and make it active. -/
def startCow (s cowStorageSize : ℕ) (cowStorage : Ptr) : Atlas :=
  let m :=
    match cowStorage with
    | none => σ.mem.assign s [(Snapshot.cowStorageOffset, 0), (Snapshot.cowStorageSize, 0)]
    | some _ => σ.mem.assign s [(Snapshot.cowStorageOffset, σ.ptrToOffset cowStorage),
        (Snapshot.cowStorageSize, cowStorageSize)]
  tickVclock { σ with mem := m.set s Snapshot.state SnapState.active.code }

/-- `seraph_atlas_snapshot_activate`. -/
def snapshotActivate (snapshot : Ptr) : Atlas × Vbit :=
  match snapshot with
  | none => (σ, .void)
  | some s =>
    if !σ.initialized then (σ, .void)
    else if σ.snapState s ≠ SnapState.preparing.code then
      if σ.snapState s = SnapState.active.code then (σ, .false) else (σ, .void)
    else if σ.mem.get s Snapshot.includedPageCount = 0 then (σ, .void)
    else
      let cowStorageSize := σ.mem.get s Snapshot.includedPageCount * pageSize
      let cowStorage := σ.allocPages cowStorageSize
      (cowStorage.1.startCow s cowStorageSize cowStorage.2, .true)

/-- `seraph_atlas_snapshot_commit`. -/
def snapshotCommit (snapshot : Ptr) : Atlas × Vbit :=
  match snapshot with
  | none => (σ, .void)
  | some s =>
    if !σ.initialized then (σ, .void)
    else if σ.snapState s = SnapState.committed.code then (σ, .false)
    else if σ.snapState s ≠ SnapState.active.code ∧ σ.snapState s ≠ SnapState.preparing.code then
      (σ, .void)
    else
      let m := σ.mem.set s Snapshot.commitTime σ.currentEpoch
      (tickVclock { σ with mem := m.set s Snapshot.state SnapState.committed.code }, .true)

/-! ## Copy on write -/

/-- `snapshot->state = SERAPH_ATLAS_SNAP_FAILED`. -/
def failSnapshot (s : ℕ) : Atlas :=
  { σ with mem := σ.mem.set s Snapshot.state SnapState.failed.code }

/-- Fill in the COW entry at `cow`. -/
def writeCowEntry (m : Memory) (cow pageOffset cowOffset : ℕ) : Memory :=
  let m := m.assign cow [(CowPage.pageOffset, pageOffset), (CowPage.copyOffset, cowOffset),
    (CowPage.modificationTime, σ.currentEpoch), (CowPage.pageCount, 1),
    (CowPage.flags, CowPage.valid ||| CowPage.dirty)]
  if pageOffset < Genesis.size then
    m.set cow CowPage.flags (m.get cow CowPage.flags ||| CowPage.genesis)
  else m

/-- Copy the page at `pageSrc` to `cowDest` and record the copy in the next entry. -/
def recordCow (s pageOffset cowOffset cowDest pageSrc : ℕ) : Memory :=
  let m := σ.mem.copy cowDest pageSrc pageSize
  let m := σ.writeCowEntry m (cowEntry s (m.get s Snapshot.cowPageCount)) pageOffset cowOffset
  m.set s Snapshot.cowPageCount (m.get s Snapshot.cowPageCount + 1)

/-- `seraph_atlas_snapshot_cow_page`. -/
def snapshotCowPage (snapshot page : Ptr) : Atlas × Vbit :=
  match snapshot, page with
  | none, _ => (σ, .void)
  | _, none => (σ, .void)
  | some s, some _ =>
    if !σ.initialized then (σ, .void)
    else if σ.snapState s ≠ SnapState.active.code then (σ, .void)
    else
      let offset := σ.ptrToOffset page
      if offset = voidU64 then (σ, .void)
      else
        let pageOffset := offset / pageSize * pageSize
        if (snapshotFindCowPage σ.mem s pageOffset).isSome then (σ, .false)
        else if snapshotMaxPages ≤ σ.mem.get s Snapshot.cowPageCount then
          (σ.failSnapshot s, .void)
        else if σ.mem.get s Snapshot.cowStorageOffset = 0 then (σ.failSnapshot s, .void)
        else
          let cowOffset := u64 (σ.mem.get s Snapshot.cowStorageOffset +
            σ.mem.get s Snapshot.cowPageCount * pageSize)
          match σ.offsetToPtr cowOffset, σ.offsetToPtr pageOffset with
          | some cowDest, some pageSrc =>
            ({ σ with mem := σ.recordCow s pageOffset cowOffset cowDest pageSrc }, .true)
          | _, _ => (σ.failSnapshot s, .void)

/-- `seraph_atlas_snapshot_read_page`. -/
def snapshotReadPage (snapshot page : Ptr) : Ptr :=
  match snapshot, page with
  | none, _ => none
  | _, none => none
  | some s, some _ =>
    if !σ.initialized then none
    else
      let offset := σ.ptrToOffset page
      if offset = voidU64 then none
      else
        let pageOffset := offset / pageSize * pageSize
        match snapshotFindCowPage σ.mem s pageOffset with
        | some i => σ.offsetToPtr (σ.mem.get (cowEntry s i) CowPage.copyOffset)
        | none => σ.offsetToPtr pageOffset

/-! ## Restore -/

/-- Copy entry `i` of the snapshot at `s` back to its page, if the entry is valid and both
offsets are in the region. -/
def restorePage (s i : ℕ) : Atlas :=
  let cow := cowEntry s i
  if σ.mem.get cow CowPage.flags &&& CowPage.valid = 0 then σ
  else
    match σ.offsetToPtr (σ.mem.get cow CowPage.pageOffset) with
    | none => σ
    | some originalPage =>
      match σ.offsetToPtr (σ.mem.get cow CowPage.copyOffset) with
      | none => σ
      | some cowCopy =>
        { σ with
          mem := σ.mem.copy originalPage cowCopy (σ.mem.get cow CowPage.pageCount * pageSize) }

/-- The restore loop from entry `i` on. The count is read again before each entry, and it is a field
of 32 bits, so `2 ^ 32` rounds are enough. -/
def restorePages (s : ℕ) : ℕ → ℕ → Atlas → Atlas
  | 0, _, σ => σ
  | rounds + 1, i, σ =>
    if i < σ.mem.get s Snapshot.cowPageCount then restorePages s rounds (i + 1) (σ.restorePage s i)
    else σ

/-- Abort every active transaction. -/
def abortAll : Atlas :=
  (List.finRange maxTransactions).foldl (fun τ i => τ.abort (some i)) σ

/-- Genesis after a restore : the copy in the snapshot, with newer counters. -/
def restoreGenesis (s : ℕ) : Memory :=
  let currentGeneration := σ.genesis Genesis.generation + 1
  let currentCommitCount := σ.genesis Genesis.commitCount
  let currentAbortCount := σ.genesis Genesis.abortCount
  (σ.mem.copy 0 (s + Snapshot.genesisCopy) Genesis.size).assign 0
    [(Genesis.generation, currentGeneration), (Genesis.commitCount, currentCommitCount + 1),
      (Genesis.abortCount, currentAbortCount)]

/-- The vector clock after a restore : the later of the snapshot's and the current one. -/
def mergeVclock (s : ℕ) (i : Fin vclockMaxNodes) : ℕ :=
  if i.val < σ.mem.get s Snapshot.vclockNodeCount then
    max (σ.mem.get s (Snapshot.vclock i)) (σ.currentVclock i)
  else σ.currentVclock i

/-- The first half of a restore : abort every transaction and copy the pages back. -/
def pagesRestored (s : ℕ) : Atlas :=
  restorePages s (2 ^ 32) 0 σ.abortAll

/-- The second half : put Genesis back, merge and advance the vector clock, and set the
epoch. -/
def genesisRestored (s : ℕ) : Atlas :=
  let τ := { σ with mem := σ.restoreGenesis s }
  let τ := tickVclock { τ with currentVclock := τ.mergeVclock s }
  { τ with currentEpoch := u64 (τ.genesis Genesis.commitCount + 1) }

/-- `seraph_atlas_snapshot_restore`. -/
def snapshotRestore (snapshot : Ptr) : Atlas × Vbit :=
  match snapshot with
  | none => (σ, .void)
  | some s =>
    if !σ.initialized then (σ, .void)
    else if σ.snapState s ≠ SnapState.committed.code then (σ, .false)
    else if σ.mem.get s Snapshot.magic ≠ Snapshot.magicValue then (σ, .void)
    else ((σ.pagesRestored s).genesisRestored s, .true)

end Atlas

/-! ## Calls in any order -/

/-- Snapshot calls, each on the snapshot of a slot. -/
inductive SnapOp where
  | begin (vclock : Option VectorClock)
  | includePages (k : Fin maxSnapshots) (ptr : Ptr) (size : ℕ)
  | includeAll (k : Fin maxSnapshots)
  | activate (k : Fin maxSnapshots)
  | commit (k : Fin maxSnapshots)
  | restore (k : Fin maxSnapshots)
  | cowPage (k : Fin maxSnapshots) (page : Ptr)
deriving DecidableEq, Repr

/-- A pointer or a truth value. -/
inductive SnapResult where
  | ptr (p : Ptr)
  | vbit (b : Vbit)
deriving DecidableEq, Repr

/-- Perform one snapshot call. -/
def SnapOp.step (σ : Atlas) : SnapOp → Atlas × SnapResult
  | begin vclock => ((σ.snapshotBegin vclock).1, .ptr (σ.snapshotBegin vclock).2)
  | includePages k ptr size =>
    ((σ.snapshotInclude (σ.snapshots k) ptr size).1,
      .vbit (σ.snapshotInclude (σ.snapshots k) ptr size).2)
  | includeAll k =>
    ((σ.snapshotIncludeAll (σ.snapshots k)).1, .vbit (σ.snapshotIncludeAll (σ.snapshots k)).2)
  | activate k =>
    ((σ.snapshotActivate (σ.snapshots k)).1, .vbit (σ.snapshotActivate (σ.snapshots k)).2)
  | commit k => ((σ.snapshotCommit (σ.snapshots k)).1, .vbit (σ.snapshotCommit (σ.snapshots k)).2)
  | restore k =>
    ((σ.snapshotRestore (σ.snapshots k)).1, .vbit (σ.snapshotRestore (σ.snapshots k)).2)
  | cowPage k page =>
    ((σ.snapshotCowPage (σ.snapshots k) page).1, .vbit (σ.snapshotCowPage (σ.snapshots k) page).2)

/-- Everything a client can do with an Atlas : allocate, run transactions and write, and
take snapshots. -/
inductive Op where
  | alloc (op : AllocOp)
  | work (op : WorkOp)
  | snap (op : SnapOp)
deriving DecidableEq, Repr

/-- What an operation returns. -/
inductive Result where
  | alloc (r : AllocResult)
  | work (r : TxResult)
  | snap (r : SnapResult)
deriving DecidableEq, Repr

/-- Perform one operation. -/
def Op.step (σ : Atlas) : Op → Atlas × Result
  | alloc op => ((AllocOp.step σ op).1, .alloc (AllocOp.step σ op).2)
  | work op => ((WorkOp.step σ op).1, .work (WorkOp.step σ op).2)
  | snap op => ((SnapOp.step σ op).1, .snap (SnapOp.step σ op).2)

end Seraph
