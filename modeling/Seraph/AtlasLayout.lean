import Seraph.ByteMemory
import Seraph.Runs
import Seraph.Words

/-!
# The Atlas store : layout and handle

Atlas is one mapped region. Genesis sits at offset 0, the generation table follows it,
and the bump allocator hands out offsets from `headerSize` on. Snapshots are structs
inside the region. A pointer into the region is its offset from the base of the
mapping, `none` is NULL. The bytes of the mapping are `Atlas.mem`; the memory goes on
past `Atlas.size`, so that a write beyond the mapping has an effect here too.

`Genesis`, `GenTable`, `CowPage` and `Snapshot` list the fields of the structs as the
compiler lays them out. The volatile part of the handle is the structure `Atlas`.
-/

namespace Seraph

open ByteMem Memory

/-- `SERAPH_PAGE_SIZE`. -/
def pageSize : ℕ :=
  4096

/-- `SERAPH_ATLAS_HEADER_SIZE` : four pages. -/
def headerSize : ℕ :=
  pageSize * 4

/-- `SERAPH_ATLAS_ALIGN`. -/
def atlasAlign : ℕ :=
  8

/-- `SERAPH_ATLAS_DEFAULT_SIZE` : 64 MiB. -/
def defaultSize : ℕ :=
  64 * 1024 * 1024

/-- `SERAPH_ATLAS_GEN_TABLE_SIZE`. -/
def genTableSize : ℕ :=
  4096

/-- `SERAPH_ATLAS_MAX_TRANSACTIONS`. -/
abbrev maxTransactions : ℕ :=
  16

instance : NeZero maxTransactions :=
  ⟨by decide⟩

/-- `SERAPH_ATLAS_MAX_DIRTY_PAGES`. -/
def maxDirtyPages : ℕ :=
  256

/-- `SERAPH_ATLAS_MAX_SNAPSHOTS`. -/
abbrev maxSnapshots : ℕ :=
  8

instance : NeZero maxSnapshots :=
  ⟨by decide⟩

/-- `SERAPH_ATLAS_SNAPSHOT_MAX_PAGES`. -/
def snapshotMaxPages : ℕ :=
  1024

/-- `SERAPH_ATLAS_VCLOCK_MAX_NODES`. -/
abbrev vclockMaxNodes : ℕ :=
  64

/-- A stored word is the value reduced to 64 bits. -/
theorem get_set_u64 (m : Memory) (base : ℕ) {f : StructField} (hf : f.width = 8) (v : ℕ) :
    (m.set base f v).get base f = u64 v := by
  rw [get_set_same, hf]
  rfl

/-! ## Structs in the region -/

/-! ### Fields of `Seraph_Atlas_Genesis`. -/

namespace Genesis

/-- `magic`. -/
def magic : StructField := ⟨0, 8⟩

/-- `version`. -/
def version : StructField := ⟨8, 8⟩

/-- `generation`. -/
def generation : StructField := ⟨16, 8⟩

/-- `root_offset`. -/
def rootOffset : StructField := ⟨24, 8⟩

/-- `free_list_offset`. -/
def freeListOffset : StructField := ⟨32, 8⟩

/-- `gen_table_offset`. -/
def genTableOffset : StructField := ⟨40, 8⟩

/-- `next_alloc_offset`. -/
def nextAllocOffset : StructField := ⟨48, 8⟩

/-- `total_allocated`. -/
def totalAllocated : StructField := ⟨56, 8⟩

/-- `total_freed`. -/
def totalFreed : StructField := ⟨64, 8⟩

/-- `created_at`. -/
def createdAt : StructField := ⟨72, 8⟩

/-- `modified_at`. -/
def modifiedAt : StructField := ⟨80, 8⟩

/-- `last_commit_at`. -/
def lastCommitAt : StructField := ⟨88, 8⟩

/-- `commit_count`. -/
def commitCount : StructField := ⟨96, 8⟩

/-- `abort_count`. -/
def abortCount : StructField := ⟨104, 8⟩

/-- `sizeof(Seraph_Atlas_Genesis)`, aligned to 256. -/
def size : ℕ := 256

/-- `SERAPH_ATLAS_MAGIC`. -/
def magicValue : ℕ := 0x5345524150484154

/-- `SERAPH_ATLAS_VERSION`. -/
def versionValue : ℕ := 1

end Genesis

/-! ### Fields of `Seraph_Atlas_Gen_Table`. -/

namespace GenTable

/-- `magic`. -/
def magic : StructField := ⟨0, 8⟩

/-- `entry_count`. -/
def entryCount : StructField := ⟨8, 8⟩

/-- `next_generation`. -/
def nextGeneration : StructField := ⟨16, 8⟩

/-- `generations[id]`. -/
def generations (id : ℕ) : StructField := ⟨24 + 8 * id, 8⟩

/-- `sizeof(Seraph_Atlas_Gen_Table)` : three words and all the slots. -/
def size : ℕ := 24 + 8 * genTableSize

/-- `SERAPH_ATLAS_GEN_TABLE_MAGIC`. -/
def magicValue : ℕ := 0x47454E5441424C45

end GenTable

/-! ### Fields of `Seraph_Atlas_COW_Page`. -/

namespace CowPage

/-- `page_offset`. -/
def pageOffset : StructField := ⟨0, 8⟩

/-- `copy_offset`. -/
def copyOffset : StructField := ⟨8, 8⟩

/-- `modification_time`. -/
def modificationTime : StructField := ⟨16, 8⟩

/-- `page_count`. -/
def pageCount : StructField := ⟨24, 4⟩

/-- `flags`. -/
def flags : StructField := ⟨28, 4⟩

/-- `sizeof(Seraph_Atlas_COW_Page)`. -/
def size : ℕ := 32

/-- `SERAPH_ATLAS_COW_VALID`. -/
def valid : ℕ := 0x0001

/-- `SERAPH_ATLAS_COW_DIRTY`. -/
def dirty : ℕ := 0x0002

/-- `SERAPH_ATLAS_COW_GENESIS`. -/
def genesis : ℕ := 0x0008

end CowPage

/-- `Seraph_Atlas_Snap_State`. -/
inductive SnapState where
  | void
  | preparing
  | active
  | committed
  | restoring
  | failed
deriving DecidableEq, Repr

/-- The number a snapshot state is stored as. -/
def SnapState.code : SnapState → ℕ
  | void => 0
  | preparing => 1
  | active => 2
  | committed => 3
  | restoring => 4
  | failed => 5

/-! ### Fields of `Seraph_Atlas_Snapshot`. -/

namespace Snapshot

/-- `magic`. -/
def magic : StructField := ⟨0, 8⟩

/-- `version`. -/
def version : StructField := ⟨8, 4⟩

/-- `state`. -/
def state : StructField := ⟨12, 4⟩

/-- `snapshot_id`. -/
def snapshotId : StructField := ⟨16, 8⟩

/-- `timestamp`. -/
def timestamp : StructField := ⟨24, 8⟩

/-- `wall_clock`. -/
def wallClock : StructField := ⟨32, 8⟩

/-- `generation`. -/
def generation : StructField := ⟨40, 8⟩

/-- `epoch`. -/
def epoch : StructField := ⟨48, 8⟩

/-- `vclock_node_count`. -/
def vclockNodeCount : StructField := ⟨56, 4⟩

/-- `vclock_self_id`. -/
def vclockSelfId : StructField := ⟨60, 4⟩

/-- `vclock[i]`. -/
def vclock (i : ℕ) : StructField := ⟨64 + 8 * i, 8⟩

/-- `included_pages`. -/
def includedPages : StructField := ⟨576, 8⟩

/-- `total_page_count`. -/
def totalPageCount : StructField := ⟨584, 4⟩

/-- `included_page_count`. -/
def includedPageCount : StructField := ⟨588, 4⟩

/-- Offset of `cow_pages[i]`. -/
def cowPages (i : ℕ) : ℕ := 592 + CowPage.size * i

/-- `cow_page_count`. -/
def cowPageCount : StructField := ⟨33360, 4⟩

/-- `cow_storage_offset`. -/
def cowStorageOffset : StructField := ⟨33368, 8⟩

/-- `cow_storage_size`. -/
def cowStorageSize : StructField := ⟨33376, 8⟩

/-- Offset of `genesis_copy`, aligned to 256. -/
def genesisCopy : ℕ := 33536

/-- `creation_time`. -/
def creationTime : StructField := ⟨33792, 8⟩

/-- `commit_time`. -/
def commitTime : StructField := ⟨33800, 8⟩

/-- `sizeof(Seraph_Atlas_Snapshot)`, a multiple of 256. -/
def size : ℕ := 34048

/-- `SERAPH_ATLAS_SNAPSHOT_MAGIC`. -/
def magicValue : ℕ := 0x5345524150534E50

/-- `SERAPH_ATLAS_SNAPSHOT_VERSION`. -/
def versionValue : ℕ := 1

end Snapshot

/-! ## The handle -/

/-- A pointer into the region, as an offset from its base; `none` is NULL. -/
abbrev Ptr := Option ℕ

/-- `Seraph_Atlas_Tx_State`. -/
inductive TxState where
  | void
  | active
  | committed
  | aborted
deriving DecidableEq, Repr

/-- `Seraph_Atlas_Dirty_Page`. -/
structure DirtyPage where
  /-- The marked pointer. -/
  offset : Ptr
  /-- Size of the marked region. -/
  size : ℕ
  /-- Copy of the original data. -/
  original : Ptr
deriving DecidableEq, Repr

/-- `Seraph_Atlas_Transaction`. The first `dirty_count` entries of `dirty_pages` are
the list `dirtyPages`. -/
structure Transaction where
  txId : ℕ
  epoch : ℕ
  startGeneration : ℕ
  startChronon : ℕ
  state : TxState
  dirtyPages : List DirtyPage
deriving DecidableEq, Repr

/-- A zeroed transaction. -/
def Transaction.zero : Transaction :=
  ⟨0, 0, 0, 0, .void, []⟩

/-- `Seraph_Atlas` : the mapping and the volatile state. -/
structure Atlas where
  /-- Size of the mapping. -/
  size : ℕ
  /-- Bytes of the mapping. -/
  mem : Memory
  /-- `initialized`, with `base` not NULL. -/
  initialized : Bool
  currentEpoch : ℕ
  transactions : Fin maxTransactions → Transaction
  nextTxId : ℕ
  /-- Snapshot pointers. -/
  snapshots : Fin maxSnapshots → Ptr
  nextSnapshotId : ℕ
  localNodeId : ℕ
  nodeCount : ℕ
  currentVclock : Fin vclockMaxNodes → ℕ

namespace Atlas

variable (σ : Atlas)

/-- A field of Genesis. -/
def genesis (f : StructField) : ℕ :=
  σ.mem.get 0 f

/-- The bump pointer. -/
def next : ℕ :=
  σ.genesis Genesis.nextAllocOffset

/-- Offset of the generation table (`seraph_atlas_get_gen_table`). -/
def tableOffset : ℕ :=
  σ.genesis Genesis.genTableOffset

/-- `entry_count` of the generation table. -/
def entryCount : ℕ :=
  σ.mem.get σ.tableOffset GenTable.entryCount

/-- `generations[id]` of the generation table. -/
def generationOf (id : ℕ) : ℕ :=
  σ.mem.get σ.tableOffset (GenTable.generations id)

/-! ## Pointers -/

/-- `seraph_atlas_contains`. -/
def contains : Ptr → Bool
  | none => false
  | some off => off < σ.size

/-- `seraph_atlas_ptr_to_offset`. -/
def ptrToOffset (ptr : Ptr) : ℕ :=
  match ptr with
  | some off => if σ.contains (some off) then off else voidU64
  | none => voidU64

/-- `seraph_atlas_offset_to_ptr`. -/
def offsetToPtr (offset : ℕ) : Ptr :=
  if !σ.initialized then none
  else if σ.size ≤ offset ∨ offset = voidU64 then none
  else some offset

/-! ## Creating an Atlas -/

/-- Genesis of a new Atlas. -/
def genesisInit : List (StructField × ℕ) :=
  [(Genesis.magic, Genesis.magicValue), (Genesis.version, Genesis.versionValue),
    (Genesis.generation, 1), (Genesis.rootOffset, 0), (Genesis.freeListOffset, 0),
    (Genesis.genTableOffset, Genesis.size), (Genesis.nextAllocOffset, headerSize),
    (Genesis.totalAllocated, 0), (Genesis.totalFreed, 0), (Genesis.createdAt, 0),
    (Genesis.modifiedAt, 0), (Genesis.lastCommitAt, 0), (Genesis.commitCount, 0),
    (Genesis.abortCount, 0)]

/-- Header words of a new generation table. -/
def genTableInit : List (StructField × ℕ) :=
  [(GenTable.magic, GenTable.magicValue), (GenTable.entryCount, 0), (GenTable.nextGeneration, 1)]

/-- The generation table of a new Atlas, at `table`. -/
def formatTable (m : Memory) (table : ℕ) : Memory :=
  (m.assign table genTableInit).fill (table + (GenTable.generations 0).off)
    (8 * genTableSize) 0

/-- `atlas_format`. -/
def format : Atlas :=
  let m := (σ.mem.fill 0 σ.size 0).assign 0 genesisInit
  { σ with
    mem := formatTable m (m.get 0 Genesis.genTableOffset)
    currentEpoch := 1 }

/-- `atlas_recover` : the checks on an existing file and the epoch it continues from. -/
def recover : Option Atlas :=
  if σ.genesis Genesis.magic ≠ Genesis.magicValue then none
  else if σ.genesis Genesis.version ≠ Genesis.versionValue then none
  else if σ.size ≤ σ.tableOffset then none
  else if σ.mem.get σ.tableOffset GenTable.magic ≠ GenTable.magicValue then none
  else some { σ with currentEpoch := u64 (σ.genesis Genesis.commitCount + 1) }

/-- The slots of the generation table of a new Atlas, with its header words. -/
def genTableRegion : Region :=
  ⟨Genesis.size, GenTable.size⟩

theorem changesOnly_formatTable (m : Memory) (table : ℕ) :
    ChangesOnly [⟨table, GenTable.size⟩] m (formatTable m table) := by
  refine (changesOnly_assign table genTableInit m (by decide)).comp ?_
  refine (changesOnly_fill _ _ _ _).mono fun r hr => ⟨_, List.mem_singleton_self _, ?_⟩
  rw [List.mem_singleton.1 hr]
  simp only [Region.Within, GenTable.generations, GenTable.size]
  omega

/-- `format` puts the table right after Genesis. -/
theorem format_mem : σ.format.mem =
    formatTable ((σ.mem.fill 0 σ.size 0).assign 0 genesisInit) Genesis.size := by
  have htable : ((σ.mem.fill 0 σ.size 0).assign 0 genesisInit).get 0 Genesis.genTableOffset =
      Genesis.size := by
    simp (disch := decide) only [genesisInit, assign, get_set_same, get_set_apart]
    rfl
  exact congrArg (formatTable _) htable

/-- Genesis after `format`, field by field. -/
theorem genesis_format {f : StructField} (hf : f.Inside Genesis.size) :
    σ.format.genesis f = ((σ.mem.fill 0 σ.size 0).assign 0 genesisInit).get 0 f := by
  unfold genesis
  rw [format_mem]
  exact (changesOnly_formatTable _ _).get hf (by decide)

theorem format_next : σ.format.next = headerSize := by
  rw [next, genesis_format σ (by decide)]
  simp (disch := decide) only [genesisInit, assign, get_set_same, get_set_apart]
  rfl

theorem format_tableOffset : σ.format.tableOffset = Genesis.size := by
  rw [tableOffset, genesis_format σ (by decide)]
  simp (disch := decide) only [genesisInit, assign, get_set_same, get_set_apart]
  rfl

theorem format_generation : σ.format.genesis Genesis.generation = 1 := by
  rw [genesis_format σ (by decide)]
  simp (disch := decide) only [genesisInit, assign, get_set_same, get_set_apart]
  rfl

theorem format_commitCount : σ.format.genesis Genesis.commitCount = 0 := by
  rw [genesis_format σ (by decide)]
  simp (disch := decide) only [genesisInit, assign, get_set_same, get_set_apart]
  rfl

theorem format_entryCount : σ.format.entryCount = 0 := by
  rw [entryCount, format_tableOffset, format_mem]
  refine (load_fill_of_disjoint _ (by decide)).trans ?_
  exact (get_set_apart _ _ (by decide) _).trans (get_set_same _ _ _ _)

end Atlas

/-- Size of the file `seraph_atlas_init` creates : the request or the default, at least
two headers, rounded up to a page. -/
def newFileSize (size : ℕ) : ℕ :=
  let size := if 0 < size then size else defaultSize
  let size := if size < headerSize * 2 then headerSize * 2 else size
  alignUp size pageSize

theorem newFileSize_lt (size : ℕ) : newFileSize size < 2 ^ 64 :=
  alignUp_lt _ (k := 12) (by omega)

/-- The handle `seraph_atlas_init` builds around a mapping. -/
def mapped (size : ℕ) (mem : Memory) : Atlas where
  size := size
  mem := mem
  initialized := true
  currentEpoch := 0
  transactions := fun _ => Transaction.zero
  nextTxId := 1
  snapshots := fun _ => none
  nextSnapshotId := 1
  localNodeId := 0
  nodeCount := 1
  currentVclock := fun i => if i = 0 then 1 else 0

/-- `seraph_atlas_init`. `file` is the existing file, `mmap` tells which sizes the
platform maps, and `mem` is the address space around a new mapping. -/
def atlasInit (mmap : ℕ → Bool) (mem : Memory) (file : Option (ℕ × Memory)) (size : ℕ) :
    Option Atlas :=
  match file with
  | none =>
    let size := newFileSize size
    if mmap size then some (mapped size mem).format else none
  | some (size, contents) =>
    if size = 0 ∨ !mmap size then none else (mapped size contents).recover

/-- A new Atlas is a formatted mapping of less than `2 ^ 64` bytes. -/
theorem atlasInit_new {mmap : ℕ → Bool} {mem : Memory} {request : ℕ} {σ : Atlas}
    (h : atlasInit mmap mem none request = some σ) :
    ∃ size < 2 ^ 64, σ = (mapped size mem).format := by
  simp only [atlasInit] at h
  split_ifs at h with hm
  exact ⟨_, newFileSize_lt request, (Option.some.inj h).symm⟩

/-- A new Atlas of 256 KiB. -/
def smallAtlas : Atlas :=
  (mapped 262144 fun _ => 0).format

theorem atlasInit_smallAtlas :
    atlasInit (fun _ => true) (fun _ => 0) none 262144 = some smallAtlas := by
  have hsize : newFileSize 262144 = 262144 := by decide
  rw [atlasInit, hsize]
  rfl

end Seraph
