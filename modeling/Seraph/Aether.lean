import Mathlib.Logic.Function.Basic
import Seraph.ByteMemory
import Seraph.Words

/-!
# Aether

Memory that is distributed over nodes, simulated in one process : every node has its own memory, a
generation that counts writes and revocations, and a directory of the nodes that share its pages.
Pages of other nodes are kept in a cache of slots, whose valid entries are in a doubly linked list,
most recently used first.

A node's memory and the copy of a page are memories of their own, so that an access outside of one
of them, or to a page that has been freed, is undefined : such a call is `none`. Vector clocks and
the counters of `seraph_aether_get_stats` decide nothing here and are left out, except that a page
does not enter the cache if its clock cannot be allocated.
-/

namespace Seraph

open ByteMem

/-- `SERAPH_AETHER_BASE`. -/
def aetherBase : ℕ := 0x0000C00000000000

/-- `SERAPH_AETHER_END`. -/
def aetherEnd : ℕ := 0x0000FFFFFFFFFFFF

/-- `SERAPH_AETHER_NODE_SHIFT`. -/
def aetherNodeShift : ℕ := 32

/-- `SERAPH_AETHER_NODE_MASK`. -/
def aetherNodeMask : ℕ := 0x00003FFF00000000

/-- `SERAPH_AETHER_OFFSET_MASK`. -/
def aetherOffsetMask : ℕ := 0x00000000FFFFFFFF

/-- `SERAPH_AETHER_PAGE_SIZE`. -/
def aetherPageSize : ℕ := 4096

/-- `SERAPH_AETHER_MAX_CACHE_ENTRIES`. -/
def aetherMaxCacheEntries : ℕ := 256

/-- `SERAPH_AETHER_MAX_SHARERS`. -/
def aetherMaxSharers : ℕ := 64

/-- `SERAPH_AETHER_MAX_SIM_NODES`. -/
def aetherMaxSimNodes : ℕ := 16

/-! ### Addresses and generations -/

/-- `seraph_aether_get_node`. -/
def aetherGetNode (addr : ℕ) : ℕ :=
  u16 ((addr &&& aetherNodeMask) >>> aetherNodeShift)

/-- `seraph_aether_get_offset`. -/
def aetherGetOffset (addr : ℕ) : ℕ :=
  addr &&& aetherOffsetMask

/-- `seraph_aether_make_addr`. -/
def aetherMakeAddr (nodeId offset : ℕ) : ℕ :=
  aetherBase ||| nodeId <<< aetherNodeShift ||| (offset &&& aetherOffsetMask)

/-- `seraph_aether_is_aether_addr`. -/
def isAetherAddr (addr : ℕ) : Bool :=
  aetherBase ≤ addr && addr ≤ aetherEnd

/-- `seraph_aether_page_align`. -/
def aetherPageAlign (addr : ℕ) : ℕ :=
  addr &&& (2 ^ 64 - 1 - (aetherPageSize - 1))

/-- `seraph_aether_page_offset`. -/
def aetherPageOffset (addr : ℕ) : ℕ :=
  addr &&& (aetherPageSize - 1)

/-- `seraph_aether_pack_global_gen`. -/
def packGlobalGen (nodeId localGen : ℕ) : ℕ :=
  nodeId <<< 48 ||| (localGen &&& 0x0000FFFFFFFFFFFF)

/-- `seraph_aether_unpack_global_gen` : the node and the local generation. -/
def unpackGlobalGen (packed : ℕ) : ℕ × ℕ :=
  (u16 (packed >>> 48), packed &&& 0x0000FFFFFFFFFFFF)

/-! ### Data -/

/-- `Seraph_Aether_Fetch_Status`. -/
inductive FetchStatus where
  | ok
  | unreachable
  | timeout
  | remoteError
  | oom
  | invalidAddr
  | permission
  | generation
  | corruption
  | notFound
  | rdmaError
  | tcpError
deriving DecidableEq, Repr

/-- `Seraph_Aether_Void_Reason`. -/
inductive AetherVoidReason where
  | none
  | timeout
  | unreachable
  | partition
  | nodeCrashed
  | permission
  | generation
  | corruption
deriving DecidableEq, Repr

/-- `Seraph_Aether_Page_State`. -/
inductive AetherPageState where
  | invalid
  | exclusive
  | shared
deriving DecidableEq, Repr

/-- `Seraph_Aether_Directory_Entry`, where `sharers` has `sharer_count` elements. -/
structure DirectoryEntry where
  offset : ℕ
  state : AetherPageState
  exclusiveOwner : ℕ
  sharers : List ℕ
  generation : ℕ
  valid : Bool

/-- `Seraph_Aether_Sim_Node`. -/
structure SimNode where
  nodeId : ℕ
  memory : Memory
  memorySize : ℕ
  generation : ℕ
  directory : ℕ → DirectoryEntry
  directoryCapacity : ℕ
  directoryCount : ℕ
  online : Bool
  injectedFailure : AetherVoidReason

/-- `Seraph_Aether_Cache_Entry`, with the numbers of slots for the links. -/
structure CacheEntry where
  aetherAddr : ℕ
  localPage : Memory
  ownerNode : ℕ
  generation : ℕ
  dirty : Bool
  valid : Bool
  lruPrev : Option ℕ
  lruNext : Option ℕ

/-- `Seraph_Aether_Cache`. -/
structure AetherCache where
  entries : ℕ → CacheEntry
  capacity : ℕ
  count : ℕ
  lruHead : Option ℕ
  lruTail : Option ℕ

/-- `Seraph_Aether`. -/
structure Aether where
  localNodeId : ℕ
  initialized : Bool
  cache : AetherCache
  simNodes : List SimNode
  invalidationsSent : ℕ

/-- `Seraph_Aether_Fetch_Result`, with the bytes that `seraph_aether_read` has copied to `dest`. -/
structure FetchResult where
  status : FetchStatus
  reason : AetherVoidReason
  generation : ℕ
  dest : ℕ → Option UInt8

/-- What the allocator answers to a read : whether there is room for a page, and for its clock. -/
structure PageRoom where
  page : Bool
  clock : Bool

/-- The `n` bytes of `src` come to offset `a`. -/
def putBytes (m : Memory) (a : ℕ) (src : ℕ → UInt8) (n : ℕ) : Memory :=
  fun x => if a ≤ x ∧ x < a + n then src (x - a) else m x

/-! ### The cache -/

namespace AetherCache

variable (c : AetherCache)

/-- `init_cache`. -/
def init (capacity : ℕ) : AetherCache where
  entries := fun _ => ⟨0, fun _ => 0, 0, 0, false, false, none, none⟩
  capacity := capacity
  count := 0
  lruHead := none
  lruTail := none

/-- Assignments to fields of one entry. -/
def modify (i : ℕ) (f : CacheEntry → CacheEntry) : AetherCache :=
  { c with entries := Function.update c.entries i (f (c.entries i)) }

/-- `if (p != NULL) p->lru_next = q`. -/
def setNext (q : Option ℕ) : Option ℕ → AetherCache
  | none => c
  | some i => c.modify i fun e => { e with lruNext := q }

/-- `if (p != NULL) p->lru_prev = q`. -/
def setPrev (q : Option ℕ) : Option ℕ → AetherCache
  | none => c
  | some i => c.modify i fun e => { e with lruPrev := q }

/-- `cache_lru_touch`. -/
def lruTouch (i : ℕ) : AetherCache :=
  if c.lruHead = some i then c
  else
    let c := c.setNext (c.entries i).lruNext (c.entries i).lruPrev
    let c := c.setPrev (c.entries i).lruPrev (c.entries i).lruNext
    let c := if c.lruTail = some i then { c with lruTail := (c.entries i).lruPrev } else c
    let c := c.modify i fun e => { e with lruPrev := none, lruNext := c.lruHead }
    let c := c.setPrev (some i) c.lruHead
    let c := { c with lruHead := some i }
    if c.lruTail = none then { c with lruTail := some i } else c

/-- `cache_lru_remove`. -/
def lruRemove (i : ℕ) : AetherCache :=
  let c := match (c.entries i).lruPrev with
    | some p => c.setNext (c.entries i).lruNext (some p)
    | none => { c with lruHead := (c.entries i).lruNext }
  let c := match (c.entries i).lruNext with
    | some n => c.setPrev (c.entries i).lruPrev (some n)
    | none => { c with lruTail := (c.entries i).lruPrev }
  c.modify i fun e => { e with lruPrev := none, lruNext := none }

/-- `cache_find_slot`. -/
def findSlot : AetherCache × Option ℕ :=
  match (List.range c.capacity).find? fun i => !(c.entries i).valid with
  | some i => (c, some i)
  | none =>
    match c.lruTail with
    | some victim =>
      let c := (c.lruRemove victim).modify victim fun e => { e with valid := false }
      ({ c with count := u64 (2 ^ 64 - 1 + c.count) }, some victim)
    | none => (c, none)

/-- `seraph_aether_cache_lookup`. -/
def lookup (addr : ℕ) : Option ℕ :=
  (List.range c.capacity).find? fun i =>
    (c.entries i).valid && (c.entries i).aetherAddr = aetherPageAlign addr

/-- `seraph_aether_cache_insert`. Without a slot or a clock the page is freed. -/
def insert (addr : ℕ) (page : Memory) (ownerNode generation : ℕ) (clock : Bool) :
    AetherCache × Option ℕ :=
  match c.lookup addr with
  | some i =>
    let c := c.modify i fun e =>
      { e with localPage := page, generation := generation, dirty := false }
    (c.lruTouch i, some i)
  | none =>
    let r := c.findSlot
    match r.2 with
    | none => (r.1, none)
    | some i =>
      let c := r.1.modify i fun e =>
        { e with
          aetherAddr := aetherPageAlign addr
          localPage := page
          ownerNode := ownerNode
          generation := generation
          dirty := false
          valid := true }
      if clock then (lruTouch { c with count := u64 (c.count + 1) } i, some i)
      else (c.modify i fun e => { e with valid := false }, none)

/-- `seraph_aether_cache_invalidate`. -/
def invalidate (addr : ℕ) : AetherCache :=
  match c.lookup addr with
  | some i =>
    let c := (c.lruRemove i).modify i fun e => { e with valid := false }
    { c with count := u64 (2 ^ 64 - 1 + c.count) }
  | none => c

/-- `seraph_aether_cache_clear`. -/
def clear : AetherCache where
  entries := fun i =>
    if i < c.capacity then { c.entries i with valid := false } else c.entries i
  capacity := c.capacity
  count := 0
  lruHead := none
  lruTail := none

end AetherCache

/-! ### Nodes and their directories -/

namespace SimNode

/-- `get_sim_memory` is not null. -/
def simMemory (node : SimNode) (offset size : ℕ) : Bool :=
  u64 (offset + size) ≤ node.memorySize

/-- `seraph_aether_get_directory_entry` on the node. -/
def getDirectoryEntry (node : SimNode) (offset : ℕ) : SimNode × Option ℕ :=
  match (List.range node.directoryCount).find? fun i =>
    (node.directory i).valid && (node.directory i).offset = aetherPageAlign offset with
  | some i => (node, some i)
  | none =>
    if node.directoryCount < node.directoryCapacity then
      ({ node with
        directory := Function.update node.directory node.directoryCount
          ⟨aetherPageAlign offset, .invalid, 0, [], node.generation, true⟩
        directoryCount := node.directoryCount + 1 }, some node.directoryCount)
    else (node, none)

end SimNode

/-- `seraph_aether_directory_add_sharer`. -/
def DirectoryEntry.addSharer (entry : DirectoryEntry) (nodeId : ℕ) : DirectoryEntry :=
  if nodeId ∈ entry.sharers then entry
  else if entry.sharers.length < aetherMaxSharers then
    { entry with sharers := entry.sharers ++ [nodeId] }
  else entry

end Seraph
