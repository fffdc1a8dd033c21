import Seraph.Aether

/-!
# The calls of Aether

Reads and writes go through the cache, to the memory of the local node, or to that of another node.
`none` is a call with an access outside of the memory or the page that it works on, which C leaves
undefined.
-/

namespace Seraph

open ByteMem

namespace Aether

variable (s : Aether)

/-- `find_sim_node`. -/
def findSimNode (nodeId : ℕ) : Option SimNode :=
  s.simNodes.find? fun node => node.nodeId = nodeId

/-- Assignments to fields of the node with a number. -/
def modifyNode (nodeId : ℕ) (f : SimNode → SimNode) : Aether :=
  { s with simNodes := s.simNodes.map fun node => if node.nodeId = nodeId then f node else node }

/-- `seraph_aether_init`. -/
def init (nodeId : ℕ) : Aether where
  localNodeId := nodeId
  initialized := true
  cache := .init aetherMaxCacheEntries
  simNodes := []
  invalidationsSent := 0

/-- A directory entry of zeros. -/
def noEntry : DirectoryEntry :=
  ⟨0, .invalid, 0, [], 0, false⟩

/-- `seraph_aether_add_sim_node`. -/
def addSimNode (nodeId memorySize : ℕ) : Aether :=
  if !s.initialized || s.simNodes.length ≥ aetherMaxSimNodes || (s.findSimNode nodeId).isSome then s
  else
    { s with
      simNodes := s.simNodes ++
        [⟨nodeId, fun _ => 0, memorySize, 1, fun _ => noEntry, 256, 0, true, .none⟩] }

/-- `seraph_aether_set_node_online`. -/
def setNodeOnline (nodeId : ℕ) (online : Bool) : Aether :=
  s.modifyNode nodeId fun node => { node with online := online }

/-- `seraph_aether_inject_failure`, and `seraph_aether_clear_failure` for no reason. -/
def injectFailure (nodeId : ℕ) (reason : AetherVoidReason) : Aether :=
  s.modifyNode nodeId fun node => { node with injectedFailure := reason }

/-- `seraph_aether_broadcast_invalidation`. -/
def broadcastInvalidation (offset newGeneration : ℕ) : Aether :=
  { s with
    cache := { s.cache with
      entries := fun i =>
        let entry := s.cache.entries i
        if i < s.cache.capacity ∧ entry.valid = true ∧ aetherGetOffset entry.aetherAddr = offset ∧
            entry.ownerNode = s.localNodeId then
          { entry with generation := newGeneration }
        else entry }
    invalidationsSent := u64 (s.invalidationsSent + 1) }

/-! ### Reading and writing -/

/-- A result without data. -/
def failed (status : FetchStatus) (reason : AetherVoidReason) : FetchResult :=
  ⟨status, reason, 0, fun _ => none⟩

/-- The first `n` bytes of `dest` are filled from `src` at offset `a`. -/
def fillDest (src : Memory) (a n : ℕ) : ℕ → Option UInt8 :=
  fun i => if i < n then some (src (a + i)) else none

/-- The copy from a page to `dest` : it stops at the end of the page, where the sum that finds
the end wraps around it does not. -/
def copyFromPage (page : Memory) (generation addr size : ℕ) : Option FetchResult :=
  let pageOff := aetherPageOffset addr
  let copySize := if u64 (pageOff + size) > aetherPageSize then aetherPageSize - pageOff else size
  if pageOff + copySize ≤ aetherPageSize then
    some ⟨.ok, .none, generation, fillDest page pageOff copySize⟩
  else none

/-- `fetch_from_sim_node` : a copy of the page, and the generation of the node. -/
def fetchFromSimNode (nodeId offset : ℕ) (pageRoom : Bool) : Except FetchResult (Memory × ℕ) :=
  match s.findSimNode nodeId with
  | none => .error (failed .unreachable .unreachable)
  | some node =>
    if node.injectedFailure ≠ .none then .error (failed .remoteError node.injectedFailure)
    else if !node.online then .error (failed .unreachable .nodeCrashed)
    else if !node.simMemory (aetherPageAlign offset) aetherPageSize then
      .error (failed .notFound .none)
    else if !pageRoom then .error (failed .oom .none)
    else .ok (fun i => node.memory (aetherPageAlign offset + i), node.generation)

/-- The node whose memory `seraph_aether_read` copies from without a page : the local one, if the
range is in it. -/
def directNode (addr size : ℕ) : Option SimNode :=
  if aetherGetNode addr = s.localNodeId then
    (s.findSimNode (aetherGetNode addr)).filter fun node =>
      node.simMemory (aetherGetOffset addr) size
  else none

/-- `seraph_aether_read`. -/
def read (addr size : ℕ) (room : PageRoom) : Option (Aether × FetchResult) :=
  if !s.initialized || size = 0 || !isAetherAddr addr then
    some (s, failed .invalidAddr .none)
  else
    match s.cache.lookup addr with
    | some i =>
      let entry := s.cache.entries i
      (copyFromPage entry.localPage entry.generation addr size).map fun result =>
        ({ s with cache := s.cache.lruTouch i }, result)
    | none =>
      match s.directNode addr size with
      | some node =>
        let offset := aetherGetOffset addr
        if offset + size ≤ node.memorySize then
          some (s, ⟨.ok, .none, node.generation, fillDest node.memory offset size⟩)
        else none
      | none =>
        match s.fetchFromSimNode (aetherGetNode addr) (aetherGetOffset addr) room.page with
        | .error result => some (s, result)
        | .ok (page, generation) =>
          let r := s.cache.insert (aetherPageAlign addr) page (aetherGetNode addr) generation
            room.clock
          -- without an entry the page has been freed before it is copied
          match r.2 with
          | some _ => (copyFromPage page generation addr size).map fun result =>
            ({ s with cache := r.1 }, result)
          | none => none

/-- The update of a cached page by `seraph_aether_write`. -/
def updateCached (addr : ℕ) (src : ℕ → UInt8) (size generation : ℕ) : Option Aether :=
  match s.cache.lookup addr with
  | some i =>
    if aetherPageOffset addr + size ≤ aetherPageSize then
      some { s with
        cache := s.cache.modify i fun e =>
          { e with
            localPage := putBytes e.localPage (aetherPageOffset addr) src size
            dirty := true
            generation := generation } }
    else none
  | none => some s

/-- `seraph_aether_write`. -/
def write (addr : ℕ) (src : ℕ → UInt8) (size : ℕ) : Option (Aether × FetchResult) :=
  if !s.initialized || size = 0 || !isAetherAddr addr then
    some (s, failed .invalidAddr .none)
  else
    let nodeId := aetherGetNode addr
    let offset := aetherGetOffset addr
    match s.findSimNode nodeId with
    | none => some (s, failed .unreachable .unreachable)
    | some node =>
      if node.injectedFailure ≠ .none then some (s, failed .remoteError node.injectedFailure)
      else if !node.online then some (s, failed .unreachable .nodeCrashed)
      else if !node.simMemory offset size then some (s, failed .notFound .none)
      else if offset + size ≤ node.memorySize then
        let generation := u64 (node.generation + 1)
        let s := (s.broadcastInvalidation offset generation).modifyNode nodeId fun node =>
          { node with memory := putBytes node.memory offset src size, generation := generation }
        (s.updateCached addr src size generation).map fun s =>
          (s, ⟨.ok, .none, generation, fun _ => none⟩)
      else none

/-! ### The cache -/

/-- The round of `seraph_aether_cache_flush` for one slot, with the pages that were flushed. -/
def flushEntry (r : Aether × ℕ) (i : ℕ) : Aether × ℕ :=
  let s := r.1
  let entry := s.cache.entries i
  if entry.valid && entry.dirty then
    match s.findSimNode entry.ownerNode with
    | some owner =>
      let offset := aetherGetOffset entry.aetherAddr
      if owner.online && owner.simMemory offset aetherPageSize then
        ({ s.modifyNode entry.ownerNode fun node =>
            { node with memory := putBytes node.memory offset entry.localPage aetherPageSize } with
          cache := s.cache.modify i fun e => { e with dirty := false } }, u32 (r.2 + 1))
      else r
    | none => r
  else r

/-- `seraph_aether_cache_flush`. -/
def cacheFlush : Aether × ℕ :=
  (List.range s.cache.capacity).foldl flushEntry (s, 0)

/-! ### Generations -/

/-- `seraph_aether_get_generation`. -/
def getGeneration (addr : ℕ) : ℕ :=
  if !isAetherAddr addr then voidU64
  else
    match s.findSimNode (aetherGetNode addr) with
    | some node => node.generation
    | none => voidU64

/-- `seraph_aether_check_generation`. -/
def checkGeneration (addr expectedGen : ℕ) : Vbit :=
  if s.getGeneration addr = voidU64 then .void
  else if (unpackGlobalGen expectedGen).1 ≠ aetherGetNode addr then .false
  else if (unpackGlobalGen expectedGen).2 ≠ s.getGeneration addr then .false
  else .true

/-- `seraph_aether_revoke`. -/
def revoke (addr : ℕ) : Aether × Vbit :=
  if !isAetherAddr addr then (s, .void)
  else
    match s.findSimNode (aetherGetNode addr) with
    | none => (s, .void)
    | some node =>
      if !node.online then (s, .void)
      else
        let generation := u64 (node.generation + 1)
        let s := s.modifyNode (aetherGetNode addr) fun node =>
          { node with generation := generation }
        (s.broadcastInvalidation (aetherGetOffset addr) generation, .true)

/-- `seraph_aether_get_global_gen`. -/
def getGlobalGen (addr : ℕ) : ℕ :=
  if !isAetherAddr addr then voidU64
  else if s.getGeneration addr = voidU64 then voidU64
  else packGlobalGen (aetherGetNode addr) (s.getGeneration addr)

end Aether

/-! ### Requests of other nodes -/

/-- `Seraph_Aether_Response_Status`. -/
inductive ResponseStatus where
  | ok
  | error
  | denied
  | notFound
  | stale
deriving DecidableEq, Repr

/-- `Seraph_Aether_Response`, with the offset that the page data is at. -/
structure AetherResponse where
  status : ResponseStatus
  generation : ℕ
  pageData : Option ℕ
  dataSize : ℕ

/-- A request of another node. -/
inductive PageRequest where
  | read (requesterNode offset : ℕ)
  | write (requesterNode offset : ℕ) (data : ℕ → UInt8) (size : ℕ)

/-- The sharers that a write sends an invalidation to. -/
def DirectoryEntry.invalidated (entry : DirectoryEntry) (requesterNode : ℕ) : List ℕ :=
  entry.sharers.filter fun sharer => sharer ≠ requesterNode

/-- What a read leaves in its entry. -/
def DirectoryEntry.share (entry : DirectoryEntry) (requesterNode : ℕ) : DirectoryEntry :=
  { entry.addSharer requesterNode with state := .shared }

/-- What a write leaves in its entry. -/
def DirectoryEntry.claim (entry : DirectoryEntry) (requesterNode : ℕ) : DirectoryEntry :=
  { entry with sharers := [], state := .exclusive, exclusiveOwner := requesterNode }

namespace Aether

variable (s : Aether)

/-- A response without data. -/
def refused (status : ResponseStatus) : AetherResponse :=
  ⟨status, 0, none, 0⟩

/-- `seraph_aether_handle_read_request`. -/
def handleReadRequest (requesterNode offset : ℕ) : Aether × AetherResponse :=
  match s.findSimNode s.localNodeId with
  | none => (s, refused .error)
  | some node =>
    let r := node.getDirectoryEntry offset
    match r.2 with
    | none => (s, refused .notFound)
    | some i =>
      let entry := (r.1.directory i).share requesterNode
      let pageData := if node.simMemory offset aetherPageSize then some offset else none
      (s.modifyNode s.localNodeId fun _ =>
          { r.1 with directory := Function.update r.1.directory i entry },
        ⟨.ok, node.generation, pageData, aetherPageSize⟩)

/-- `seraph_aether_handle_write_request`. -/
def handleWriteRequest (requesterNode offset : ℕ) (data : ℕ → UInt8) (size : ℕ) :
    Option (Aether × AetherResponse) :=
  match s.findSimNode s.localNodeId with
  | none => some (s, refused .error)
  | some node =>
    let r := node.getDirectoryEntry offset
    let directory := match r.2 with
      | some i => Function.update r.1.directory i ((r.1.directory i).claim requesterNode)
      | none => r.1.directory
    let sent := match r.2 with
      | some i => ((r.1.directory i).invalidated requesterNode).length
      | none => 0
    let memory := if node.simMemory offset size then putBytes node.memory offset data size
      else node.memory
    let generation := u64 (node.generation + 1)
    if node.simMemory offset size ∧ node.memorySize < offset + size then none
    else
      some ({ s.modifyNode s.localNodeId fun _ =>
          { r.1 with directory := directory, memory := memory, generation := generation } with
        invalidationsSent := u64 (s.invalidationsSent + sent) }, ⟨.ok, generation, none, 0⟩)

/-- The answer to a request. A call with an access outside of the memory has none. -/
def handleRequest : PageRequest → Aether × Option AetherResponse
  | .read requesterNode offset =>
    let r := s.handleReadRequest requesterNode offset
    (r.1, some r.2)
  | .write requesterNode offset data size =>
    match s.handleWriteRequest requesterNode offset data size with
    | some r => (r.1, some r.2)
    | none => (s, none)

end Aether

namespace PageRequest

/-- The sum with which the end of a write is found does not wrap around. -/
def InRange : PageRequest → Prop
  | read _ _ => True
  | write _ offset _ size => offset + size < 2 ^ 64

instance decidableInRange : DecidablePred InRange
  | read _ _ => inferInstanceAs (Decidable True)
  | write _ offset _ size => inferInstanceAs (Decidable (offset + size < 2 ^ 64))

end PageRequest

namespace Aether

variable {s : Aether}

/-- Assignments to one node. -/
theorem findSimNode_modifyNode {id : ℕ} {f : SimNode → SimNode}
    (hf : ∀ node, node.nodeId = id → (f node).nodeId = id) (other : ℕ) :
    (s.modifyNode id f).findSimNode other =
      (s.findSimNode other).map fun node => if node.nodeId = id then f node else node := by
  rw [findSimNode, findSimNode, modifyNode, List.find?_map]
  congr 2
  funext node
  by_cases h : node.nodeId = id
  · simp [h, hf node h]
  · simp [h]

theorem nodeId_of_findSimNode {id : ℕ} {node : SimNode} (h : s.findSimNode id = some node) :
    node.nodeId = id := by
  simpa using List.find?_some h

end Aether

end Seraph
