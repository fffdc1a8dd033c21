import Seraph.AetherCoherence

/-!
# Runs of Aether

Nodes are added, go down and come back; ranges are read and written; pages are cached, flushed and
dropped; capabilities are revoked; other nodes ask for pages. Every call keeps the cache coherent
(`AetherCall.coherent`), so that in every run each read that succeeds returns what was written
last (`reads_latest`), as long as reads and writes stay within a page, the writes that other nodes
ask for end below `2 ^ 64` (`PageRequest.InRange`), and the clock of a fetched page can be
allocated.
-/

namespace Seraph

open ByteMem

/-- A call of Aether. -/
inductive AetherCall where
  | addSimNode (nodeId memorySize : ℕ)
  | setNodeOnline (nodeId : ℕ) (online : Bool)
  | injectFailure (nodeId : ℕ) (reason : AetherVoidReason)
  | read (addr size : ℕ) (room : PageRoom)
  | write (addr : ℕ) (src : ℕ → UInt8) (size : ℕ)
  | cacheInvalidate (addr : ℕ)
  | cacheFlush
  | cacheClear
  | revoke (addr : ℕ)
  | request (req : PageRequest)

/-- What a call answers. -/
inductive AetherOutcome where
  | undefined
  | done
  | fetched (result : FetchResult)

namespace AetherCall

/-- A call. One that is undefined leaves the state as it is. -/
def step (s : Aether) : AetherCall → Aether × AetherOutcome
  | addSimNode nodeId memorySize => (s.addSimNode nodeId memorySize, .done)
  | setNodeOnline nodeId online => (s.setNodeOnline nodeId online, .done)
  | injectFailure nodeId reason => (s.injectFailure nodeId reason, .done)
  | read addr size room =>
    match s.read addr size room with
    | some r => (r.1, .fetched r.2)
    | none => (s, .undefined)
  | write addr src size =>
    match s.write addr src size with
    | some r => (r.1, .fetched r.2)
    | none => (s, .undefined)
  | cacheInvalidate addr => ({ s with cache := s.cache.invalidate addr }, .done)
  | cacheFlush => (s.cacheFlush.1, .done)
  | cacheClear => ({ s with cache := s.cache.clear }, .done)
  | revoke addr => ((s.revoke addr).1, .done)
  | request req =>
    match s.handleRequest req with
    | (s', some _) => (s', .done)
    | (s', none) => (s', .undefined)

/-- Ranges lie within a page, the end of a write of another node does not wrap around, and the clock
of a page that is fetched can be allocated. -/
def Allowed (_ : Aether) : AetherCall → Prop
  | read addr size room => aetherPageOffset addr + size ≤ aetherPageSize ∧ room.clock = true
  | write addr _ size => aetherPageOffset addr + size ≤ aetherPageSize
  | request req => req.InRange
  | _ => True

instance decidableAllowed (s : Aether) : DecidablePred (Allowed s)
  | read _ _ _ => inferInstanceAs (Decidable (_ ∧ _))
  | write addr _ size => inferInstanceAs (Decidable (aetherPageOffset addr + size ≤ aetherPageSize))
  | request req => inferInstanceAs (Decidable req.InRange)
  | addSimNode _ _ => inferInstanceAs (Decidable True)
  | setNodeOnline _ _ => inferInstanceAs (Decidable True)
  | injectFailure _ _ => inferInstanceAs (Decidable True)
  | cacheInvalidate _ => inferInstanceAs (Decidable True)
  | cacheFlush => inferInstanceAs (Decidable True)
  | cacheClear => inferInstanceAs (Decidable True)
  | revoke _ => inferInstanceAs (Decidable True)

/-- What a call with its answer writes to the one memory : a write that succeeds, and a write of
another node that the local memory has room for. -/
def effect (s : Aether) (call : AetherCall) (answer : AetherOutcome) (m : ℕ → ℕ → UInt8) :
    ℕ → ℕ → UInt8 :=
  match call, answer with
  | write addr src size, .fetched r =>
    if r.status = .ok then putFlat m (aetherGetNode addr) (aetherGetOffset addr) src size else m
  | request (.write _ offset data size), _ =>
    match s.findSimNode s.localNodeId with
    | some node =>
      if node.simMemory offset size then putFlat m s.localNodeId offset data size else m
    | none => m
  | _, _ => m

end AetherCall

/-- Looking for an entry changes nothing of a node but its directory. -/
theorem SimNode.getDirectoryEntry_keeps (node : SimNode) (offset : ℕ) :
    (node.getDirectoryEntry offset).1.nodeId = node.nodeId ∧
      (node.getDirectoryEntry offset).1.memory = node.memory ∧
      (node.getDirectoryEntry offset).1.memorySize = node.memorySize ∧
      (node.getDirectoryEntry offset).1.generation = node.generation := by
  rw [getDirectoryEntry]
  split
  · exact ⟨rfl, rfl, rfl, rfl⟩
  · split
    · exact ⟨rfl, rfl, rfl, rfl⟩
    · exact ⟨rfl, rfl, rfl, rfl⟩

/-- A node with the same memory replaces another one. -/
theorem Aether.flat_replaced {s : Aether} {id : ℕ} {node node' : SimNode}
    (hnode : s.findSimNode id = some node) (hid : node'.nodeId = node.nodeId)
    (hmemory : node'.memory = node.memory) :
    (s.modifyNode id fun _ => node').flat = s.flat := by
  have hnodeId := nodeId_of_findSimNode hnode
  funext other offset
  rw [flat, flat, findSimNode_modifyNode fun _ _ => hid.trans hnodeId]
  cases hother : s.findSimNode other with
  | none => rfl
  | some m =>
    simp only [Option.map_some]
    split
    · next heq =>
      have hsame := nodeId_of_findSimNode hother
      rw [← hsame, heq, hnode] at hother
      rw [hmemory, ← Option.some.inj hother]
    · rfl

/-- A read of another node replaces the local one, in which only the directory changes. -/
theorem Aether.handleReadRequest_cases (s : Aether) (requesterNode offset : ℕ) :
    (s.handleReadRequest requesterNode offset).1 = s ∨
      ∃ node node', s.findSimNode s.localNodeId = some node ∧
        (s.handleReadRequest requesterNode offset).1 =
          s.modifyNode s.localNodeId (fun _ => node') ∧
        node'.nodeId = node.nodeId ∧ node'.generation = node.generation ∧
        node'.memory = node.memory := by
  rw [handleReadRequest]
  split
  · exact .inl rfl
  · next node hnode =>
    obtain ⟨hid, hmemory, -, hgeneration⟩ := node.getDirectoryEntry_keeps offset
    dsimp only
    split
    · exact .inl rfl
    · exact .inr ⟨node, _, hnode, rfl, hid, hgeneration, hmemory⟩

/-- A write of another node replaces the local one. It is defined where the sum for its end does
not wrap around. -/
theorem Aether.handleWriteRequest_cases (s : Aether) (requesterNode offset : ℕ)
    (data : ℕ → UInt8) (size : ℕ) :
    (s.handleWriteRequest requesterNode offset data size = none ∧ ¬ offset + size < 2 ^ 64) ∨
      ∃ r, s.handleWriteRequest requesterNode offset data size = some r ∧
        ((s.findSimNode s.localNodeId = none ∧ r.1 = s) ∨
          ∃ node node' sent, s.findSimNode s.localNodeId = some node ∧
            r.1 = { s.modifyNode s.localNodeId fun _ => node' with invalidationsSent := sent } ∧
            node'.nodeId = node.nodeId ∧ node'.generation = u64 (node.generation + 1) ∧
            node'.memory = if node.simMemory offset size then
              putBytes node.memory offset data size else node.memory) := by
  rw [handleWriteRequest]
  split
  · next hnode => exact .inr ⟨_, rfl, .inl ⟨hnode, rfl⟩⟩
  · next node hnode =>
    dsimp only
    split
    · next hout =>
      refine .inl ⟨rfl, fun hrange => ?_⟩
      have hmemory := hout.1
      rw [SimNode.simMemory, u64_of_lt hrange, decide_eq_true_eq] at hmemory
      exact absurd hmemory (Nat.not_le.2 hout.2)
    · exact .inr ⟨_, rfl, .inr ⟨node, _, _, hnode, rfl,
        (node.getDirectoryEntry_keeps offset).1, rfl, rfl⟩⟩

/-- A revocation is refused and changes nothing, or it takes the generation up. -/
theorem Aether.revoke_cases (s : Aether) (addr : ℕ) :
    s.revoke addr = (s, .void) ∨
      ∃ node generation, isAetherAddr addr = true ∧
        s.findSimNode (aetherGetNode addr) = some node ∧ generation = u64 (node.generation + 1) ∧
        s.revoke addr = ((s.modifyNode (aetherGetNode addr) fun node =>
          { node with generation := generation }).broadcastInvalidation (aetherGetOffset addr)
            generation, .true) := by
  rw [revoke]
  split
  · exact .inl rfl
  · next haddr =>
    split
    · exact .inl rfl
    · next node hnode =>
      split
      · exact .inl rfl
      · exact .inr ⟨node, _, by simpa using haddr, hnode, rfl, rfl⟩

/-- A node is added, or nothing changes. -/
theorem Aether.addSimNode_cases (s : Aether) (nodeId memorySize : ℕ) :
    s.addSimNode nodeId memorySize = s ∨
      ∃ new : SimNode, s.findSimNode new.nodeId = none ∧ (new.memory = fun _ => 0) ∧
        s.addSimNode nodeId memorySize = { s with simNodes := s.simNodes ++ [new] } := by
  rw [addSimNode]
  split
  · exact .inl rfl
  · next hnew =>
    simp only [Bool.or_eq_true, not_or, Bool.not_eq_true, Option.isSome_eq_false_iff,
      Option.isNone_iff_eq_none] at hnew
    exact .inr ⟨_, hnew.2, rfl, rfl⟩

/-- Nodes that are found are found before a new one. -/
theorem Aether.findSimNode_added (s : Aether) (new : SimNode) (id : ℕ) :
    Aether.findSimNode { s with simNodes := s.simNodes ++ [new] } id =
      (s.findSimNode id).or (if new.nodeId = id then some new else none) := by
  rw [findSimNode, List.find?_append, List.find?_singleton]
  simp only [decide_eq_true_eq]
  rfl

namespace Aether.Coherent

variable {s : Aether}

/-- Assignments to a node that keep its memory, or to the local one, whose pages are not cached. -/
theorem modifyNode (h : s.Coherent) {id : ℕ} {f : SimNode → SimNode}
    (hid : ∀ node, node.nodeId = id → (f node).nodeId = id)
    (hf : id = s.localNodeId ∨ ∀ node, s.findSimNode id = some node →
      (f node).memory = node.memory ∧ (f node).memorySize = node.memorySize) :
    (s.modifyNode id f).Coherent := by
  obtain ⟨l, hrep, hl⟩ := h.cache
  refine ⟨h.initialized, (map_nodeId_modifyNode hid).symm ▸ h.nodup, l, hrep, fun p hp => ?_⟩
  refine (hl p hp).congr ⟨rfl, rfl, rfl⟩ rfl fun node hnode => ?_
  rw [findSimNode_modifyNode hid, hnode, Option.map_some]
  refine ⟨_, rfl, ?_⟩
  split
  · next hnodeId =>
    rcases hf with hlocal | hf
    · have howner := nodeId_of_findSimNode hnode
      exact absurd ((howner.symm.trans hnodeId).trans hlocal) (hl p hp).foreign
    · have howner := nodeId_of_findSimNode hnode
      exact hf node (by rw [← hnodeId, howner]; exact hnode)
  · exact ⟨rfl, rfl⟩

/-- The pages that are left mirror memory if all did. -/
theorem onCache (h : s.Coherent) (call : CacheCall)
    (hpages : ∀ l, ∀ p ∈ (call.onPages aetherMaxCacheEntries l).1, ∃ q ∈ l,
      p.aetherAddr = q.aetherAddr ∧ p.ownerNode = q.ownerNode ∧ p.localPage = q.localPage) :
    Coherent { s with cache := (call.onCache s.cache).1 } := by
  obtain ⟨l, hrep, hl⟩ := h.cache
  refine h.setCache (hrep.call call).1 fun p hp => ?_
  obtain ⟨q, hq, hinfo⟩ := hpages l p hp
  exact (hl q hq).congr hinfo rfl fun node hnode => ⟨node, hnode, rfl, rfl⟩

theorem broadcast (h : s.Coherent) (offset generation : ℕ) :
    (s.broadcastInvalidation offset generation).Coherent := by
  have hcache := h.onCache (.broadcast offset s.localNodeId generation) fun l p hp => by
    obtain ⟨q, hq, rfl⟩ := List.mem_map.1 hp
    refine ⟨q, hq, ?_⟩
    rw [PageInfo.refresh]
    split <;> exact ⟨rfl, rfl, rfl⟩
  obtain ⟨l, hrep, hl⟩ := hcache.cache
  exact ⟨h.initialized, h.nodup, l, hrep, fun p hp =>
    have hm := hl p hp
    ⟨hm.isAddr, hm.aligned, hm.owner, hm.foreign, hm.bytes⟩⟩

theorem addSimNode (h : s.Coherent) (nodeId memorySize : ℕ) :
    (s.addSimNode nodeId memorySize).Coherent ∧
      (s.addSimNode nodeId memorySize).flat = s.flat := by
  rcases s.addSimNode_cases nodeId memorySize with heq | ⟨new, habsent, hmemory, heq⟩
  · rw [heq]
    exact ⟨h, rfl⟩
  · obtain ⟨l, hrep, hl⟩ := h.cache
    rw [heq]
    refine ⟨⟨h.initialized, ?_, l, hrep, fun p hp => ?_⟩, ?_⟩
    · have hall := List.find?_eq_none.1 habsent
      rw [List.map_append]
      refine List.nodup_append.2 ⟨h.nodup, List.nodup_singleton _, fun a ha b hb heq => ?_⟩
      obtain ⟨node, hmem, rfl⟩ := List.mem_map.1 ha
      rw [List.map_singleton, List.mem_singleton] at hb
      simpa using (hall node hmem).elim (decide_eq_true (heq.trans hb))
    · refine (hl p hp).congr ⟨rfl, rfl, rfl⟩ rfl fun node hfound => ⟨node, ?_, rfl, rfl⟩
      rw [findSimNode_added, hfound, Option.some_or]
    · funext id offset
      rw [flat, flat, findSimNode_added]
      cases s.findSimNode id with
      | some node => rfl
      | none =>
        rw [Option.none_or]
        split
        · next node hnew =>
          split at hnew
          · rw [← Option.some.inj hnew, hmemory]
          · cases hnew
        · rfl

theorem revoke (h : s.Coherent) (addr : ℕ) :
    (s.revoke addr).1.Coherent ∧ (s.revoke addr).1.flat = s.flat := by
  rcases s.revoke_cases addr with heq | ⟨node, g, -, -, -, heq⟩
  · rw [heq]
    exact ⟨h, rfl⟩
  · rw [heq]
    refine ⟨(h.modifyNode (f := fun n => { n with generation := g }) (fun _ hid => hid)
      (.inr fun _ _ => ⟨rfl, rfl⟩)).broadcast _ _, ?_⟩
    exact (flat_congr rfl).trans (flat_modifyNode fun _ => ⟨rfl, rfl⟩)

/-- A node that replaces the local one. -/
theorem replaceLocal (h : s.Coherent) {node node' : SimNode}
    (hnode : s.findSimNode s.localNodeId = some node) (hid : node'.nodeId = node.nodeId) :
    (s.modifyNode s.localNodeId fun _ => node').Coherent :=
  h.modifyNode (fun _ _ => hid.trans (nodeId_of_findSimNode hnode)) (.inl rfl)

theorem handleReadRequest (h : s.Coherent) (requesterNode offset : ℕ) :
    (s.handleReadRequest requesterNode offset).1.Coherent ∧
      (s.handleReadRequest requesterNode offset).1.flat = s.flat := by
  rcases s.handleReadRequest_cases requesterNode offset with
    heq | ⟨node, node', hnode, heq, hid, -, hmemory⟩
  · rw [heq]
    exact ⟨h, rfl⟩
  · rw [heq]
    exact ⟨h.replaceLocal hnode hid, flat_replaced hnode hid hmemory⟩

theorem handleWriteRequest (h : s.Coherent) (requesterNode : ℕ) {offset size : ℕ}
    (data : ℕ → UInt8) (hrange : offset + size < 2 ^ 64) :
    ∃ r, s.handleWriteRequest requesterNode offset data size = some r ∧ r.1.Coherent ∧
      r.1.flat = AetherCall.effect s (.request (.write requesterNode offset data size)) .done
        s.flat := by
  rw [AetherCall.effect]
  rcases s.handleWriteRequest_cases requesterNode offset data size with
    ⟨-, hwraps⟩ | ⟨r, hr, ⟨hnone, heq⟩ | ⟨node, node', sent, hnode, heq, hid, -, hmemory⟩⟩
  · exact absurd hrange hwraps
  · refine ⟨r, hr, ?_⟩
    rw [heq, hnone]
    exact ⟨h, rfl⟩
  · obtain ⟨l, hrep, hl⟩ := (h.replaceLocal hnode hid).cache
    refine ⟨r, hr, ?_⟩
    rw [heq, hnode]
    refine ⟨⟨h.initialized, (h.replaceLocal hnode hid).nodup, l, hrep, fun p hp =>
      (hl p hp).congr ⟨rfl, rfl, rfl⟩ rfl fun m hm => ⟨m, hm, rfl, rfl⟩⟩, ?_⟩
    refine (flat_congr rfl).trans ?_
    dsimp only
    split
    · next hin =>
      refine flat_putBytes hnode ?_ fun _ _ => hid.trans (nodeId_of_findSimNode hnode)
      exact hmemory.trans (if_pos hin)
    · next hout => exact flat_replaced hnode hid (hmemory.trans (if_neg hout))

/-- An instance without nodes. -/
theorem init (nodeId : ℕ) : (Aether.init nodeId).Coherent :=
  ⟨rfl, List.nodup_nil, [], .init (by decide), fun _ hp => nomatch hp⟩

end Aether.Coherent

namespace AetherCall

open Runs

variable {s : Aether} {call : AetherCall}

/-- What a call does where the cache is coherent : it is defined, the cache stays coherent, the one
memory changes as the call and its answer say, and a read that succeeds returns bytes of it. -/
structure Right (s : Aether) (call : AetherCall) : Prop where
  defined : (call.step s).2 ≠ .undefined
  coherent : (call.step s).1.Coherent
  flat : (call.step s).1.flat = call.effect s (call.step s).2 s.flat
  reads : ∀ addr size room, call = .read addr size room → ∃ r, (call.step s).2 = .fetched r ∧
    (r.status = .ok → ∀ k < size,
      r.dest k = some (s.flat (aetherGetNode addr) (aetherGetOffset addr + k)))

/-- A call that does not read. -/
theorem Right.of_step {r : Aether × AetherOutcome} (hstep : call.step s = r)
    (hdefined : r.2 ≠ .undefined) (hcoherent : r.1.Coherent)
    (hflat : r.1.flat = call.effect s r.2 s.flat)
    (hreads : ∀ addr size room, call ≠ .read addr size room) : call.Right s := by
  subst hstep
  exact ⟨hdefined, hcoherent, hflat, fun addr size room heq => absurd heq (hreads addr size room)⟩

theorem coherent (h : s.Coherent) (hallowed : call.Allowed s) : call.Right s := by
  cases call with
  | addSimNode nodeId memorySize =>
    obtain ⟨hcoherent, hflat⟩ := h.addSimNode nodeId memorySize
    exact .of_step rfl nofun hcoherent hflat nofun
  | setNodeOnline nodeId online =>
    exact .of_step rfl nofun (h.modifyNode (fun _ hid => hid) (.inr fun _ _ => ⟨rfl, rfl⟩))
      (Aether.flat_modifyNode fun _ => ⟨rfl, rfl⟩) nofun
  | injectFailure nodeId reason =>
    exact .of_step rfl nofun (h.modifyNode (fun _ hid => hid) (.inr fun _ _ => ⟨rfl, rfl⟩))
      (Aether.flat_modifyNode fun _ => ⟨rfl, rfl⟩) nofun
  | read addr size room =>
    obtain ⟨c, r, heq, hcoherent, hreads⟩ := h.read hallowed.1 hallowed.2
    have hstep : step s (.read addr size room) = ({ s with cache := c }, .fetched r) := by
      rw [step, heq]
    refine ⟨?_, ?_, ?_, fun addr' size' room' hcall => ?_⟩
    · rw [hstep]
      exact nofun
    · rw [hstep]
      exact hcoherent
    · rw [hstep]
      exact Aether.flat_congr rfl
    · cases hcall
      rw [hstep]
      exact ⟨r, rfl, hreads⟩
  | write addr src size =>
    obtain ⟨s', r, heq, hcoherent, hflat⟩ := h.write src hallowed
    exact .of_step (r := (s', .fetched r)) (by rw [step, heq]) nofun hcoherent hflat nofun
  | cacheInvalidate addr =>
    refine .of_step rfl nofun (h.onCache (.invalidate addr) fun l p hp => ?_)
      (Aether.flat_congr rfl) nofun
    exact ⟨p, (Recency.mem_drop.1 hp).1, rfl, rfl, rfl⟩
  | cacheFlush =>
    obtain ⟨c, heq, hcoherent⟩ := h.cacheFlush
    exact .of_step (r := ({ s with cache := c }, .done)) (by rw [step, heq]) nofun hcoherent
      (Aether.flat_congr rfl) nofun
  | cacheClear =>
    exact .of_step rfl nofun (h.onCache .clear fun _ _ hp => nomatch hp) (Aether.flat_congr rfl)
      nofun
  | revoke addr =>
    obtain ⟨hcoherent, hflat⟩ := h.revoke addr
    exact .of_step rfl nofun hcoherent hflat nofun
  | request req =>
    cases req with
    | read requesterNode offset =>
      obtain ⟨hcoherent, hflat⟩ := h.handleReadRequest requesterNode offset
      exact .of_step rfl nofun hcoherent hflat nofun
    | write requesterNode offset data size =>
      obtain ⟨r, hr, hcoherent, hflat⟩ := h.handleWriteRequest requesterNode data hallowed
      exact .of_step (r := (r.1, .done)) (by rw [step, Aether.handleRequest, hr]) nofun hcoherent
        hflat nofun

/-- The one memory after the calls of a run, by what they write to it. -/
def latest (nodeId : ℕ) (as : List AetherCall) : ℕ → ℕ → UInt8 :=
  (calls step (Aether.init nodeId) as).foldl (fun m c => c.op.effect c.before c.result m)
    fun _ _ => 0

theorem run_coherent {nodeId : ℕ} {as : List AetherCall}
    (hg : Guarded step Allowed (Aether.init nodeId) as) :
    (run step (Aether.init nodeId) as).Coherent :=
  guarded_invariant (I := Aether.Coherent)
    (fun _ _ h hallowed => (coherent h hallowed).coherent) (.init nodeId) hg

/-- The one memory is what the calls have written to it. -/
theorem flat_run {nodeId : ℕ} {as : List AetherCall}
    (hg : Guarded step Allowed (Aether.init nodeId) as) :
    (run step (Aether.init nodeId) as).flat = latest nodeId as := by
  induction as using List.reverseRecOn with
  | nil => rfl
  | append_singleton as call ih =>
    obtain ⟨hbefore, hallowed⟩ := guarded_concat.1 hg
    have hright := coherent (run_coherent hbefore) hallowed
    rw [run_concat, hright.flat, ih hbefore]
    simp only [latest, calls_concat, List.foldl_append, List.foldl_cons, List.foldl_nil]

/-- In every run, a call that is allowed is defined, and a read that succeeds returns what was
written last to each of its bytes, through the cache or by another node, or zero. -/
theorem reads_latest {nodeId : ℕ} {as : List AetherCall} {addr size : ℕ} {room : PageRoom}
    (hg : Guarded step Allowed (Aether.init nodeId) (as ++ [.read addr size room])) :
    (∀ c ∈ calls step (Aether.init nodeId) as, c.result ≠ .undefined) ∧
      ∃ r, (step (run step (Aether.init nodeId) as) (.read addr size room)).2 = .fetched r ∧
        (r.status = .ok → ∀ k < size,
          r.dest k = some (latest nodeId as (aetherGetNode addr) (aetherGetOffset addr + k))) := by
  obtain ⟨hbefore, hallowed⟩ := guarded_concat.1 hg
  refine ⟨?_, ?_⟩
  · exact guarded_calls (I := Aether.Coherent)
      (fun _ _ h hallowed => (coherent h hallowed).coherent)
      (fun _ _ h hallowed => (coherent h hallowed).defined) (.init nodeId) hbefore
  · obtain ⟨r, hr, hreads⟩ :=
      (coherent (run_coherent hbefore) hallowed).reads addr size room rfl
    refine ⟨r, hr, fun hok k hk => ?_⟩
    rw [hreads hok k hk, flat_run hbefore]

/-- A page of node 5 is fetched, written to in the cache and in memory, and read again. -/
def cachedPage : List AetherCall :=
  [.addSimNode 0 8192, .addSimNode 5 8192, .read 0xC00500000010 4 ⟨true, true⟩,
    .write 0xC00500000010 (fun _ => 7) 2, .write 0xC00500000011 (fun _ => 9) 1, .cacheFlush]

theorem reads_latest_cachedPage :
    ∃ r, (step (run step (Aether.init 0) cachedPage) (.read 0xC00500000010 3 ⟨true, true⟩)).2 =
        .fetched r ∧
      (r.status = .ok → r.dest 0 = some 7 ∧ r.dest 1 = some 9 ∧ r.dest 2 = some 0) := by
  obtain ⟨-, r, hr, hreads⟩ := reads_latest
    (show Guarded step Allowed (Aether.init 0)
      (cachedPage ++ [.read 0xC00500000010 3 ⟨true, true⟩]) by decide)
  refine ⟨r, hr, fun hok => ⟨?_, ?_, ?_⟩⟩
  · exact (hreads hok 0 (by decide)).trans (congrArg some (by decide))
  · exact (hreads hok 1 (by decide)).trans (congrArg some (by decide))
  · exact (hreads hok 2 (by decide)).trans (congrArg some (by decide))

end AetherCall

end Seraph
