import Seraph.AetherCacheRuns
import Seraph.AetherCalls

/-!
# The coherence of the page cache

`Aether.flat` : the memories of all nodes as one memory. `PageInfo.Mirrors` : a cached page has the
bytes of the memory of its owner, which is another node. A state is `Coherent` if all valid entries
of its cache do. Then a read within one page returns the bytes of the one memory and changes
nothing in it, whether it finds the page in the cache, reads the memory of the local node, or
fetches the page (`Coherent.read`); a write within one page changes the bytes in its range, in the
memory and in the cached page alike (`Coherent.write`); and to write dirty pages back changes
nothing at all (`Coherent.cacheFlush`).
-/

namespace Seraph

open ByteMem

/-! ## Addresses -/

theorem aetherGetNode_eq (addr : ℕ) : aetherGetNode addr = addr / 2 ^ 32 % 2 ^ 14 := by
  have hmask : aetherNodeMask >>> aetherNodeShift = 2 ^ 14 - 1 := by decide
  rw [aetherGetNode, Nat.shiftRight_and_distrib, hmask, Nat.and_two_pow_sub_one_eq_mod,
    Nat.shiftRight_eq_div_pow, u16_of_lt]
  · rfl
  · exact (Nat.mod_lt _ (by norm_num)).trans (by norm_num)

theorem aetherGetOffset_eq (addr : ℕ) : aetherGetOffset addr = addr % 2 ^ 32 :=
  Nat.and_two_pow_sub_one_eq_mod addr 32

theorem aetherPageOffset_eq (addr : ℕ) : aetherPageOffset addr = addr % 4096 :=
  Nat.and_two_pow_sub_one_eq_mod addr 12

theorem aetherPageAlign_eq {addr : ℕ} (h : addr < 2 ^ 64) :
    aetherPageAlign addr = addr / 4096 * 4096 :=
  and_clear_low (k := 12) h (by norm_num)

/-- The addresses of Aether are made of a node and an offset. -/
theorem isAetherAddr_iff (addr : ℕ) :
    isAetherAddr addr = true ↔
      addr = 3 * 2 ^ 46 + aetherGetNode addr * 2 ^ 32 + aetherGetOffset addr := by
  rw [aetherGetNode_eq, aetherGetOffset_eq, isAetherAddr, Bool.and_eq_true, decide_eq_true_eq,
    decide_eq_true_eq, aetherBase, aetherEnd]
  omega

theorem isAetherAddr_lt {addr : ℕ} (h : isAetherAddr addr = true) : addr < 2 ^ 64 := by
  rw [isAetherAddr, Bool.and_eq_true, decide_eq_true_eq, decide_eq_true_eq, aetherEnd] at h
  omega

/-- The page of an address of Aether, as an address. -/
theorem pageAlign_spec {addr : ℕ} (h : isAetherAddr addr = true) :
    isAetherAddr (aetherPageAlign addr) = true ∧
      aetherPageAlign (aetherPageAlign addr) = aetherPageAlign addr ∧
      aetherGetNode (aetherPageAlign addr) = aetherGetNode addr ∧
      aetherGetOffset (aetherPageAlign addr) + aetherPageOffset addr = aetherGetOffset addr ∧
      aetherPageAlign (aetherGetOffset addr) = aetherGetOffset (aetherPageAlign addr) := by
  have hlt := isAetherAddr_lt h
  have hoffset : aetherGetOffset addr < 2 ^ 64 := by
    rw [aetherGetOffset_eq]
    omega
  rw [isAetherAddr, Bool.and_eq_true, decide_eq_true_eq, decide_eq_true_eq, aetherBase,
    aetherEnd] at h
  rw [aetherPageAlign_eq hlt, aetherPageAlign_eq (by omega), aetherPageAlign_eq hoffset,
    aetherGetNode_eq, aetherGetNode_eq, aetherGetOffset_eq, aetherGetOffset_eq,
    aetherPageOffset_eq, isAetherAddr, Bool.and_eq_true, decide_eq_true_eq, decide_eq_true_eq,
    aetherBase, aetherEnd]
  omega

/-- Two pages of one node that are not the same have no byte in common. -/
theorem pages_apart {a b : ℕ} (ha : isAetherAddr a = true) (hb : isAetherAddr b = true)
    (hpage : aetherPageAlign a = a) (hnode : aetherGetNode a = aetherGetNode b)
    (hne : a ≠ aetherPageAlign b) :
    aetherGetOffset a + 4096 ≤ aetherGetOffset (aetherPageAlign b) ∨
      aetherGetOffset (aetherPageAlign b) + 4096 ≤ aetherGetOffset a := by
  have ha' := (isAetherAddr_iff a).1 ha
  obtain ⟨hb', -, hnode', -, -⟩ := pageAlign_spec hb
  have hb'' := (isAetherAddr_iff _).1 hb'
  have hmod : a % 4096 = 0 := by
    rw [aetherPageAlign_eq (isAetherAddr_lt ha)] at hpage
    omega
  have hmod' : aetherPageAlign b % 4096 = 0 := by
    rw [aetherPageAlign_eq (isAetherAddr_lt hb), Nat.mul_mod_left]
  rw [hnode', ← hnode] at hb''
  omega

/-! ## One memory -/

/-- The memories of all nodes, by node and offset. A node that is not there has none. -/
def Aether.flat (s : Aether) (nodeId offset : ℕ) : UInt8 :=
  match s.findSimNode nodeId with
  | some node => node.memory offset
  | none => 0

/-- `n` bytes come to an offset of a node. -/
def putFlat (m : ℕ → ℕ → UInt8) (nodeId offset : ℕ) (src : ℕ → UInt8) (n : ℕ) : ℕ → ℕ → UInt8 :=
  Function.update m nodeId (putBytes (m nodeId) offset src n)

/-- A cached page is a page of another node, with the bytes that are there. -/
structure PageInfo.Mirrors (p : PageInfo) (s : Aether) : Prop where
  isAddr : isAetherAddr p.aetherAddr = true
  aligned : aetherPageAlign p.aetherAddr = p.aetherAddr
  owner : p.ownerNode = aetherGetNode p.aetherAddr
  foreign : p.ownerNode ≠ s.localNodeId
  bytes : ∃ node, s.findSimNode p.ownerNode = some node ∧
    aetherGetOffset p.aetherAddr + aetherPageSize ≤ node.memorySize ∧
    ∀ k < aetherPageSize, p.localPage k = node.memory (aetherGetOffset p.aetherAddr + k)

/-- The cache holds what the nodes do. -/
structure Aether.Coherent (s : Aether) : Prop where
  initialized : s.initialized = true
  nodup : (s.simNodes.map SimNode.nodeId).Nodup
  cache : ∃ l, Represents aetherMaxCacheEntries s.cache l ∧ ∀ p ∈ l, p.Mirrors s

namespace PageInfo.Mirrors

variable {p p' : PageInfo} {s s' : Aether}

/-- The generation and the mark of a page do not matter, nor does anything of a node but its
memory. -/
theorem congr (h : p.Mirrors s) (hinfo : p'.aetherAddr = p.aetherAddr ∧
      p'.ownerNode = p.ownerNode ∧ p'.localPage = p.localPage)
    (hlocal : s'.localNodeId = s.localNodeId)
    (hnodes : ∀ node, s.findSimNode p.ownerNode = some node → ∃ node',
      s'.findSimNode p.ownerNode = some node' ∧ node'.memory = node.memory ∧
      node'.memorySize = node.memorySize) : p'.Mirrors s' := by
  obtain ⟨haddr, howner, hpage⟩ := hinfo
  obtain ⟨node, hnode, hsize, hbytes⟩ := h.bytes
  obtain ⟨node', hnode', hmemory, hsize'⟩ := hnodes node hnode
  refine ⟨haddr ▸ h.isAddr, haddr ▸ h.aligned, ?_, ?_, node', howner ▸ hnode', ?_, ?_⟩
  · rw [howner, haddr, h.owner]
  · rw [howner, hlocal]
    exact h.foreign
  · rw [haddr, hsize']
    exact hsize
  · rw [hpage, haddr, hmemory]
    exact hbytes

end PageInfo.Mirrors

namespace Aether

variable {s s' : Aether}

/-- Every node of the list is found by its number. -/
theorem findSimNode_of_mem (h : (s.simNodes.map SimNode.nodeId).Nodup) {node : SimNode}
    (hnode : node ∈ s.simNodes) : s.findSimNode node.nodeId = some node := by
  cases hfind : s.findSimNode node.nodeId with
  | none => simpa using List.find?_eq_none.1 hfind node hnode
  | some node' =>
    have hmem : node' ∈ s.simNodes := List.mem_of_find?_eq_some hfind
    rw [List.inj_on_of_nodup_map h hmem hnode (nodeId_of_findSimNode hfind)]

/-- The numbers of the nodes do not change. -/
theorem map_nodeId_modifyNode {id : ℕ} {f : SimNode → SimNode}
    (hf : ∀ node, node.nodeId = id → (f node).nodeId = id) :
    (s.modifyNode id f).simNodes.map SimNode.nodeId = s.simNodes.map SimNode.nodeId := by
  rw [modifyNode, List.map_map]
  refine List.map_congr_left fun node _ => ?_
  by_cases h : node.nodeId = id
  · simp [h, hf node h]
  · simp [h]

/-- What does not touch memory does not change the one memory. -/
theorem flat_modifyNode {id : ℕ} {f : SimNode → SimNode}
    (hf : ∀ node, (f node).nodeId = node.nodeId ∧ (f node).memory = node.memory) :
    (s.modifyNode id f).flat = s.flat := by
  funext nodeId offset
  rw [flat, flat, findSimNode_modifyNode fun node h => (hf node).1.trans h]
  cases s.findSimNode nodeId with
  | none => rfl
  | some node =>
    simp only [Option.map_some]
    split
    · rw [(hf node).2]
    · rfl

/-- A node that is written to. -/
theorem flat_putBytes {id offset size : ℕ} {src : ℕ → UInt8} {node : SimNode}
    {f : SimNode → SimNode} (hnode : s.findSimNode id = some node)
    (hf : (f node).memory = putBytes node.memory offset src size)
    (hid : ∀ node, node.nodeId = id → (f node).nodeId = id) :
    (s.modifyNode id f).flat = putFlat s.flat id offset src size := by
  have hnodeId := nodeId_of_findSimNode hnode
  funext nodeId x
  rw [flat, findSimNode_modifyNode hid]
  by_cases h : nodeId = id
  · rw [h, hnode, putFlat, Function.update_self, Option.map_some, if_pos hnodeId]
    simp only [hf, flat, hnode, putBytes]
  · rw [putFlat, Function.update_of_ne h, flat]
    cases hfind : s.findSimNode nodeId with
    | none => rfl
    | some other =>
      have hother := nodeId_of_findSimNode hfind
      rw [Option.map_some, if_neg fun heq => h (hother.symm.trans heq)]

theorem flat_congr (h : s'.simNodes = s.simNodes) : s'.flat = s.flat := by
  funext nodeId offset
  rw [flat, flat, findSimNode, findSimNode, h]

/-- Within one page, all bytes come from it. -/
theorem copyFromPage_eq {addr size : ℕ} (hpage : aetherPageOffset addr + size ≤ aetherPageSize)
    (page : Memory) (generation : ℕ) :
    copyFromPage page generation addr size =
      some ⟨.ok, .none, generation, fillDest page (aetherPageOffset addr) size⟩ := by
  have hsum : u64 (aetherPageOffset addr + size) = aetherPageOffset addr + size := by
    refine u64_of_lt (hpage.trans_lt ?_)
    rw [aetherPageSize]
    norm_num
  rw [copyFromPage, hsum]
  rw [if_neg (Nat.not_lt.2 hpage), if_pos hpage]

/-- The bytes of a page that mirrors memory. -/
theorem flat_of_mirrors {p : PageInfo} (hp : p.Mirrors s) {addr size : ℕ}
    (haddr : isAetherAddr addr = true)
    (hpage : aetherPageOffset addr + size ≤ aetherPageSize)
    (heq : p.aetherAddr = aetherPageAlign addr) {k : ℕ} (hk : k < size) :
    p.localPage (aetherPageOffset addr + k) =
      s.flat (aetherGetNode addr) (aetherGetOffset addr + k) := by
  obtain ⟨node, hnode, -, hbytes⟩ := hp.bytes
  obtain ⟨-, -, hid, hoffset, -⟩ := pageAlign_spec haddr
  have howner := hp.owner
  rw [heq, hid] at howner
  rw [howner] at hnode
  rw [hbytes _ (by omega), heq, ← Nat.add_assoc, hoffset, flat, hnode]

/-- A range within one page that is in the memory of a node. -/
theorem fits_of_simMemory {node : SimNode} {addr size : ℕ}
    (h : node.simMemory (aetherGetOffset addr) size = true)
    (hpage : aetherPageOffset addr + size ≤ aetherPageSize) :
    aetherGetOffset addr + size ≤ node.memorySize := by
  have hlt := Nat.mod_lt addr (show 2 ^ 32 > 0 by norm_num)
  have hsize : aetherPageSize = 4096 := rfl
  rwa [SimNode.simMemory, decide_eq_true_eq, aetherGetOffset_eq, u64_of_lt (by omega),
    ← aetherGetOffset_eq] at h

/-- What is fetched is a page of the memory of a node. -/
theorem fetchFromSimNode_cases (s : Aether) (nodeId offset : ℕ) (room : Bool) :
    (∃ r, s.fetchFromSimNode nodeId offset room = .error r ∧ r.status ≠ .ok) ∨
      ∃ node, s.findSimNode nodeId = some node ∧
        node.simMemory (aetherPageAlign offset) aetherPageSize = true ∧
        s.fetchFromSimNode nodeId offset room =
          .ok (fun i => node.memory (aetherPageAlign offset + i), node.generation) := by
  rw [fetchFromSimNode]
  split
  · exact .inl ⟨_, rfl, nofun⟩
  · next node hnode =>
    split
    · exact .inl ⟨_, rfl, nofun⟩
    · split
      · exact .inl ⟨_, rfl, nofun⟩
      · split
        · exact .inl ⟨_, rfl, nofun⟩
        · next hmemory =>
          split
          · exact .inl ⟨_, rfl, nofun⟩
          · exact .inr ⟨node, hnode, by simpa using hmemory, rfl⟩

/-- The nodes after a write that is accepted. -/
def written (s : Aether) (addr : ℕ) (src : ℕ → UInt8) (size generation : ℕ) : Aether :=
  (s.broadcastInvalidation (aetherGetOffset addr) generation).modifyNode (aetherGetNode addr)
    fun node =>
      { node with
        memory := putBytes node.memory (aetherGetOffset addr) src size
        generation := generation }

/-- A write is refused and changes nothing, or it is accepted. -/
theorem write_cases (s : Aether) (addr : ℕ) (src : ℕ → UInt8) (size : ℕ) :
    (∃ r, s.write addr src size = some (s, r) ∧ r.status ≠ .ok) ∨
      ∃ node generation, isAetherAddr addr = true ∧
        s.findSimNode (aetherGetNode addr) = some node ∧ generation = u64 (node.generation + 1) ∧
        node.simMemory (aetherGetOffset addr) size = true ∧
        s.write addr src size = if aetherGetOffset addr + size ≤ node.memorySize then
          ((s.written addr src size generation).updateCached addr src size generation).map
            fun s => (s, ⟨.ok, .none, generation, fun _ => none⟩) else none := by
  rw [Aether.write]
  split
  · exact .inl ⟨_, rfl, nofun⟩
  · next hargs =>
    have haddr : isAetherAddr addr = true := by
      by_contra hnot
      simp [hnot] at hargs
    dsimp only
    split
    · exact .inl ⟨_, rfl, nofun⟩
    · next node hnode =>
      split
      · exact .inl ⟨_, rfl, nofun⟩
      · split
        · exact .inl ⟨_, rfl, nofun⟩
        · split
          · exact .inl ⟨_, rfl, nofun⟩
          · next hmemory =>
            exact .inr ⟨node, _, haddr, hnode, rfl, by simpa using hmemory, rfl⟩

end Aether

namespace Represents

variable {c : AetherCache} {l : List PageInfo} {capacity addr i : ℕ}

/-- The page of an entry that is found. -/
theorem info_mem (h : Represents capacity c l) (hi : c.lookup addr = some i) :
    (c.entries i).info ∈ l ∧ (c.entries i).info.aetherAddr = aetherPageAlign addr := by
  obtain ⟨order, horder, -, rfl⟩ := h
  obtain ⟨hmem, heq⟩ := horder.lookup_some hi
  exact ⟨AetherCache.mem_pages hmem, heq⟩

theorem find_of_lookup (h : Represents capacity c l) (hnone : c.lookup addr = none) :
    Recency.find PageInfo.aetherAddr (aetherPageAlign addr) l = none := by
  obtain ⟨order, horder, -, rfl⟩ := h
  rw [horder.find_pages, hnone, Option.map_none]

end Represents

namespace Aether.Coherent

variable {s : Aether}

/-- Another cache, whose pages mirror memory. -/
theorem setCache (h : s.Coherent) {c : AetherCache} {l : List PageInfo}
    (hrep : Represents aetherMaxCacheEntries c l) (hl : ∀ p ∈ l, p.Mirrors s) :
    Coherent { s with cache := c } :=
  ⟨h.initialized, h.nodup, l, hrep, fun p hp =>
    have hm := hl p hp
    ⟨hm.isAddr, hm.aligned, hm.owner, hm.foreign, hm.bytes⟩⟩

/-- What a call on the cache leaves of its pages was in it. -/
theorem mem_use {l : List PageInfo} {addr : ℕ} {p : PageInfo}
    (hp : p ∈ Recency.use PageInfo.aetherAddr addr l) : p ∈ l := by
  cases hfind : Recency.find PageInfo.aetherAddr addr l with
  | none => rwa [Recency.use_of_none hfind] at hp
  | some a =>
    rw [Recency.use_of_find hfind] at hp
    rcases List.mem_cons.1 hp with rfl | hp
    · exact (Recency.mem_of_find hfind).1
    · exact (Recency.mem_drop.1 hp).1

/-- A page that is fetched mirrors the memory that it comes from. -/
theorem mirrors_fetched {addr size : ℕ} (haddr : isAetherAddr addr = true)
    (hpage : aetherPageOffset addr + size ≤ aetherPageSize)
    (hdirect : s.directNode addr size = none) {node : SimNode}
    (hnode : s.findSimNode (aetherGetNode addr) = some node)
    (hmemory : node.simMemory (aetherPageAlign (aetherGetOffset addr)) aetherPageSize = true) :
    PageInfo.Mirrors ⟨aetherPageAlign addr,
      fun i => node.memory (aetherPageAlign (aetherGetOffset addr) + i), aetherGetNode addr,
      node.generation, false⟩ s := by
  obtain ⟨hisAddr, haligned, hid, hoffset, halign⟩ := pageAlign_spec haddr
  have hlt : aetherGetOffset addr < 2 ^ 32 := by
    rw [aetherGetOffset_eq]
    exact Nat.mod_lt _ (by norm_num)
  have hsize : aetherPageSize = 4096 := rfl
  rw [SimNode.simMemory, halign, decide_eq_true_eq, u64_of_lt (by omega)] at hmemory
  refine ⟨hisAddr, haligned, hid.symm, fun hlocal => ?_, node, hnode, hmemory, fun k _ => ?_⟩
  · -- a page of the local node would have been read without a copy
    have hrange : node.simMemory (aetherGetOffset addr) size = true := by
      rw [SimNode.simMemory, decide_eq_true_eq, u64_of_lt (by omega)]
      omega
    rw [directNode, if_pos hlocal, hnode, Option.filter_some, if_pos hrange] at hdirect
    cases hdirect
  · dsimp only
    rw [halign]

/-- A read within one page returns the bytes of the one memory, wherever it finds them. -/
theorem read (h : s.Coherent) {addr size : ℕ} {room : PageRoom}
    (hpage : aetherPageOffset addr + size ≤ aetherPageSize) (hclock : room.clock = true) :
    ∃ c r, s.read addr size room = some ({ s with cache := c }, r) ∧
      Coherent { s with cache := c } ∧
      (r.status = .ok → ∀ k < size,
        r.dest k = some (s.flat (aetherGetNode addr) (aetherGetOffset addr + k))) := by
  obtain ⟨l, hrep, hl⟩ := h.cache
  rw [Aether.read]
  by_cases hargs : (!s.initialized || size = 0 || !isAetherAddr addr) = true
  · rw [if_pos hargs]
    exact ⟨s.cache, _, rfl, h, nofun⟩
  · rw [if_neg hargs]
    have haddr : isAetherAddr addr = true := by
      by_contra hnot
      simp [hnot] at hargs
    obtain ⟨-, haligned, -, -, -⟩ := pageAlign_spec haddr
    cases hlookup : s.cache.lookup addr with
    | some i =>
      obtain ⟨hmem, heq⟩ := hrep.info_mem hlookup
      have hhit := (hrep.hit addr).1
      rw [CacheCall.onCache, hlookup, CacheCall.onPages] at hhit
      dsimp only
      rw [copyFromPage_eq hpage]
      refine ⟨_, _, rfl, h.setCache hhit fun p hp => hl p (mem_use hp), fun _ k hk => ?_⟩
      exact (if_pos hk).trans (congrArg some (flat_of_mirrors (hl _ hmem) haddr hpage heq hk))
    | none =>
      cases hdirect : s.directNode addr size with
      | some node =>
        have hlocal : s.findSimNode (aetherGetNode addr) = some node ∧
            node.simMemory (aetherGetOffset addr) size = true := by
          rw [directNode] at hdirect
          split at hdirect
          · exact Option.filter_eq_some_iff.1 hdirect
          · cases hdirect
        dsimp only
        rw [if_pos (fits_of_simMemory hlocal.2 hpage)]
        refine ⟨s.cache, _, rfl, h, fun _ k hk => ?_⟩
        rw [flat, hlocal.1]
        exact if_pos hk
      | none =>
        dsimp only
        rcases s.fetchFromSimNode_cases (aetherGetNode addr) (aetherGetOffset addr) room.page with
          ⟨r, hfetch, hstatus⟩ | ⟨node, hnode, hmemory, hfetch⟩
        · rw [hfetch]
          exact ⟨s.cache, r, rfl, h, fun hok => absurd hok hstatus⟩
        · have hmirrors := mirrors_fetched haddr hpage hdirect hnode hmemory
          obtain ⟨hinsert, hentry⟩ := hrep.insert (aetherPageAlign addr) _ (aetherGetNode addr)
            node.generation room.clock
          rw [CacheCall.onCache, CacheCall.onPages, insertPage, haligned,
            hrep.find_of_lookup hlookup, if_neg (by decide), if_pos hclock] at hinsert hentry
          obtain ⟨i, hslot, -⟩ := Option.map_eq_some_iff.1 hentry
          rw [hfetch]
          dsimp only
          rw [hslot]
          dsimp only
          rw [copyFromPage_eq hpage]
          refine ⟨_, _, rfl, h.setCache hinsert fun p hp => ?_, fun _ k hk => ?_⟩
          · rcases List.mem_cons.1 hp with rfl | hp
            · exact hmirrors
            · exact hl p (List.mem_of_mem_take hp)
          · exact (if_pos hk).trans (congrArg some (flat_of_mirrors hmirrors haddr hpage rfl hk))

/-- A page that mirrors memory still does after a write to both, or to another page. -/
theorem mirrors_written {p : PageInfo} (hp : p.Mirrors s) {addr size generation : ℕ}
    {src : ℕ → UInt8} (haddr : isAetherAddr addr = true)
    (hpage : aetherPageOffset addr + size ≤ aetherPageSize) {s' : Aether} {node : SimNode}
    (hlocal : s'.localNodeId = s.localNodeId)
    (hnode : s.findSimNode (aetherGetNode addr) = some node)
    (hsame : ∃ node', s'.findSimNode (aetherGetNode addr) = some node' ∧
      node'.memory = putBytes node.memory (aetherGetOffset addr) src size ∧
      node'.memorySize = node.memorySize)
    (hother : ∀ nodeId, nodeId ≠ aetherGetNode addr →
      s'.findSimNode nodeId = s.findSimNode nodeId) :
    PageInfo.Mirrors (if p.aetherAddr = aetherPageAlign addr then p.store addr src size generation
      else p) s' := by
  obtain ⟨-, -, hid, hoffset, -⟩ := pageAlign_spec haddr
  obtain ⟨node', hnode', hmemory, hsize⟩ := hsame
  by_cases heq : p.aetherAddr = aetherPageAlign addr
  · obtain ⟨m, hm, hfits, hbytes⟩ := hp.bytes
    have howner : p.ownerNode = aetherGetNode addr := by rw [hp.owner, heq, hid]
    rw [howner, hnode] at hm
    obtain rfl := Option.some.inj hm
    rw [if_pos heq]
    refine ⟨hp.isAddr, hp.aligned, hp.owner, hlocal ▸ hp.foreign, node', ?_, ?_, fun k hk => ?_⟩
    · exact (congrArg s'.findSimNode howner).trans hnode'
    · exact hsize ▸ hfits
    · -- the range is at its place in the page as in the memory
      rw [hmemory]
      simp only [PageInfo.store, putBytes, hbytes k hk, heq]
      have hiff : (aetherPageOffset addr ≤ k ∧ k < aetherPageOffset addr + size) ↔
          aetherGetOffset addr ≤ aetherGetOffset (aetherPageAlign addr) + k ∧
            aetherGetOffset (aetherPageAlign addr) + k < aetherGetOffset addr + size := by
        omega
      have hindex : k - aetherPageOffset addr =
          aetherGetOffset (aetherPageAlign addr) + k - aetherGetOffset addr := by
        omega
      simp only [hiff, hindex]
  · rw [if_neg heq]
    by_cases howner : p.ownerNode = aetherGetNode addr
    · have hapart := pages_apart hp.isAddr haddr hp.aligned (hp.owner.symm.trans howner) heq
      obtain ⟨m, hm, hfits, hbytes⟩ := hp.bytes
      rw [howner, hnode] at hm
      obtain rfl := Option.some.inj hm
      refine ⟨hp.isAddr, hp.aligned, hp.owner, hlocal ▸ hp.foreign, node', ?_, ?_, fun k hk => ?_⟩
      · exact (congrArg s'.findSimNode howner).trans hnode'
      · exact hsize ▸ hfits
      · have hpageSize : aetherPageSize = 4096 := rfl
        rw [hmemory, hbytes k hk, putBytes, if_neg (by omega)]
    · exact hp.congr ⟨rfl, rfl, rfl⟩ hlocal fun m hm =>
        ⟨m, (hother _ howner).trans hm, rfl, rfl⟩

/-- What a broadcast does to a page does not matter. -/
theorem mirrors_refresh {p : PageInfo} (hp : p.Mirrors s) (offset ownerNode generation : ℕ) :
    (p.refresh offset ownerNode generation).Mirrors s := by
  rw [PageInfo.refresh]
  split
  · exact hp.congr ⟨rfl, rfl, rfl⟩ rfl fun m hm => ⟨m, hm, rfl, rfl⟩
  · exact hp

theorem updateCached_eq {addr size : ℕ} (hpage : aetherPageOffset addr + size ≤ aetherPageSize)
    (src : ℕ → UInt8) (generation : ℕ) :
    s.updateCached addr src size generation =
      some { s with cache := (CacheCall.onCache s.cache (.store addr src size generation)).1 } := by
  rw [updateCached, CacheCall.onCache]
  cases s.cache.lookup addr with
  | none => rfl
  | some i =>
    dsimp only
    rw [if_pos hpage]

/-- A write within one page changes the one memory as it says if it is answered with success, and
not at all otherwise. -/
theorem write (h : s.Coherent) {addr size : ℕ} (src : ℕ → UInt8)
    (hpage : aetherPageOffset addr + size ≤ aetherPageSize) :
    ∃ s' r, s.write addr src size = some (s', r) ∧ s'.Coherent ∧
      s'.flat = if r.status = .ok then
        putFlat s.flat (aetherGetNode addr) (aetherGetOffset addr) src size else s.flat := by
  rcases s.write_cases addr src size with
    ⟨r, heq, hstatus⟩ | ⟨node, g, haddr, hnode, -, hmemory, heq⟩
  · exact ⟨s, r, heq, h, (if_neg hstatus).symm⟩
  · rw [if_pos (fits_of_simMemory hmemory hpage), updateCached_eq hpage] at heq
    obtain ⟨f, hf⟩ : ∃ f : SimNode → SimNode, f = fun node =>
      { node with
        memory := putBytes node.memory (aetherGetOffset addr) src size
        generation := g } := ⟨_, rfl⟩
    have hid : ∀ node, node.nodeId = aetherGetNode addr → (f node).nodeId = aetherGetNode addr :=
      fun node hnode => hf ▸ hnode
    have hfind : ∀ nodeId, (s.written addr src size g).findSimNode nodeId =
        (s.findSimNode nodeId).map fun node =>
          if node.nodeId = aetherGetNode addr then f node else node := by
      intro nodeId
      rw [← findSimNode_modifyNode hid, hf]
      rfl
    obtain ⟨l, hrep, hl⟩ := h.cache
    have hbroadcast := (hrep.call (.broadcast (aetherGetOffset addr) s.localNodeId g)).1
    have hstore := (hbroadcast.store addr src size g).1
    refine ⟨_, _, heq, ⟨h.initialized, ?_, _, hstore, fun p hp => ?_⟩, ?_⟩
    · have hmap := map_nodeId_modifyNode (s := s) hid
      rw [hf] at hmap
      exact hmap.symm ▸ h.nodup
    · obtain ⟨q, hq, rfl⟩ := List.mem_map.1 hp
      obtain ⟨o, ho, rfl⟩ := List.mem_map.1 hq
      refine mirrors_written (mirrors_refresh (hl o ho) _ _ _) haddr hpage rfl hnode
        ⟨f node, (hfind _).trans ?_, hf ▸ rfl, hf ▸ rfl⟩ fun nodeId hne => (hfind _).trans ?_
      · rw [hnode, Option.map_some, if_pos (nodeId_of_findSimNode hnode)]
      · cases hother : s.findSimNode nodeId with
        | none => rfl
        | some other =>
          have hnodeId := nodeId_of_findSimNode hother
          rw [Option.map_some, if_neg fun heq => hne (hnodeId.symm.trans heq)]
    · rw [if_pos rfl, ← flat_putBytes hnode (by rw [hf]) hid, hf]
      rfl

/-! ## Dirty pages -/

/-- The bytes that are there already change nothing. -/
theorem putBytes_same {m : Memory} {offset n : ℕ} {src : ℕ → UInt8}
    (h : ∀ k < n, src k = m (offset + k)) : putBytes m offset src n = m := by
  funext x
  rw [putBytes]
  split
  · next hx =>
    rw [h _ (by omega), Nat.add_sub_cancel' hx.1]
  · rfl

/-- To write back a page that mirrors memory does not change the nodes. -/
theorem modifyNode_same (h : s.Coherent) {p : PageInfo} (hp : p.Mirrors s) :
    (s.modifyNode p.ownerNode fun node =>
      { node with
        memory := putBytes node.memory (aetherGetOffset p.aetherAddr) p.localPage
          aetherPageSize }) = s := by
  obtain ⟨owner, howner, -, hbytes⟩ := hp.bytes
  have hnodes : (s.simNodes.map fun node => if node.nodeId = p.ownerNode then
      { node with
        memory := putBytes node.memory (aetherGetOffset p.aetherAddr) p.localPage
          aetherPageSize } else node) = s.simNodes := by
    refine (List.map_congr_left fun node hnode => ?_).trans (List.map_id _)
    split
    · next hid =>
      have hfind := findSimNode_of_mem h.nodup hnode
      rw [hid, howner] at hfind
      rw [← Option.some.inj hfind, putBytes_same hbytes]
      rfl
    · rfl
  rw [modifyNode, hnodes]

/-- The round of a flush for one slot. -/
theorem flushEntry (h : s.Coherent) (flushed : ℕ) {i : ℕ} (hi : i < s.cache.capacity) :
    ∃ c, (Aether.flushEntry (s, flushed) i).1 = { s with cache := c } ∧
      Coherent { s with cache := c } ∧ c.capacity = s.cache.capacity := by
  rw [Aether.flushEntry]
  dsimp only
  split
  · next hdirty =>
    split
    · next owner howner =>
      split
      · obtain ⟨l, ⟨order, horder, hcapacity, rfl⟩, hl⟩ := h.cache
        have hvalid : (s.cache.entries i).valid = true := (Bool.and_eq_true _ _ ▸ hdirty).1
        have hmem := (horder.mem_iff i).2 ⟨hi, hvalid⟩
        have hmirrors := hl _ (AetherCache.mem_pages hmem)
        have hclean := horder.modify i (f := fun e => { e with dirty := false })
          fun _ => ⟨rfl, rfl, rfl, rfl⟩
        refine ⟨_, congrArg (fun t : Aether =>
          { t with cache := s.cache.modify i fun e => { e with dirty := false } })
          (h.modifyNode_same hmirrors), h.setCache ⟨order, hclean, hcapacity, rfl⟩
          fun p hp => ?_, rfl⟩
        obtain ⟨j, hj, rfl⟩ := List.mem_map.1 hp
        refine (hl _ (AetherCache.mem_pages hj)).congr ?_ rfl fun m hm => ⟨m, hm, rfl, rfl⟩
        rw [AetherCache.entries_modify]
        split
        · next heq => exact heq ▸ ⟨rfl, rfl, rfl⟩
        · exact ⟨rfl, rfl, rfl⟩
      · exact ⟨s.cache, rfl, h, rfl⟩
    · exact ⟨s.cache, rfl, h, rfl⟩
  · exact ⟨s.cache, rfl, h, rfl⟩

/-- Writing dirty pages back changes the marks of the cache and nothing else. -/
theorem cacheFlush (h : s.Coherent) :
    ∃ c, s.cacheFlush.1 = { s with cache := c } ∧ Coherent { s with cache := c } := by
  have hfold : ∀ (slots : List ℕ) (flushed : ℕ) (c : AetherCache),
      (∀ i ∈ slots, i < c.capacity) → Coherent { s with cache := c } →
      ∃ c', (slots.foldl Aether.flushEntry ({ s with cache := c }, flushed)).1 =
        { s with cache := c' } ∧ Coherent { s with cache := c' } := by
    intro slots
    induction slots with
    | nil => exact fun _ c _ hc => ⟨c, rfl, hc⟩
    | cons i slots ih =>
      intro flushed c hslots hc
      obtain ⟨c', heq, hc', hcapacity⟩ := hc.flushEntry flushed (hslots i List.mem_cons_self)
      rw [List.foldl_cons]
      obtain ⟨r, hr⟩ : ∃ r, r = Aether.flushEntry ({ s with cache := c }, flushed) i := ⟨_, rfl⟩
      rw [← hr] at heq ⊢
      obtain ⟨t, n⟩ := r
      rw [show t = _ from heq]
      exact ih n c' (fun j hj => hcapacity ▸ hslots j (List.mem_cons_of_mem _ hj)) hc'
  exact hfold _ 0 s.cache (fun i hi => List.mem_range.1 hi) h

end Aether.Coherent

end Seraph
