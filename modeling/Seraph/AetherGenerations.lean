import Seraph.AetherRuns

/-!
# Generations of nodes

Every call leaves the generation of a node as it is or takes it up by one (`Advances.step`), so in
a run that is too short for it to wrap around, it does not go back (`generation_run`). What was
packed before a revocation is therefore refused forever (`revocation_permanent`).
-/

namespace Seraph

open ByteMem

namespace Aether

variable {s s' : Aether}

/-- Every node stays, and its generation goes up by one if `up` says so, or stays. -/
def Advances (up : Prop) (s s' : Aether) : Prop :=
  ∀ id node, s.findSimNode id = some node → ∃ node', s'.findSimNode id = some node' ∧
    (node'.generation = node.generation ∨ up ∧ node'.generation = u64 (node.generation + 1))

namespace Advances

variable {up : Prop}

theorem of_nodes (h : s'.simNodes = s.simNodes) : Advances up s s' := fun id node hnode =>
  ⟨node, by rw [findSimNode, h]; exact hnode, .inl rfl⟩

theorem of_eq (h : s' = s) : Advances up s s' :=
  .of_nodes (congrArg simNodes h)

/-- After calls that keep the generations. -/
theorem trans {t : Aether} (h : Advances False s t) (h' : Advances up t s') :
    Advances up s s' := by
  intro id node hnode
  obtain ⟨m, hm, heq | ⟨hfalse, -⟩⟩ := h id node hnode
  · rw [← heq]
    exact h' id m hm
  · exact hfalse.elim

/-- Assignments to one node. -/
theorem modifyNode {id : ℕ} {f : SimNode → SimNode}
    (hnodes : s'.simNodes = (s.modifyNode id f).simNodes)
    (hid : ∀ node, node.nodeId = id → (f node).nodeId = id)
    (hf : ∀ node, s.findSimNode id = some node → (f node).generation = node.generation ∨
      up ∧ (f node).generation = u64 (node.generation + 1)) : Advances up s s' := by
  intro other node hnode
  have hfind : s'.findSimNode other = (s.modifyNode id f).findSimNode other := by
    rw [findSimNode, findSimNode, hnodes]
  rw [hfind, findSimNode_modifyNode hid, hnode, Option.map_some]
  refine ⟨_, rfl, ?_⟩
  split
  · next heq =>
    have hnodeId := nodeId_of_findSimNode hnode
    rw [← hnodeId, heq] at hnode
    exact hf node hnode
  · exact .inl rfl

/-- A node takes one step. -/
theorem bump {id : ℕ} {node : SimNode} {f : SimNode → SimNode}
    (hnodes : s'.simNodes = (s.modifyNode id f).simNodes) (hnode : s.findSimNode id = some node)
    (hid : ∀ m, m.nodeId = id → (f m).nodeId = id)
    (hgeneration : (f node).generation = u64 (node.generation + 1)) : Advances True s s' :=
  .modifyNode hnodes hid fun m hm => by
    rw [hnode] at hm
    rw [← Option.some.inj hm]
    exact .inr ⟨trivial, hgeneration⟩

theorem cacheFlush : Advances False s s.cacheFlush.1 := by
  have hentry : ∀ (r : Aether × ℕ) i, Advances False r.1 (flushEntry r i).1 := by
    intro r i
    rw [flushEntry]
    dsimp only
    split
    · split
      · split
        · exact .modifyNode rfl (fun _ hid => hid) fun _ _ => .inl rfl
        · exact .of_nodes rfl
      · exact .of_nodes rfl
    · exact .of_nodes rfl
  have hfold : ∀ (slots : List ℕ) (r : Aether × ℕ),
      Advances False r.1 (slots.foldl flushEntry r).1 := by
    intro slots
    induction slots with
    | nil => exact fun _ => .of_nodes rfl
    | cons i slots ih => exact fun r => (hentry r i).trans (ih _)
  exact hfold _ (s, 0)

theorem read {addr size : ℕ} {room : PageRoom} {r : Aether × FetchResult}
    (h : s.read addr size room = some r) : Advances up s r.1 := by
  refine .of_nodes ?_
  rw [Aether.read] at h
  split at h
  · cases h
    rfl
  · split at h
    · obtain ⟨result, -, rfl⟩ := Option.map_eq_some_iff.1 h
      rfl
    · split at h
      · dsimp only at h
        split at h
        · cases h
          rfl
        · cases h
      · split at h
        · cases h
          rfl
        · dsimp only at h
          split at h
          · obtain ⟨result, -, rfl⟩ := Option.map_eq_some_iff.1 h
            rfl
          · cases h

theorem updateCached {addr size generation : ℕ} {src : ℕ → UInt8}
    (h : s.updateCached addr src size generation = some s') : s'.simNodes = s.simNodes := by
  rw [Aether.updateCached] at h
  split at h
  · split at h
    · cases h
      rfl
    · cases h
  · cases h
    rfl

theorem write {addr size : ℕ} {src : ℕ → UInt8} {r : Aether × FetchResult}
    (h : s.write addr src size = some r) : Advances True s r.1 := by
  rcases s.write_cases addr src size with ⟨r', heq, -⟩ | ⟨node, g, -, hnode, hg, -, heq⟩
  · rw [heq] at h
    cases h
    exact .of_nodes rfl
  · rw [heq] at h
    split at h
    · obtain ⟨t, ht, rfl⟩ := Option.map_eq_some_iff.1 h
      exact .bump (f := fun n =>
        { n with
          memory := putBytes n.memory (aetherGetOffset addr) src size
          generation := g }) (updateCached ht :) hnode (fun _ hid => hid) hg
    · cases h

theorem request (req : PageRequest) : Advances True s (s.handleRequest req).1 := by
  cases req with
  | read requesterNode offset =>
    rcases s.handleReadRequest_cases requesterNode offset with
      heq | ⟨node, node', hnode, heq, hid, hgeneration, -⟩
    · exact .of_eq heq
    · rw [handleRequest]
      exact .modifyNode (congrArg simNodes heq)
        (fun _ _ => hid.trans (nodeId_of_findSimNode hnode)) fun n hn =>
        .inl (hgeneration.trans (by rw [hnode] at hn; rw [Option.some.inj hn]))
  | write requesterNode offset data size =>
    rw [handleRequest]
    rcases s.handleWriteRequest_cases requesterNode offset data size with
      ⟨heq, -⟩ | ⟨r, hr, ⟨-, heq⟩ | ⟨node, node', sent, hnode, heq, hid, hgeneration, -⟩⟩
    · rw [heq]
      exact .of_nodes rfl
    · rw [hr]
      exact .of_eq heq
    · rw [hr]
      exact .bump (f := fun _ => node') (congrArg simNodes heq :) hnode
        (fun _ _ => hid.trans (nodeId_of_findSimNode hnode)) hgeneration

theorem addSimNode (nodeId memorySize : ℕ) : Advances up s (s.addSimNode nodeId memorySize) := by
  rcases s.addSimNode_cases nodeId memorySize with heq | ⟨new, -, -, heq⟩
  · exact .of_eq heq
  · intro id node hnode
    exact ⟨node, by rw [heq, findSimNode_added, hnode, Option.some_or], .inl rfl⟩

theorem revoke (addr : ℕ) : Advances True s (s.revoke addr).1 := by
  rcases s.revoke_cases addr with heq | ⟨node, g, -, hnode, hg, heq⟩
  · exact .of_eq (congrArg Prod.fst heq)
  · exact .bump (f := fun n => { n with generation := g }) (congrArg (simNodes ·.1) heq :) hnode
      (fun _ hid => hid) hg

/-- No call takes a generation back. -/
theorem step (call : AetherCall) : Advances True s (call.step s).1 := by
  cases call with
  | addSimNode nodeId memorySize => exact .addSimNode nodeId memorySize
  | setNodeOnline nodeId online =>
    exact .modifyNode rfl (fun _ hid => hid) fun _ _ => .inl rfl
  | injectFailure nodeId reason =>
    exact .modifyNode rfl (fun _ hid => hid) fun _ _ => .inl rfl
  | read addr size room =>
    rw [AetherCall.step]
    split
    · next r hr => exact .read hr
    · exact .of_nodes rfl
  | write addr src size =>
    rw [AetherCall.step]
    split
    · next r hr => exact .write hr
    · exact .of_nodes rfl
  | cacheInvalidate addr => exact .of_nodes rfl
  | cacheFlush => exact cacheFlush.trans (.of_nodes rfl)
  | cacheClear => exact .of_nodes rfl
  | revoke addr => exact .revoke addr
  | request req =>
    have hrequest := request (s := s) req
    rw [AetherCall.step]
    split
    · next s' r heq => rwa [heq] at hrequest
    · next s' heq => rwa [heq] at hrequest

end Advances

/-- In a run that is too short for a generation to wrap around, it does not go back. -/
theorem generation_run {as : List AetherCall} {id : ℕ} {node : SimNode}
    (hnode : s.findSimNode id = some node) (hbound : node.generation + as.length < 2 ^ 64) :
    ∃ node', (Runs.run AetherCall.step s as).findSimNode id = some node' ∧
      node.generation ≤ node'.generation ∧ node'.generation ≤ node.generation + as.length := by
  induction as generalizing s node with
  | nil => exact ⟨node, hnode, Nat.le_refl _, Nat.le_refl _⟩
  | cons call as ih =>
    rw [List.length_cons] at hbound
    obtain ⟨m, hm, hgeneration⟩ := Advances.step call id node hnode
    rw [u64_of_lt (by omega), true_and] at hgeneration
    obtain ⟨node', hnode', hge, hle⟩ := ih hm (by omega)
    refine ⟨node', hnode', by omega, ?_⟩
    rw [List.length_cons]
    omega

/-- A packed generation is read back, with 48 bits of its number. -/
theorem unpackGlobalGen_pack {nodeId : ℕ} (h : nodeId < 2 ^ 14) (generation : ℕ) :
    unpackGlobalGen (packGlobalGen nodeId generation) = (nodeId, generation % 2 ^ 48) := by
  have hlow : generation &&& 0x0000FFFFFFFFFFFF = generation % 2 ^ 48 :=
    Nat.and_two_pow_sub_one_eq_mod generation 48
  have hlt := Nat.mod_lt generation (show 2 ^ 48 > 0 by norm_num)
  have hpack : packGlobalGen nodeId generation = nodeId * 2 ^ 48 + generation % 2 ^ 48 := by
    rw [packGlobalGen, hlow, ← Nat.shiftLeft_add_eq_or_of_lt hlt, Nat.shiftLeft_eq]
  have hmask : (nodeId * 2 ^ 48 + generation % 2 ^ 48) &&& 0x0000FFFFFFFFFFFF =
      (nodeId * 2 ^ 48 + generation % 2 ^ 48) % 2 ^ 48 :=
    Nat.and_two_pow_sub_one_eq_mod _ 48
  rw [unpackGlobalGen, hpack, hmask, Nat.shiftRight_eq_div_pow, u16_of_lt (by omega)]
  refine Prod.ext ?_ ?_
  · dsimp only
    omega
  · dsimp only
    omega

/-- What a revocation that succeeds does to the generation. -/
theorem revoke_true {addr : ℕ} (h : (s.revoke addr).2 = .true) :
    ∃ node node', isAetherAddr addr = true ∧ s.findSimNode (aetherGetNode addr) = some node ∧
      (s.revoke addr).1.findSimNode (aetherGetNode addr) = some node' ∧
      node'.generation = u64 (node.generation + 1) := by
  rcases s.revoke_cases addr with heq | ⟨node, g, haddr, hnode, hg, heq⟩
  · rw [heq] at h
    cases h
  · have hfind := findSimNode_modifyNode (s := s) (f := fun n => { n with generation := g })
      (fun _ (hid : _ = aetherGetNode addr) => hid) (aetherGetNode addr)
    rw [hnode, Option.map_some, if_pos (nodeId_of_findSimNode hnode)] at hfind
    rw [heq]
    exact ⟨node, _, haddr, hnode, hfind, hg⟩

/-- Revocation is permanent : a generation of the node from before is refused for every address,
after any run that is too short for the generation to wrap around. -/
theorem revocation_permanent {addr : ℕ} (h : (s.revoke addr).2 = .true) {old : ℕ}
    (hold : old ≤ s.getGeneration addr) {as : List AetherCall}
    (hbound : s.getGeneration addr + as.length + 1 < 2 ^ 64) (other : ℕ) :
    (Runs.run AetherCall.step (s.revoke addr).1 as).checkGeneration other
      (packGlobalGen (aetherGetNode addr) old) ≠ .true := by
  obtain ⟨node, node', haddr, hnode, hnode', hgeneration⟩ := revoke_true h
  have hget : s.getGeneration addr = node.generation := by
    rw [getGeneration, haddr, hnode]
    rfl
  rw [hget] at hold hbound
  rw [u64_of_lt (by omega)] at hgeneration
  obtain ⟨last, hlast, hge, -⟩ := generation_run hnode'
    (show _ + as.length < _ by omega)
  have hid : aetherGetNode addr < 2 ^ 14 := by
    rw [aetherGetNode_eq]
    exact Nat.mod_lt _ (by norm_num)
  intro hcheck
  rw [checkGeneration, unpackGlobalGen_pack hid] at hcheck
  split at hcheck
  · cases hcheck
  · next hvoid =>
    split at hcheck
    · cases hcheck
    · next hsame =>
      split at hcheck
      · cases hcheck
      · next hmatch =>
        have hother : (Runs.run AetherCall.step (s.revoke addr).1 as).getGeneration other =
            last.generation := by
          rw [getGeneration] at hvoid ⊢
          split
          · next hnot => exact absurd (if_pos hnot) hvoid
          · rw [← not_not.1 hsame, hlast]
        have hle := Nat.mod_le old (2 ^ 48)
        rw [not_not, hother] at hmatch
        dsimp only at hmatch
        omega

/-- A generation from before two revocations, and a write, a failure and a restart later. -/
theorem revocation_permanent_restarted :
    (Runs.run AetherCall.step
      (((Aether.init 0).addSimNode 5 8192).revoke 0xC00500000000).1
      [.write 0xC00500000000 (fun _ => 1) 8, .setNodeOnline 5 false, .setNodeOnline 5 true,
        .revoke 0xC00500001000]).checkGeneration 0xC00500000000 (packGlobalGen 5 1) ≠ .true :=
  revocation_permanent (by decide) (show 1 ≤ _ by decide) (by decide) 0xC00500000000

end Aether

end Seraph
