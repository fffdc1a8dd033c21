import Seraph.WhisperAccounts

/-!
# Registry capacity

`lend_registry_find_empty` looks for a VOID record, and the record of a lend that has ended
keeps its final status. So a record that a lend took is never free again, unless the lend could
not be sent, and a registry of 64 records serves 64 lends (`free_run`). Further lends fail,
however few of the lends are active (`lends_work_iff`).
-/

namespace Seraph

open Runs Tally

namespace Endpoint

/-- The same records are in use. -/
structure SameUse (e e' : Endpoint) : Prop where
  inUse : ∀ i, e'.InUse i ↔ e.InUse i

/-- Number of free records. -/
def free (e : Endpoint) : ℕ :=
  e.lendsWith .void

variable {e e' e'' : Endpoint}

theorem SameUse.refl (e : Endpoint) : SameUse e e :=
  ⟨fun _ => Iff.rfl⟩

theorem SameUse.trans (h : SameUse e e') (h' : SameUse e' e'') : SameUse e e'' :=
  ⟨fun i => (h'.inUse i).trans (h.inUse i)⟩

theorem SameLends.sameUse (h : SameLends e e') : SameUse e e' :=
  ⟨fun _ => h.inUse⟩

theorem SameLends.findById (h : SameLends e e') (messageId : ℕ) :
    e'.findById messageId = e.findById messageId := by
  simp only [Endpoint.findById, h.status, h.lendMessageId]

theorem SameUse.free (h : SameUse e e') : e'.free = e.free :=
  tally_congr fun i => not_iff_not.1 (h.inUse i)

/-- A lend that ends leaves its record in use. -/
theorem sameUse_settle {slot : Fin maxLends} (hslot : (e.lendRegistry slot).status = .active)
    {status : LendStatus} (hstatus : status ≠ .void) : SameUse e (e.settle slot status) := by
  refine ⟨fun i => ?_⟩
  rcases eq_or_ne i slot with rfl | hi
  · simp [InUse, settle, hslot, hstatus]
  · simp only [InUse, settle, Function.update_of_ne hi]

theorem sameUse_revokeLend (lendMessageId : ℕ) : SameUse e (e.revokeLend lendMessageId).1 := by
  unfold revokeLend
  split
  · exact .refl e
  cases e.findById lendMessageId with
  | none => exact .refl e
  | some slot =>
    dsimp only
    split
    · exact .refl e
    · next hslot => exact ⟨(sameUse_settle (not_not.1 hslot)
        (by decide : LendStatus.revoked ≠ .void)).inUse⟩

theorem sameUse_handleReturn (msg : Message) : SameUse e (e.handleReturn msg).1 := by
  unfold handleReturn
  split
  · exact .refl e
  cases e.returnSlot msg with
  | none => exact .refl e
  | some slot =>
    dsimp only
    split
    · exact .refl e
    · next hslot => exact ⟨(sameUse_settle (not_not.1 hslot)
        (by decide : LendStatus.returned ≠ .void)).inUse⟩

/-- A loop over the registry whose rounds keep the records in use. -/
theorem sameUse_foldl {S : Type*} {f : S → Endpoint} {g : S → Fin maxLends → S}
    (hround : ∀ s i, SameUse (f s) (f (g s i))) (slots : List (Fin maxLends)) (s : S) :
    SameUse (f s) (f (slots.foldl g s)) :=
  Loops.foldl_rel (r := SameUse) .refl (fun _ _ _ => .trans) hround slots s

theorem sameUse_processLends (currentChronon : ℕ) :
    SameUse e (e.processLends currentChronon).1 := by
  refine sameUse_foldl (f := Prod.fst) (fun s i => ?_) _ (e, 0)
  unfold processLend
  split
  · next hdue =>
    exact ⟨(sameUse_settle (due_active hdue) (by decide : LendStatus.expired ≠ .void)).inUse⟩
  · exact .refl _

/-- All records of a new endpoint are free. -/
theorem free_init (ids : Ids) : (init ids).1.free = maxLends := by
  change tally (fun _ : Fin maxLends => LendStatus.void) .void = maxLends
  decide

/-- There is a record to be found where one is free. -/
theorem findEmpty_ne_none : e.findEmpty ≠ none ↔ 0 < e.free := by
  rw [free, lendsWith, tally, Finset.card_pos, findEmpty, Ne, List.find?_eq_none]
  simp [Finset.Nonempty]

/-- Registering a lend takes a free record. -/
theorem free_lendRegistryCreate {slot : Fin maxLends} (hslot : e.findEmpty = some slot)
    (originalCap borrowedCap : Capability)
    (messageId currentChronon timeout borrower : ℕ) :
    (e.lendRegistryCreate originalCap borrowedCap messageId currentChronon timeout
        borrower).1.free + 1 = e.free ∧
      (e.lendRegistryCreate originalCap borrowedCap messageId currentChronon timeout
        borrower).1.findById messageId ≠ none := by
  have hvoid := status_of_findEmpty hslot
  simp only [lendRegistryCreate, hslot]
  constructor
  · rw [free, free, lendsWith, lendsWith, status_update]
    have htally := tally_update_old (f := fun i => (e.lendRegistry i).status) (i := slot)
      (b := LendStatus.active) (by simp [hvoid])
    rwa [hvoid] at htally
  · rw [findById, Ne, List.find?_eq_none]
    intro hnone
    have := hnone slot (List.mem_finRange slot)
    simp [newLend] at this

/-- Taking a lend back frees a record. -/
theorem free_removeLend {messageId : ℕ} (h : e.findById messageId ≠ none) :
    (e.removeLend messageId).free = e.free + 1 := by
  unfold removeLend
  cases hslot : e.findById messageId with
  | none => exact absurd hslot h
  | some slot =>
    have huse : (e.lendRegistry slot).status ≠ .void := by
      have := List.find?_some hslot
      exact (of_decide_eq_true this).2
    dsimp only
    rw [free, free, lendsWith, lendsWith, settle, status_update]
    exact tally_update_self huse

end Endpoint

/-! ## Lends take records -/

/-- A result as a number : 1 for TRUE. -/
def oneIf (result : Vbit) : ℕ :=
  if result = .true then 1 else 0

namespace Local

variable {l : Local}

/-- A lend takes a free record if it is sent. -/
theorem free_lendVia (cap : Capability) (timeout : ℕ) (message : Message)
    {full : Local → Local} (hfull : ∀ l, (full l).ep = l.ep)
    {send : Local → Message → Local × Vbit}
    (hsend : ∀ l : Local, l.ep.SameLends (send l message).1.ep) :
    (l.lendVia cap timeout message full send).1.ep.free +
      oneIf (l.lendVia cap timeout message full send).2 = l.ep.free := by
  unfold lendVia
  dsimp only
  cases hslot : l.ep.findEmpty with
  | none =>
    simp only [Endpoint.lendRegistryCreate, hslot]
    rw [if_neg (by decide), hfull]
    rfl
  | some slot =>
    obtain ⟨hfree, hfound⟩ := Endpoint.free_lendRegistryCreate hslot cap cap message.messageId 0
      timeout 0
    have hregistered : (l.ep.lendRegistryCreate cap cap message.messageId 0 timeout 0).2 =
        .true := by
      simp only [Endpoint.lendRegistryCreate, hslot]
    rw [if_pos hregistered]
    generalize (l.ep.lendRegistryCreate cap cap message.messageId 0 timeout 0).1 = e at *
    have hlends := hsend { l with ep := e }
    have hsame := hlends.sameUse.free
    split
    · rw [hsame]
      exact hfree
    · next hsent =>
      rw [Endpoint.free_removeLend (by rwa [hlends.findById]), hsame, oneIf, if_neg hsent]
      exact hfree

theorem free_lend (l : Local) (cap : Capability) (timeout : ℕ) :
    (l.lend cap timeout).1.ep.free + oneIf (l.lend cap timeout).2 = l.ep.free := by
  unfold lend
  split
  · rfl
  · exact free_lendVia (l := l.drawn) cap timeout _ (fun _ => rfl) fun l => sameLends_post l _

theorem free_lendTracked (l : Local) (cap : Capability) (timeout predecessorVoidId : ℕ) :
    (l.lendTracked cap timeout predecessorVoidId).1.ep.free +
      oneIf (l.lendTracked cap timeout predecessorVoidId).2 = l.ep.free := by
  unfold lendTracked
  split
  · rfl
  dsimp only
  generalize hnoted : (if cap.isVoid then l.recorded else l) = l'
  have hep : l'.ep = l.ep := by
    rw [← hnoted]
    split <;> rfl
  rw [← hep]
  exact free_lendVia (l := l'.drawn) cap timeout _ recorded_ep fun l => sameLends_post l _

/-- A lend that can be sent succeeds where it can be registered. -/
theorem lendVia_eq_true {send : Local → Message → Local × Vbit}
    (hsend : ∀ l m, l.ep.isValid = true → l.ep.sendQueueFull = false → (send l m).2 = .true)
    (hvalid : l.ep.isValid = true) (hroom : l.ep.sendQueueFull = false) (cap : Capability)
    (timeout : ℕ) (message : Message) (full : Local → Local) :
    (l.lendVia cap timeout message full send).2 = .true ↔ 0 < l.ep.free := by
  rw [← Endpoint.findEmpty_ne_none]
  cases hslot : l.ep.findEmpty with
  | none => simp [lendVia, Endpoint.lendRegistryCreate, hslot]
  | some slot =>
    have hsent := hsend
      { l with ep := (l.ep.lendRegistryCreate cap cap message.messageId 0 timeout 0).1 } message
    simp only [Endpoint.lendRegistryCreate, hslot] at hsent
    simp [lendVia, Endpoint.lendRegistryCreate, hslot, hsent hvalid hroom]

/-- On a connected endpoint with room in its send queue, a lend succeeds where a record is
free. -/
theorem lend_eq_true (hvalid : l.ep.isValid = true) (hroom : l.ep.sendQueueFull = false)
    (cap : Capability) (timeout : ℕ) : (l.lend cap timeout).2 = .true ↔ 0 < l.ep.free := by
  rw [lend, if_neg (by simp [hvalid])]
  exact lendVia_eq_true (l := l.drawn) (fun l m hv hf => (post_eq_true _).2 ⟨hv, hf⟩) hvalid hroom
    cap timeout _ _

theorem sameUse_processLendsTracked (l : Local) (currentChronon maxVoidIds : ℕ) :
    l.ep.SameUse (l.processLendsTracked currentChronon maxVoidIds).1.ep := by
  have hround : ∀ (s : Local × ℕ × List ℕ) i,
      s.1.ep.SameUse (processLendTracked currentChronon maxVoidIds s i).1.ep := by
    intro s i
    unfold processLendTracked
    split
    · next hdue =>
      exact ⟨(Endpoint.sameUse_settle (Endpoint.due_active hdue)
        (by decide : LendStatus.expired ≠ .void)).inUse⟩
    · exact .refl _
  exact Endpoint.sameUse_foldl (f := fun s => s.1.ep) hround _ (l, 0, [])

end Local

namespace EndOp

/-- The lends an operation makes : 1 for a lend that succeeds. -/
def lent (l : Local) : EndOp → ℕ
  | .post (.lend cap timeout) => oneIf (l.lend cap timeout).2
  | .post (.lendTracked cap timeout pred) => oneIf (l.lendTracked cap timeout pred).2
  | _ => 0

theorem free_sendOp (l : Local) (op : SendOp) :
    (op.run l).1.ep.free + lent l (.post op) = l.ep.free := by
  cases op with
  | lend cap timeout => exact Local.free_lend l cap timeout
  | lendTracked cap timeout pred => exact Local.free_lendTracked l cap timeout pred
  | _ =>
    exact (sameLends_sendOp l (fun _ _ heq => by cases heq)
      fun _ _ _ heq => by cases heq).sameUse.free

/-- Only lends take records. -/
theorem free (l : Local) (op : EndOp) : (op.run l).1.ep.free + op.lent l = l.ep.free := by
  cases op with
  | post op => exact free_sendOp l op
  | recv => exact (sameLends_recv l).sameUse.free
  | peek => exact (sameLends_peek l).sameUse.free
  | awaitResponse requestId maxWait =>
    exact (sameLends_awaitResponse l requestId maxWait).sameUse.free
  | handleReturn msg => exact (Endpoint.sameUse_handleReturn msg).free
  | revokeLend lendMessageId => exact (Endpoint.sameUse_revokeLend lendMessageId).free
  | revokeLendTracked lendMessageId => exact (Endpoint.sameUse_revokeLend lendMessageId).free
  | processLends chronon =>
    simp only [EndOp.run, Prod.map_fst, Local.withEp, lent, Nat.add_zero]
    exact (Endpoint.sameUse_processLends chronon).free
  | processLendsTracked chronon maxVoidIds =>
    simp only [EndOp.run, Prod.map_fst, id, lent, Nat.add_zero]
    exact (Local.sameUse_processLendsTracked l chronon maxVoidIds).free

end EndOp

/-! ## Transfer -/

theorem Endpoint.sameUse_handOver (src dst : Endpoint) :
    SameUse src (src.handOver dst).1 ∧ SameUse dst (src.handOver dst).2 := by
  unfold handOver
  dsimp only
  constructor
  · split
    · exact ⟨(sameLends_setBorrower _ _).sameUse.inUse⟩
    · exact ⟨fun _ => Iff.rfl⟩
  · split
    · exact ⟨(sameUse_handleReturn _).inUse⟩
    · exact ⟨fun _ => Iff.rfl⟩

namespace Channel

variable {c : Channel}

/-- The same records of both ends are in use. -/
def SameUse (c c' : Channel) : Prop :=
  ∀ side, (c.ep side).SameUse (c'.ep side)

theorem sameUse_transfer (c : Channel) : SameUse c c.transfer.1 := by
  have hround : ∀ side, ∀ s t : Channel × ℕ, SameUse c s.1 → move s side = some t →
      SameUse c t.1 := by
    intro side s t hs hmove
    rw [move_eq] at hmove
    split at hmove
    · cases hmove
    split at hmove
    · cases hmove
    · obtain ⟨hsrc, hdst⟩ := Endpoint.sameUse_handOver (s.1.ep side) (s.1.ep side.other)
      rw [← Option.some.inj hmove]
      refine Side.forall_of side ?_ ?_
      · rw [ep_setEp_of_other, ep_setEp_self]
        exact (hs side).trans hsrc
      · rw [ep_setEp_self]
        exact (hs side.other).trans hdst
  unfold transfer
  split
  · exact fun side => .refl _
  · exact Loops.loop_invariant (I := fun s : Channel × ℕ => SameUse c s.1) (hround .child) _
      (Loops.loop_invariant (I := fun s : Channel × ℕ => SameUse c s.1) (hround .parent) _
        (s := (c, 0)) fun side => .refl _)

theorem sameUse_close (c : Channel) : SameUse c c.close.1 := by
  unfold close
  split
  · exact fun side => .refl _
  · intro side
    cases side <;> exact ⟨fun _ => Iff.rfl⟩

end Channel

/-! ## Runs -/

namespace ChannelState

variable {w : ChannelState}

/-- The lends that a call makes at a side. -/
def lent (side : Side) (c : Call ChannelState ChannelOp ChannelResult) : ℕ :=
  match c.op with
  | .act s op => if s = side then op.lent (c.before.workAt s) else 0
  | _ => 0

/-- How many lends of a side have succeeded along a run. -/
def lentBy (ids : Ids) (ops : List ChannelOp) (side : Side) : ℕ :=
  ((calls step (start ids) ops).map (lent side)).sum

theorem free_step (w : ChannelState) (op : ChannelOp) (side : Side) :
    ((w.step op).1.ep side).free + lent side ⟨w, op, (w.step op).2⟩ = (w.ep side).free := by
  cases op with
  | act s op =>
    refine Side.forall_of (P := fun side => ((w.step (.act s op)).1.ep side).free +
      lent side ⟨w, .act s op, (w.step (.act s op)).2⟩ = (w.ep side).free) s ?_ ?_ side
    · simp only [step, ep, Channel.ep_setEp_self, lent, if_pos]
      exact EndOp.free (w.workAt s) op
    · have hother : s ≠ s.other := by cases s <;> decide
      simp only [step, ep, Channel.ep_setEp_other, lent, if_neg hother, Nat.add_zero]
  | transfer => exact (Channel.sameUse_transfer w.channel side).free
  | close => exact (Channel.sameUse_close w.channel side).free
  | other ids => rfl

/-- Every record of a registry serves one lend. -/
theorem free_run (ids : Ids) (ops : List ChannelOp) (side : Side) :
    ((run step (start ids) ops).ep side).free + lentBy ids ops side = maxLends := by
  induction ops using List.reverseRecOn with
  | nil =>
    have hfree : ((start ids).ep side).free = maxLends :=
      Side.forall_of (P := fun side => ((start ids).ep side).free = maxLends) .parent
        (Endpoint.free_init _) (Endpoint.free_init _) side
    rw [run_nil, hfree]
    rfl
  | append_singleton ops op ih =>
    have hstep := free_step (run step (start ids) ops) op side
    rw [lentBy, calls_concat, List.map_append, List.sum_append, List.map_singleton,
      List.sum_singleton, run_concat]
    rw [lentBy] at ih
    omega

/-- A lend succeeds after a run, if the endpoint is connected with room in its send queue and
has an active lend fewer than it has records. -/
def LendWorks (ids : Ids) (ops : List ChannelOp) (side : Side) (cap : Capability)
    (timeout : ℕ) : Prop :=
  ((run step (start ids) ops).ep side).isValid = true →
    ((run step (start ids) ops).ep side).lendsWith .active < maxLends →
    ((run step (start ids) ops).ep side).sendQueueFull = false →
    (((run step (start ids) ops).workAt side).lend cap timeout).2 = .true

/-- Along a run, every lend succeeds that is made on a connected endpoint with room in its send
queue and fewer active lends than records, exactly where each of these is made before as many
lends have succeeded as there are records. -/
theorem lends_work_iff (ids : Ids) (ops : List ChannelOp) (side : Side) :
    (∀ before cap timeout, before ++ [.act side (.post (.lend cap timeout))] <+: ops →
        LendWorks ids before side cap timeout) ↔
      ∀ before cap timeout, before ++ [.act side (.post (.lend cap timeout))] <+: ops →
        ((run step (start ids) before).ep side).isValid = true →
        ((run step (start ids) before).ep side).lendsWith .active < maxLends →
        ((run step (start ids) before).ep side).sendQueueFull = false →
        lentBy ids before side < maxLends := by
  refine forall_congr' fun before => forall_congr' fun cap => forall_congr' fun timeout =>
    forall_congr' fun _ => forall_congr' fun hvalid => forall_congr' fun _ =>
    forall_congr' fun hroom => ?_
  have hfree := free_run ids before side
  refine (Local.lend_eq_true (l := (run step (start ids) before).workAt side) hvalid hroom cap
    timeout).trans ?_
  change 0 < ((run step (start ids) before).ep side).free ↔ _
  omega

/-- A lend that the lender revokes and the other end receives, `n` times, with message ids
from `id` on. -/
def revokedLends : ℕ → ℕ → List ChannelOp
  | 0, _ => []
  | n + 1, id =>
    [.act .parent (.post (.lend ⟨4096, 64, 1, 3, 0, 0⟩ 100)), .act .parent (.revokeLend id),
      .transfer, .act .child .recv] ++ revokedLends n (id + 1)

set_option maxRecDepth 20000 in
/-- After 64 lends that have been revoked no lend succeeds. -/
theorem not_lendWorks :
    ¬LendWorks .first (revokedLends 64 1) .parent ⟨4096, 64, 1, 3, 0, 0⟩ 100 := by
  unfold LendWorks
  decide

end ChannelState

end Seraph
