import Mathlib.Data.List.Forall2
import Seraph.WhisperChannel

/-!
# Delivery

In each direction the two queues, the receive queue of one end before the send queue of the
other, hold the messages that are under way (`ChannelState.flow`). A send appends to them, a
receive takes the first, and a transfer moves the border between the two queues. So along
every run the messages received and those under way are the messages that were sent, in order
(`delivered`).
-/

namespace Seraph

open Runs RingBuffer

namespace Endpoint

/-- The queues are the same. -/
structure SameQueues (e e' : Endpoint) : Prop where
  send : e'.sendRing = e.sendRing
  recv : e'.recvRing = e.recvRing

/-- What an operation does to the queues of an endpoint : the messages `sent` are appended to
the send queue, stamped, and the messages `gone` leave the receive queue. -/
structure Traffic (e e' : Endpoint) (sent gone : List Message) : Prop where
  sound : e'.Sound
  outbox : ∃ new, List.Forall₂ Message.SamePayload sent new ∧ e'.outbox = e.outbox ++ new
  inbox : e.inbox = gone ++ e'.inbox

variable {e e' e'' : Endpoint}

namespace SameQueues

theorem refl (e : Endpoint) : SameQueues e e :=
  ⟨rfl, rfl⟩

theorem trans (h : SameQueues e e') (h' : SameQueues e' e'') : SameQueues e e'' :=
  ⟨h'.send.trans h.send, h'.recv.trans h.recv⟩

theorem outbox (h : SameQueues e e') : e'.outbox = e.outbox := by
  rw [Endpoint.outbox, h.send, Endpoint.outbox]

theorem inbox (h : SameQueues e e') : e'.inbox = e.inbox := by
  rw [Endpoint.inbox, h.recv, Endpoint.inbox]

theorem sound (h : SameQueues e e') (he : e.Sound) : e'.Sound where
  send := by
    rw [h.send, h.outbox]
    exact he.send
  recv := by
    rw [h.recv, h.inbox]
    exact he.recv

theorem traffic (h : SameQueues e e') (he : e.Sound) : Traffic e e' [] [] where
  sound := h.sound he
  outbox := ⟨[], .nil, by rw [h.outbox, List.append_nil]⟩
  inbox := by rw [List.nil_append, h.inbox]

/-- Moving the tail of a send queue. -/
theorem sendRing_pop (h : SameQueues e e') :
    ({ e' with sendTail := u32 (e.sendTail + 1) } : Endpoint).sendRing =
      e.sendRing.advance (2 ^ 32) 1 :=
  congrArg₂ (fun slots head => Buffer.mk slots head (u32 (e.sendTail + 1)))
    (congrArg Buffer.slots h.send) (congrArg Buffer.head h.send)

/-- Writing to the head of a receive queue. -/
theorem recvRing_push (h : SameQueues e e') (msg : Message) :
    ({ e' with
        recvQueue := Function.update e.recvQueue (queueSlot e.recvHead) msg
        recvHead := u32 (e.recvHead + 1) } : Endpoint).recvRing =
      e.recvRing.push (2 ^ 32) msg := by
  rw [queueSlot_eq]
  exact congrArg (Buffer.mk _ _) (congrArg Buffer.tail h.recv)

end SameQueues

/-- Traffic between states with the same queues. -/
theorem Traffic.congr {f f' : Endpoint} {sent gone : List Message} (h : Traffic e e' sent gone)
    (hstart : SameQueues f e) (hend : SameQueues e' f') : Traffic f f' sent gone where
  sound := hend.sound h.sound
  outbox := by
    rw [hend.outbox, ← hstart.outbox]
    exact h.outbox
  inbox := by
    rw [hend.inbox, ← hstart.inbox]
    exact h.inbox

/-! ## The lend registry is apart from the queues -/

theorem sameQueues_lendRegistryCreate (originalCap borrowedCap : Capability)
    (messageId currentChronon timeout borrower : ℕ) :
    SameQueues e (e.lendRegistryCreate originalCap borrowedCap messageId currentChronon timeout
      borrower).1 := by
  unfold lendRegistryCreate
  cases e.findEmpty <;> exact ⟨rfl, rfl⟩

theorem sameQueues_removeLend (messageId : ℕ) : SameQueues e (e.removeLend messageId) := by
  unfold removeLend
  cases e.findById messageId <;> exact ⟨rfl, rfl⟩

theorem sameQueues_setBorrower (messageId borrower : ℕ) :
    SameQueues e (e.setBorrower messageId borrower) := by
  unfold setBorrower
  cases e.findById messageId <;> exact ⟨rfl, rfl⟩

theorem sameQueues_revokeLend (lendMessageId : ℕ) :
    SameQueues e (e.revokeLend lendMessageId).1 := by
  unfold revokeLend
  split
  · exact .refl e
  cases e.findById lendMessageId with
  | none => exact .refl e
  | some slot =>
    dsimp only
    split <;> exact ⟨rfl, rfl⟩

theorem sameQueues_handleReturn (msg : Message) : SameQueues e (e.handleReturn msg).1 := by
  unfold handleReturn
  split
  · exact .refl e
  cases e.returnSlot msg with
  | none => exact .refl e
  | some slot =>
    dsimp only
    split <;> exact ⟨rfl, rfl⟩

/-- A loop over the registry whose rounds keep the queues. -/
theorem sameQueues_foldl {S : Type*} {f : S → Endpoint} {g : S → Fin maxLends → S}
    (hround : ∀ s i, SameQueues (f s) (f (g s i))) (slots : List (Fin maxLends)) (s : S) :
    SameQueues (f s) (f (slots.foldl g s)) :=
  Loops.foldl_rel (r := SameQueues) .refl (fun _ _ _ => .trans) hround slots s

theorem sameQueues_processLends (currentChronon : ℕ) :
    SameQueues e (e.processLends currentChronon).1 := by
  refine sameQueues_foldl (f := Prod.fst) (fun s i => ?_) _ (e, 0)
  unfold processLend
  split <;> exact ⟨rfl, rfl⟩

end Endpoint

theorem Local.sameQueues_processLendsTracked {l : Local} (currentChronon maxVoidIds : ℕ) :
    l.ep.SameQueues (l.processLendsTracked currentChronon maxVoidIds).1.ep := by
  have hround : ∀ (s : Local × ℕ × List ℕ) i,
      s.1.ep.SameQueues (processLendTracked currentChronon maxVoidIds s i).1.ep := by
    intro s i
    unfold processLendTracked
    split <;> exact ⟨rfl, rfl⟩
  exact Endpoint.sameQueues_foldl (f := fun s => s.1.ep) hround _ (l, 0, [])

/-! ## Sending -/

/-- The result of a send that succeeded. -/
def ChannelResult.accepted : ChannelResult → Bool
  | .bit v => v = .true
  | .id n => n ≠ voidU64
  | _ => false

/-- A message, if it was sent. -/
def sentIf (result : ChannelResult) (message : Message) : List Message :=
  if result.accepted then [message] else []

namespace Local

variable {l : Local} (h : l.ep.Sound)

include h

theorem traffic_post {message : Message} {stamped : Message × Ids}
    (hpayload : message.SamePayload stamped.1) :
    l.ep.Traffic (l.post stamped).1.ep (sentIf (.bit (l.post stamped).2) message) [] := by
  unfold post
  split
  · exact (Endpoint.SameQueues.refl l.ep).traffic h
  split
  · exact Endpoint.SameQueues.traffic ⟨rfl, rfl⟩ h
  · next hfull =>
    obtain ⟨hsound, houtbox, hinbox⟩ := h.enqueue (Bool.eq_false_iff.2 hfull) stamped.1
    exact ⟨hsound, ⟨[stamped.1], .cons hpayload .nil, houtbox⟩, by rw [hinbox, List.nil_append]⟩

theorem traffic_send (message : Message) :
    l.ep.Traffic (l.send message).1.ep (sentIf (.bit (l.send message).2) message) [] :=
  traffic_post h (Message.samePayload_stamp _ _ _)

theorem traffic_sendTracked (message : Message) (predecessorVoidId : ℕ) :
    l.ep.Traffic (l.sendTracked message predecessorVoidId).1.ep
      (sentIf (.bit (l.sendTracked message predecessorVoidId).2) message) [] :=
  traffic_post h (Message.samePayload_stampTracked _ _ _ _)

/-- Registering a lend and taking it back leaves the queues to the send. -/
theorem traffic_lendVia (cap : Capability) (timeout : ℕ) (message : Message)
    {full : Local → Local} (hfull : ∀ l, (full l).ep = l.ep)
    {send : Local → Message → Local × Vbit}
    (hsend : ∀ l : Local, l.ep.Sound →
      l.ep.Traffic (send l message).1.ep (sentIf (.bit (send l message).2) message) []) :
    l.ep.Traffic (l.lendVia cap timeout message full send).1.ep
      (sentIf (.bit (l.lendVia cap timeout message full send).2) message) [] := by
  have hcreate := Endpoint.sameQueues_lendRegistryCreate (e := l.ep) cap cap message.messageId 0
    timeout 0
  unfold lendVia
  dsimp only
  generalize l.ep.lendRegistryCreate cap cap message.messageId 0 timeout 0 = registered at hcreate ⊢
  split
  · have hsent := hsend { l with ep := registered.1 } (hcreate.sound h)
    split
    · next heq =>
      rw [heq] at hsent
      exact hsent.congr hcreate (.refl _)
    · exact hsent.congr hcreate (Endpoint.sameQueues_removeLend _)
  · rw [hfull]
    exact hcreate.traffic h

theorem traffic_lend (cap : Capability) (timeout : ℕ) :
    l.ep.Traffic (l.lend cap timeout).1.ep
      (sentIf (.bit (l.lend cap timeout).2) (lendMessage l.ids cap timeout)) [] := by
  unfold lend
  split
  · exact (Endpoint.SameQueues.refl l.ep).traffic h
  · exact traffic_lendVia (l := l.drawn) h cap timeout _ (fun _ => rfl)
      fun l hl => traffic_send hl _

theorem traffic_lendTracked (cap : Capability) (timeout predecessorVoidId : ℕ) :
    l.ep.Traffic (l.lendTracked cap timeout predecessorVoidId).1.ep
      (sentIf (.bit (l.lendTracked cap timeout predecessorVoidId).2)
        (lendMessage l.ids cap timeout)) [] := by
  unfold lendTracked
  split
  · exact (Endpoint.SameQueues.refl l.ep).traffic h
  dsimp only
  generalize hnoted : (if cap.isVoid then l.recorded else l) = l'
  have hep : l'.ep = l.ep := by
    rw [← hnoted]
    split <;> rfl
  have hmessage : lendMessage l'.ids cap timeout = lendMessage l.ids cap timeout := by
    rw [← hnoted]
    split
    · simp only [lendMessage, Message.new, Ids.generateMessageId, recorded,
        Ids.recordVoid_message]
    · rfl
  rw [hmessage, ← hep]
  rw [← hep] at h
  exact traffic_lendVia (l := l'.drawn) h cap timeout _ recorded_ep
    fun l hl => traffic_sendTracked hl _ predecessorVoidId

omit h in
/-- A request returns the id of its message where it is sent. -/
theorem sentIf_request (ids : Ids) (caps : List Capability) (capCount flags : ℕ) (sent : Vbit) :
    sentIf (.id (if sent = .true then (requestMessage ids caps capCount flags).messageId
      else voidU64)) (requestMessage ids caps capCount flags) =
    sentIf (.bit sent) (requestMessage ids caps capCount flags) := by
  have hid : (requestMessage ids caps capCount flags).messageId ≠ voidU64 := by
    rw [requestMessage, Message.addCaps_messageId]
    exact Ids.fetch_ne_void ids.message
  by_cases hsent : sent = .true
  · simp [sentIf, ChannelResult.accepted, hsent, hid]
  · simp [sentIf, ChannelResult.accepted, hsent]

/-- Every operation that sends appends its message where it succeeds. -/
theorem traffic_sendOp (op : SendOp) :
    l.ep.Traffic (op.run l).1.ep (sentIf (op.run l).2 (op.message l.ids)) [] := by
  have hdead : ∀ r : ChannelResult, r.accepted = false → ∀ m,
      l.ep.Traffic l.ep (sentIf r m) [] := by
    intro r hr m
    rw [sentIf, if_neg (by simp [hr])]
    exact (Endpoint.SameQueues.refl l.ep).traffic h
  cases op with
  | send message => exact traffic_send h message
  | sendTracked message pred => exact traffic_sendTracked h message pred
  | grant cap => exact traffic_send (l := l.drawn) h _
  | grantTracked cap pred =>
    simp only [SendOp.run, grantTracked]
    split
    · refine traffic_post (l := l.drawn.recorded) h
        (.trans ?_ (Message.samePayload_stampTracked ..))
      exact ⟨rfl, rfl, rfl, rfl, rfl, rfl, rfl, rfl⟩
    · exact traffic_sendTracked (l := l.drawn) h _ pred
  | lend cap timeout => exact traffic_lend h cap timeout
  | lendTracked cap timeout pred => exact traffic_lendTracked h cap timeout pred
  | request caps capCount flags =>
    cases caps with
    | none => exact hdead (.id voidU64) (by decide) _
    | some caps =>
      simp only [SendOp.run, request]
      split
      · exact hdead (.id voidU64) (by decide) _
      · have hsend := traffic_send (l := l.drawn) h (requestMessage l.ids caps capCount flags)
        dsimp only [Prod.map_apply, id, SendOp.message, Option.getD_some]
        rwa [sentIf_request]
  | respond requestId caps capCount =>
    simp only [SendOp.run, respond]
    split
    · exact hdead _ rfl _
    · exact traffic_send (l := l.drawn) h _
  | notify caps capCount =>
    simp only [SendOp.run, notify]
    split
    · exact hdead _ rfl _
    · exact traffic_send (l := l.drawn) h _
  | returnCap cap => exact traffic_send (l := l.drawn) h _
  | returnCapById cap lendMessageId => exact traffic_send (l := l.drawn) h _

end Local

/-! ## The operations on one endpoint -/

/-- A send that succeeded : the operation, and the message it was given. -/
abbrev Posting : Type :=
  SendOp × Message

namespace EndOp

/-- What an operation sends. -/
def sent (l : Local) : EndOp → List Posting
  | .post op => (sentIf (op.run l).2 (op.message l.ids)).map fun m => (op, m)
  | _ => []

/-- What an operation receives : `seraph_whisper_recv` receives a message unless it fails. -/
def received (l : Local) : EndOp → List Message
  | .recv => if l.ep.isValid ∧ l.ep.recvQueueEmpty = false then [l.recv.2] else []
  | _ => []

/-- The operation is `seraph_whisper_await_response`. -/
def IsAwait : EndOp → Prop
  | .awaitResponse _ _ => True
  | _ => False

variable {l : Local} (h : l.ep.Sound)

include h

/-- A receive takes out the oldest message. -/
theorem traffic_recv : l.ep.Traffic l.recv.1.ep [] (received l .recv) := by
  cases hvalid : l.ep.isValid with
  | false =>
    have hrecv : l.recv = l.voidMessage := by rw [Local.recv, if_pos hvalid]
    rw [received, if_neg (by simp [hvalid]), hrecv]
    exact (Endpoint.SameQueues.refl l.ep).traffic h
  | true =>
    cases hempty : l.ep.recvQueueEmpty with
    | true =>
      have hrecv : l.recv = l.voidMessage := by
        rw [Local.recv, if_neg (by simp [hvalid]), if_pos hempty]
      rw [received, if_neg (by simp [hempty]), hrecv]
      exact (Endpoint.SameQueues.refl l.ep).traffic h
    | false =>
      have hne : l.ep.inbox ≠ [] := by
        rw [← Bool.not_eq_true, h.recvQueueEmpty] at hempty
        exact hempty
      have hpos : 0 < l.ep.inbox.length := List.length_pos_of_ne_nil hne
      have hfront : l.ep.recvQueue (queueSlot l.ep.recvTail) = l.ep.inbox[0] := h.recvQueue hpos
      have hrecv : l.recv = ({ l with ep := l.ep.dequeue (u32 (l.ep.recvTail + 1)) },
          l.ep.inbox[0]) := by
        rw [Local.recv, if_neg (by simp [hvalid]), if_neg (by simp [hempty]), hfront]
      obtain ⟨hsound, hinbox, houtbox⟩ := h.dequeue hpos
      rw [received, if_pos ⟨hvalid, hempty⟩, hrecv]
      refine ⟨hsound, ⟨[], .nil, by rw [houtbox, List.append_nil]⟩, ?_⟩
      rw [hinbox, List.singleton_append, List.getElem_cons_drop, List.drop_zero]

/-- Waiting for a response takes out everything up to the response it returns. -/
theorem traffic_awaitResponse (requestId maxWait : ℕ) :
    ∃ gone, l.ep.Traffic (l.awaitResponse requestId maxWait).1.ep [] gone := by
  rcases Local.awaitResponse_cases h requestId maxWait with ⟨heq, -⟩ | ⟨k, hk, -, heq⟩ <;> rw [heq]
  · exact ⟨[], (Endpoint.SameQueues.refl l.ep).traffic h⟩
  · obtain ⟨hsound, hinbox, houtbox⟩ := h.dequeue (n := k + 1) hk
    refine ⟨l.ep.inbox.take (k + 1), hsound, ⟨[], .nil, by rw [houtbox, List.append_nil]⟩, ?_⟩
    rw [hinbox, List.take_append_drop]

theorem traffic (op : EndOp) : ∃ gone,
    l.ep.Traffic (op.run l).1.ep ((op.sent l).map Prod.snd) gone ∧
      (¬op.IsAwait → gone = op.received l) := by
  cases op with
  | post op =>
    refine ⟨[], ?_, fun _ => rfl⟩
    rw [sent, List.map_map, Function.comp_def, List.map_id']
    exact Local.traffic_sendOp h op
  | recv => exact ⟨_, traffic_recv h, fun _ => rfl⟩
  | awaitResponse requestId maxWait =>
    obtain ⟨gone, hgone⟩ := traffic_awaitResponse h requestId maxWait
    exact ⟨gone, hgone, fun hnot => absurd trivial hnot⟩
  | peek =>
    refine ⟨[], Endpoint.SameQueues.traffic ?_ h, fun _ => rfl⟩
    simp only [EndOp.run, Local.peek]
    split
    · exact ⟨rfl, rfl⟩
    · split <;> exact ⟨rfl, rfl⟩
  | handleReturn msg =>
    exact ⟨[], (Endpoint.sameQueues_handleReturn msg).traffic h, fun _ => rfl⟩
  | revokeLend lendMessageId =>
    exact ⟨[], (Endpoint.sameQueues_revokeLend lendMessageId).traffic h, fun _ => rfl⟩
  | revokeLendTracked lendMessageId =>
    exact ⟨[], (Endpoint.sameQueues_revokeLend lendMessageId).traffic h, fun _ => rfl⟩
  | processLends chronon =>
    refine ⟨[], ?_, fun _ => rfl⟩
    simp only [EndOp.run, Prod.map_fst, Local.withEp]
    exact (Endpoint.sameQueues_processLends chronon).traffic h
  | processLendsTracked chronon maxVoidIds =>
    refine ⟨[], ?_, fun _ => rfl⟩
    simp only [EndOp.run, Prod.map_fst, id]
    exact (Local.sameQueues_processLendsTracked chronon maxVoidIds).traffic h

end EndOp

/-! ## Transfer -/

namespace Channel

variable {c : Channel}

/-- The messages that are under way from a side. -/
def flow (c : Channel) (side : Side) : List Message :=
  (c.ep side.other).inbox ++ (c.ep side).outbox

/-- The queues of both ends hold their contents. -/
def Sound (c : Channel) : Prop :=
  ∀ side, (c.ep side).Sound

/-- A message that is handed over goes from the front of one queue to the end of another. -/
theorem handOver_queues {src dst : Endpoint} (hsrc : src.Sound) (hdst : dst.Sound)
    (hsend : src.sendHead ≠ src.sendTail) (hroom : dst.recvQueueFull = false) :
    ∃ msg, (src.handOver dst).1.Sound ∧ (src.handOver dst).2.Sound ∧
      src.outbox = msg :: (src.handOver dst).1.outbox ∧
      (src.handOver dst).1.inbox = src.inbox ∧
      (src.handOver dst).2.inbox = dst.inbox ++ [msg] ∧
      (src.handOver dst).2.outbox = dst.outbox := by
  have hdvd := queueSize_dvd
  have hne : src.outbox ≠ [] := fun h => hsend ((hsrc.send.head_eq_tail_iff hdvd).2 h)
  obtain ⟨msg, rest, hout⟩ := List.exists_cons_of_ne_nil hne
  have hfront : src.sendQueue (queueSlot src.sendTail) = msg := by
    have := hsrc.send
    rw [hout] at this
    rw [queueSlot_eq]
    exact this.front
  have hlen : dst.inbox.length + 1 < queueSize := by
    rw [Endpoint.recvQueueFull, decide_eq_false_iff_not, hdst.recvQueueDepth] at hroom
    omega
  -- the lends of the two ends change apart from the queues
  have hlend : src.SameQueues (if msg.type = .lend then
      src.setBorrower msg.messageId dst.endpointId else src) := by
    split
    · exact Endpoint.sameQueues_setBorrower _ _
    · exact .refl src
  have hreturn : dst.SameQueues (if msg.type = .ret then (dst.handleReturn msg).1 else dst) := by
    split
    · exact Endpoint.sameQueues_handleReturn msg
    · exact .refl dst
  have hpop := hsrc.send.advance hdvd (n := 1) (by simp [hout])
  have hpush := hdst.recv.push hdvd hlen msg
  have hkeep1 := hsrc.recv
  have hkeep2 := hdst.send
  rw [← hlend.sendRing_pop] at hpop
  rw [← hreturn.recvRing_push] at hpush
  rw [← hlend.recv] at hkeep1
  rw [← hreturn.send] at hkeep2
  simp only [Endpoint.handOver, hfront]
  refine ⟨msg, .of_holds hpop hkeep1, .of_holds hkeep2 hpush, ?_, hkeep1.contents hdvd,
    hpush.contents hdvd, hkeep2.contents hdvd⟩
  have hrest := hpop.contents hdvd
  rw [hout, List.drop_one, List.tail_cons] at hrest
  exact hout.trans (congrArg (List.cons msg) hrest.symm)

/-- The same messages are under way, in channels whose queues are sound. -/
structure SameFlow (c c' : Channel) : Prop where
  sound : c'.Sound
  flow : ∀ side, c'.flow side = c.flow side

theorem SameFlow.trans {c c' c'' : Channel} (h : SameFlow c c') (h' : SameFlow c' c'') :
    SameFlow c c'' :=
  ⟨h'.sound, fun side => (h'.flow side).trans (h.flow side)⟩

theorem Sound.sameFlow (h : c.Sound) : SameFlow c c :=
  ⟨h, fun _ => rfl⟩

/-- Operations apart from the queues keep what is under way. -/
theorem Sound.sameFlow_of {c' : Channel} (h : c.Sound)
    (hsame : ∀ side, (c.ep side).SameQueues (c'.ep side)) : SameFlow c c' where
  sound := fun side => (hsame side).sound (h side)
  flow := fun side => by rw [flow, (hsame side.other).inbox, (hsame side).outbox, flow]

theorem sameFlow_close (h : c.Sound) : SameFlow c c.close.1 := by
  refine h.sameFlow_of fun side => ?_
  unfold close
  split
  · exact .refl _
  · cases side <;> exact ⟨rfl, rfl⟩

/-- A round of a transfer moves one message within the flow from its side. -/
theorem sameFlow_move {s t : Channel × ℕ} (h : s.1.Sound) {side : Side}
    (hmove : move s side = some t) :
    SameFlow s.1 t.1 ∧ (t.1.ep side).outbox.length < (s.1.ep side).outbox.length := by
  rw [move_eq] at hmove
  split at hmove
  · cases hmove
  · next hsend =>
    split at hmove
    · cases hmove
    · next hroom =>
      obtain ⟨msg, hsound, hsound', hout, hin, hin', hout'⟩ :=
        handOver_queues (h side) (h side.other) hsend (Bool.eq_false_iff.2 hroom)
      rw [← Option.some.inj hmove]
      generalize (s.1.ep side).handOver (s.1.ep side.other) = moved at *
      refine ⟨⟨?_, ?_⟩, ?_⟩
      · refine Side.forall_of side ?_ ?_
        · rwa [ep_setEp_of_other, ep_setEp_self]
        · rwa [ep_setEp_self]
      · refine Side.forall_of side ?_ ?_
        · rw [flow, flow, ep_setEp_self, ep_setEp_of_other, ep_setEp_self, hin', hout,
            List.append_assoc, List.singleton_append]
        · rw [flow, flow, Side.other_other, ep_setEp_of_other, ep_setEp_self, ep_setEp_self, hin,
            hout']
      · rw [ep_setEp_of_other, ep_setEp_self, hout, List.length_cons]
        exact Nat.lt_succ_self _

/-- A transfer keeps what is under way. -/
theorem sameFlow_transfer (h : c.Sound) : SameFlow c c.transfer.1 := by
  unfold transfer
  split
  · exact h.sameFlow
  · have hround : ∀ side, ∀ s t : Channel × ℕ, SameFlow c s.1 → move s side = some t →
        SameFlow c t.1 :=
      fun side s t hs hmove => hs.trans (sameFlow_move hs.sound hmove).1
    exact Loops.loop_invariant (I := fun s : Channel × ℕ => SameFlow c s.1) (hround .child) _
      (Loops.loop_invariant (I := fun s : Channel × ℕ => SameFlow c s.1) (hround .parent) _
        (s := (c, 0)) h.sameFlow)

end Channel

/-! ## Runs -/

/-- One operation of a run on a channel. -/
abbrev ChannelCall : Type :=
  Call ChannelState ChannelOp ChannelResult

/-- The operation is `seraph_whisper_await_response`. -/
def ChannelOp.IsAwait : ChannelOp → Prop
  | .act _ op => op.IsAwait
  | _ => False

namespace ChannelState

/-- What an operation sends from a side. -/
def posted (side : Side) (c : ChannelCall) : List Posting :=
  match c.op with
  | .act s op => if s = side then op.sent (c.before.workAt s) else []
  | _ => []

/-- What an operation receives at a side. -/
def received (side : Side) (c : ChannelCall) : List Message :=
  match c.op with
  | .act s op => if s = side then op.received (c.before.workAt s) else []
  | _ => []

/-- The messages under way from a side : first those that have been transferred. -/
def flow (w : ChannelState) (side : Side) : List Message :=
  w.channel.flow side

variable {w : ChannelState}

theorem sound_start (ids : Ids) :
    (start ids).channel.Sound ∧ ∀ side, (start ids).flow side = [] := by
  have hparent := Endpoint.sound_init ids
  have hchild := Endpoint.sound_init (Endpoint.init ids).2
  refine ⟨?_, ?_⟩
  · exact Side.forall_of .parent hparent.1 hchild.1
  · refine Side.forall_of .parent ?_ ?_
    · change (Endpoint.init _).1.inbox ++ (Endpoint.init _).1.outbox = []
      rw [hchild.2.2, hparent.2.1, List.nil_append]
    · change (Endpoint.init _).1.inbox ++ (Endpoint.init _).1.outbox = []
      rw [hparent.2.2, hchild.2.1, List.nil_append]

/-- What one operation does to the messages under way. -/
theorem step_flow (h : w.channel.Sound) (op : ChannelOp) :
    (w.step op).1.channel.Sound ∧ ∀ side, ∃ gone new,
      List.Forall₂ Message.SamePayload ((posted side ⟨w, op, (w.step op).2⟩).map Prod.snd) new ∧
      w.flow side ++ new = gone ++ (w.step op).1.flow side ∧
      (¬op.IsAwait → gone = received side.other ⟨w, op, (w.step op).2⟩) := by
  -- an operation that sends and receives nothing
  have hquiet : Channel.SameFlow w.channel (w.step op).1.channel →
      (∀ side, posted side ⟨w, op, (w.step op).2⟩ = []) →
      (∀ side, received side ⟨w, op, (w.step op).2⟩ = []) →
      (w.step op).1.channel.Sound ∧ ∀ side, ∃ gone new,
        List.Forall₂ Message.SamePayload ((posted side ⟨w, op, (w.step op).2⟩).map Prod.snd)
          new ∧
        w.flow side ++ new = gone ++ (w.step op).1.flow side ∧
        (¬op.IsAwait → gone = received side.other ⟨w, op, (w.step op).2⟩) := by
    intro hflow hposted hreceived
    refine ⟨hflow.sound, fun side => ⟨[], [], ?_, ?_, fun _ => (hreceived _).symm⟩⟩
    · rw [hposted]
      exact .nil
    · rw [List.append_nil, List.nil_append]
      exact (hflow.flow side).symm
  cases op with
  | act s op =>
    obtain ⟨gone, ⟨hsound, ⟨new, hnew, hout⟩, hin⟩, hgone⟩ := EndOp.traffic (l := w.workAt s)
      (h s) op
    have hself : ((w.step (.act s op)).1.channel.ep s) = (op.run (w.workAt s)).1.ep :=
      Channel.ep_setEp_self _ s
    have hother : ((w.step (.act s op)).1.channel.ep s.other) = w.channel.ep s.other :=
      Channel.ep_setEp_other _ s
    refine ⟨Side.forall_of s (by rwa [hself]) (by rw [hother]; exact h _),
      Side.forall_of s ⟨[], new, ?_, ?_, fun _ => ?_⟩ ⟨gone, [], ?_, ?_, fun hop => ?_⟩⟩
    · simpa [posted] using hnew
    · rw [List.nil_append, flow, flow, Channel.flow, Channel.flow, hother, hself, hout,
        List.append_assoc]
      rfl
    · cases s <;> simp [received, Side.other]
    · cases s <;> simp [posted, Side.other]
    · rw [List.append_nil, flow, flow, Channel.flow, Channel.flow, Side.other_other, hother, hself,
        ← List.append_assoc, ← hin]
      rfl
    · rw [hgone hop]
      simp [received]
  | transfer => exact hquiet (Channel.sameFlow_transfer h) (fun _ => rfl) (fun _ => rfl)
  | close => exact hquiet (Channel.sameFlow_close h) (fun _ => rfl) (fun _ => rfl)
  | other ids => exact hquiet h.sameFlow (fun _ => rfl) (fun _ => rfl)

/-- What a run does to the messages under way. -/
theorem run_flow (h : w.channel.Sound) (ops : List ChannelOp) :
    (run step w ops).channel.Sound ∧ ∀ side, ∃ gone new,
      List.Forall₂ Message.SamePayload
        (((calls step w ops).flatMap (posted side)).map Prod.snd) new ∧
      w.flow side ++ new = gone ++ (run step w ops).flow side ∧
      ((∀ op ∈ ops, ¬op.IsAwait) →
        gone = (calls step w ops).flatMap (received side.other)) := by
  induction ops generalizing w with
  | nil =>
    refine ⟨h, fun side => ⟨[], [], .nil, ?_, fun _ => rfl⟩⟩
    rw [List.append_nil, List.nil_append, run_nil]
  | cons op ops ih =>
    obtain ⟨hsound, hstep⟩ := step_flow h op
    obtain ⟨hsound', hrun⟩ := ih hsound
    refine ⟨hsound', fun side => ?_⟩
    obtain ⟨gone, new, hnew, hflow, hgone⟩ := hstep side
    obtain ⟨gone', new', hnew', hflow', hgone'⟩ := hrun side
    refine ⟨gone ++ gone', new ++ new', ?_, ?_, fun hops => ?_⟩
    · rw [calls, List.flatMap_cons, List.map_append]
      exact List.rel_append hnew hnew'
    · rw [← List.append_assoc, hflow, List.append_assoc, hflow', List.append_assoc, run_cons]
    · rw [calls, List.flatMap_cons, hgone (hops op (by simp)),
        hgone' fun op' hop' => hops op' (by simp [hop'])]

/-- In each direction the messages received and those under way, in the queue to receive and
then in the queue to send, are the messages that were sent, in order; and in no queue is the head
further ahead of the tail than there is room for, so that the mask takes nothing off the depth. -/
theorem delivered (ids : Ids) (ops : List ChannelOp) (hops : ∀ op ∈ ops, ¬op.IsAwait)
    (side : Side) :
    List.Forall₂ Message.SamePayload
      (((calls step (start ids) ops).flatMap (posted side)).map Prod.snd)
      ((calls step (start ids) ops).flatMap (received side.other) ++
        (((run step (start ids) ops).ep side.other).inbox ++
          ((run step (start ids) ops).ep side).outbox)) ∧
      (((run step (start ids) ops).ep side).sendBacklog ≤ queueSize - 1 ∧
        ((run step (start ids) ops).ep side).sendQueueDepth =
          ((run step (start ids) ops).ep side).sendBacklog) ∧
      (((run step (start ids) ops).ep side).recvBacklog ≤ queueSize - 1 ∧
        ((run step (start ids) ops).ep side).recvQueueDepth =
          ((run step (start ids) ops).ep side).recvBacklog) := by
  obtain ⟨hsound, hempty⟩ := sound_start ids
  obtain ⟨hsound', hrun⟩ := run_flow hsound ops
  obtain ⟨gone, new, hnew, hflow, hgone⟩ := hrun side
  rw [hempty, List.nil_append] at hflow
  rw [hgone hops] at hflow
  have hsend := (hsound' side).send.room
  have hrecv := (hsound' side).recv.room
  refine ⟨?_, ⟨?_, ?_⟩, ?_, ?_⟩
  · rw [hflow] at hnew
    exact hnew
  · rw [ep, (hsound' side).sendBacklog]
    omega
  · rw [ep, (hsound' side).sendQueueDepth, (hsound' side).sendBacklog]
  · rw [ep, (hsound' side).recvBacklog]
    omega
  · rw [ep, (hsound' side).recvQueueDepth, (hsound' side).recvBacklog]

/-- The parent grants a capability and notifies the child, which receives the first message. -/
def grantRun : List ChannelOp :=
  [.act .parent (.post (.grant ⟨4096, 64, 1, 3, 0, 0⟩)), .act .parent (.post (.notify [] 0)),
    .transfer, .act .child .recv]

theorem delivered_grantRun :
    ((calls step (start .first) grantRun).flatMap (received .child)).map (·.messageId) = [1] ∧
      ((run step (start .first) grantRun).ep .child).inbox.map (·.messageId) = [2] ∧
      List.Forall₂ Message.SamePayload
        (((calls step (start .first) grantRun).flatMap (posted .parent)).map Prod.snd)
        ((calls step (start .first) grantRun).flatMap (received .child) ++
          (((run step (start .first) grantRun).ep .child).inbox ++
            ((run step (start .first) grantRun).ep .parent).outbox)) := by
  have hops : ∀ op ∈ grantRun, ¬op.IsAwait := by
    simp [grantRun, ChannelOp.IsAwait, EndOp.IsAwait]
  exact ⟨by decide, by decide +kernel, (delivered .first grantRun hops .parent).1⟩

end ChannelState

end Seraph
