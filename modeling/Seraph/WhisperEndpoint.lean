import Seraph.RingBuffer
import Seraph.WhisperMessage

/-!
# Whisper endpoints

An endpoint has a queue of messages to send and one of messages received, both rings of 64
slots with 32-bit counters. A message enters the send queue through `post`, which
`seraph_whisper_send` and `seraph_whisper_send_tracked` share, and leaves the receive queue
through `recv`; the endpoint also keeps a registry of the capabilities it lent out.

`sendRing` and `recvRing` are the queues as ring buffers. A send appends its message to the one, or
leaves both alone.
-/

namespace Seraph

open RingBuffer

/-- `SERAPH_WHISPER_QUEUE_SIZE`. -/
abbrev queueSize : ℕ :=
  64

instance : NeZero queueSize :=
  ⟨by decide⟩

/-- `SERAPH_WHISPER_QUEUE_MASK`. -/
def queueMask : ℕ :=
  queueSize - 1

/-- `SERAPH_WHISPER_MAX_LENDS`. -/
abbrev maxLends : ℕ :=
  64

/-- `Seraph_Whisper_Lend_Status`. -/
inductive LendStatus where
  | void
  | active
  | returned
  | expired
  | revoked
deriving DecidableEq, Repr

/-- `Seraph_Whisper_Lend_Record`. -/
structure LendRecord where
  originalCap : Capability
  borrowedCap : Capability
  lendMessageId : ℕ
  lendChronon : ℕ
  /-- Zero for a lend that never expires. -/
  expiryChronon : ℕ
  borrowerEndpointId : ℕ
  status : LendStatus
deriving DecidableEq, Repr

/-- All bytes zero. -/
def LendRecord.zero : LendRecord :=
  ⟨Capability.zero, Capability.zero, 0, 0, 0, 0, .void⟩

/-- `Seraph_Whisper_Endpoint`. -/
structure Endpoint where
  sendQueue : Fin queueSize → Message
  recvQueue : Fin queueSize → Message
  sendHead : ℕ
  sendTail : ℕ
  recvHead : ℕ
  recvTail : ℕ
  connected : Vbit
  totalSent : ℕ
  totalReceived : ℕ
  totalDropped : ℕ
  endpointId : ℕ
  lendRegistry : Fin maxLends → LendRecord
  activeLendCount : ℕ
  totalLends : ℕ
  totalReturns : ℕ
  totalExpirations : ℕ
  totalRevocations : ℕ

/-- The slot of a queue counter, `counter & SERAPH_WHISPER_QUEUE_MASK`. -/
def queueSlot (counter : ℕ) : Fin queueSize :=
  ⟨counter &&& queueMask, Nat.and_lt_two_pow counter (n := 6) (by decide)⟩

namespace Endpoint

/-- `endpoint_init`. -/
def init (ids : Ids) : Endpoint × Ids :=
  ({ sendQueue := fun _ => .zero
     recvQueue := fun _ => .zero
     sendHead := 0
     sendTail := 0
     recvHead := 0
     recvTail := 0
     connected := .true
     totalSent := 0
     totalReceived := 0
     totalDropped := 0
     endpointId := ids.generateEndpointId.1
     lendRegistry := fun _ => .zero
     activeLendCount := 0
     totalLends := 0
     totalReturns := 0
     totalExpirations := 0
     totalRevocations := 0 }, ids.generateEndpointId.2)

variable (e : Endpoint)

/-- `endpoint_is_valid`. -/
def isValid : Bool :=
  e.connected = .true

/-- `send_queue_depth`. -/
def sendQueueDepth : ℕ :=
  u32 (e.sendHead + 2 ^ 32 - e.sendTail) &&& queueMask

/-- `recv_queue_depth`. -/
def recvQueueDepth : ℕ :=
  u32 (e.recvHead + 2 ^ 32 - e.recvTail) &&& queueMask

/-- `send_queue_full`. -/
def sendQueueFull : Bool :=
  queueSize - 1 ≤ e.sendQueueDepth

/-- `recv_queue_empty`. -/
def recvQueueEmpty : Bool :=
  e.recvHead = e.recvTail

/-- Put a message into the send queue. -/
def enqueue (msg : Message) : Endpoint :=
  { e with
    sendQueue := Function.update e.sendQueue (queueSlot e.sendHead) msg
    sendHead := u32 (e.sendHead + 1)
    totalSent := u64 (e.totalSent + 1) }

/-- Take the messages before `tail` out of the receive queue, as one message received. -/
def dequeue (tail : ℕ) : Endpoint :=
  { e with recvTail := tail, totalReceived := u64 (e.totalReceived + 1) }

/-- `lend_registry_find_empty`. -/
def findEmpty : Option (Fin maxLends) :=
  (List.finRange maxLends).find? fun i => (e.lendRegistry i).status = .void

/-- `lend_registry_find_by_id`. -/
def findById (messageId : ℕ) : Option (Fin maxLends) :=
  (List.finRange maxLends).find? fun i =>
    (e.lendRegistry i).lendMessageId = messageId ∧ (e.lendRegistry i).status ≠ .void

/-- The record that `lend_registry_create` writes. -/
def newLend (originalCap borrowedCap : Capability)
    (messageId currentChronon timeout borrowerEndpointId : ℕ) : LendRecord where
  originalCap := originalCap
  borrowedCap := borrowedCap
  lendMessageId := messageId
  lendChronon := currentChronon
  expiryChronon := if 0 < timeout then u64 (currentChronon + timeout) else 0
  borrowerEndpointId := borrowerEndpointId
  status := .active

/-- `lend_registry_create`. -/
def lendRegistryCreate (originalCap borrowedCap : Capability)
    (messageId currentChronon timeout borrowerEndpointId : ℕ) : Endpoint × Vbit :=
  match e.findEmpty with
  | none => (e, .false)
  | some slot =>
    ({ e with
        lendRegistry := Function.update e.lendRegistry slot
          (newLend originalCap borrowedCap messageId currentChronon timeout borrowerEndpointId)
        activeLendCount := u32 (e.activeLendCount + 1)
        totalLends := u64 (e.totalLends + 1) }, .true)

/-- End the lend in a slot: its record gets another status, and one lend fewer is active. -/
def settle (slot : Fin maxLends) (status : LendStatus) : Endpoint :=
  { e with
    lendRegistry := Function.update e.lendRegistry slot
      { e.lendRegistry slot with status := status }
    activeLendCount := u32 (e.activeLendCount + 2 ^ 32 - 1) }

/-- Remove the record of a lend that could not be sent. -/
def removeLend (messageId : ℕ) : Endpoint :=
  match e.findById messageId with
  | none => e
  | some slot => e.settle slot .void

/-- The send queue as a ring. -/
def sendRing : Buffer Message queueSize :=
  ⟨e.sendQueue, e.sendHead, e.sendTail⟩

/-- The receive queue as a ring. -/
def recvRing : Buffer Message queueSize :=
  ⟨e.recvQueue, e.recvHead, e.recvTail⟩

/-- How far the head of the send queue is ahead of its tail, before the mask. -/
def sendBacklog : ℕ :=
  u32 (e.sendHead + 2 ^ 32 - e.sendTail)

/-- How far the head of the receive queue is ahead of its tail, before the mask. -/
def recvBacklog : ℕ :=
  u32 (e.recvHead + 2 ^ 32 - e.recvTail)

/-- The messages in the send queue, oldest first. -/
def outbox : List Message :=
  e.sendRing.contents (2 ^ 32)

/-- The messages in the receive queue, oldest first. -/
def inbox : List Message :=
  e.recvRing.contents (2 ^ 32)

end Endpoint

/-- An endpoint at work: the endpoint, and the counters it shares with all others. -/
structure Local where
  ids : Ids
  ep : Endpoint

/-! ## The messages that the operations send -/

/-- The message of `seraph_whisper_grant`. -/
def grantMessage (ids : Ids) (cap : Capability) : Message :=
  ((Message.new ids .grant).1.addCap cap).1

/-- The message of `seraph_whisper_lend`. -/
def lendMessage (ids : Ids) (cap : Capability) (timeout : ℕ) : Message :=
  ({ (Message.new ids .lend).1 with
      lendTimeout := u32 timeout
      flags := (Message.new ids .lend).1.flags ||| flagBorrowed }.addCap cap).1

/-- The message of `seraph_whisper_request`. -/
def requestMessage (ids : Ids) (caps : List Capability) (capCount flags : ℕ) : Message :=
  { (Message.new ids .request).1 with flags := flags ||| flagReplyReq }.addCaps caps capCount

/-- The message of `seraph_whisper_respond`; the sender is overwritten when it is sent. -/
def respondMessage (ids : Ids) (requestId : ℕ) (caps : List Capability) (capCount : ℕ) :
    Message :=
  { (Message.new ids .response).1 with senderId := requestId }.addCaps caps capCount

/-- The message of `seraph_whisper_notify`. -/
def notifyMessage (ids : Ids) (caps : List Capability) (capCount : ℕ) : Message :=
  (Message.new ids .notification).1.addCaps caps capCount

/-- The message of `seraph_whisper_return_cap_by_id`, and with id 0 that of
`seraph_whisper_return_cap`. -/
def returnMessage (ids : Ids) (cap : Capability) (lendMessageId : ℕ) : Message :=
  ({ (Message.new ids .ret).1 with reserved := lendMessageId }.addCap cap).1

namespace Local

variable (l : Local)

/-- After `whisper_record_void`. -/
def recorded : Local :=
  { l with ids := l.ids.recordVoid.2 }

/-- After `seraph_whisper_message_new`. -/
def drawn : Local :=
  { l with ids := l.ids.generateMessageId.2 }

/-! ## Sending -/

/-- Send a message that has been stamped, unless the endpoint is dead or its queue full. -/
def post (stamped : Message × Ids) : Local × Vbit :=
  if l.ep.isValid = false then (l.recorded, .void)
  else if l.ep.sendQueueFull then
    ({ l.recorded with ep := { l.ep with totalDropped := u64 (l.ep.totalDropped + 1) } }, .false)
  else (⟨stamped.2, l.ep.enqueue stamped.1⟩, .true)

/-- `seraph_whisper_send`. -/
def send (message : Message) : Local × Vbit :=
  l.post (message.stamp l.ids l.ep.endpointId)

/-- `seraph_whisper_send_tracked`. -/
def sendTracked (message : Message) (predecessorVoidId : ℕ) : Local × Vbit :=
  l.post (message.stampTracked l.ids l.ep.endpointId predecessorVoidId)

/-- `seraph_whisper_grant`. -/
def grant (cap : Capability) : Local × Vbit :=
  l.drawn.send (grantMessage l.ids cap)

/-- `seraph_whisper_grant_tracked`. -/
def grantTracked (cap : Capability) (predecessorVoidId : ℕ) : Local × Vbit :=
  if cap.isVoid then
    l.drawn.recorded.sendTracked
      { grantMessage l.ids cap with voidId := l.drawn.ids.recordVoid.1 }
      l.drawn.ids.recordVoid.1
  else l.drawn.sendTracked (grantMessage l.ids cap) predecessorVoidId

/-- Register a lend and send its message; take the record back if the message is not sent.
`full` is what is done where the registry is full. -/
def lendVia (cap : Capability) (timeout : ℕ) (message : Message) (full : Local → Local)
    (send : Local → Message → Local × Vbit) : Local × Vbit :=
  let registered := l.ep.lendRegistryCreate cap cap message.messageId 0 timeout 0
  if registered.2 = .true then
    let sent := send { l with ep := registered.1 } message
    if sent.2 = .true then (sent.1, .true)
    else ({ sent.1 with ep := sent.1.ep.removeLend message.messageId }, sent.2)
  else (full { l with ep := registered.1 }, .false)

/-- `seraph_whisper_lend`. -/
def lend (cap : Capability) (timeout : ℕ) : Local × Vbit :=
  if l.ep.isValid = false then (l, .void)
  else l.drawn.lendVia cap timeout (lendMessage l.ids cap timeout) id send

/-- `seraph_whisper_lend_tracked`. -/
def lendTracked (cap : Capability) (timeout predecessorVoidId : ℕ) : Local × Vbit :=
  if l.ep.isValid = false then (l.recorded, .void)
  else
    -- a VOID capability is recorded and sent all the same
    let l := if cap.isVoid then l.recorded else l
    l.drawn.lendVia cap timeout (lendMessage l.ids cap timeout) recorded
      fun l message => l.sendTracked message predecessorVoidId

/-- `seraph_whisper_request`, with `none` for a null pointer. -/
def request (caps : Option (List Capability)) (capCount flags : ℕ) : Local × ℕ :=
  match caps with
  | none => (l, voidU64)
  | some caps =>
    if l.ep.isValid = false then (l, voidU64)
    else
      let msg := requestMessage l.ids caps capCount flags
      let sent := l.drawn.send msg
      (sent.1, if sent.2 = .true then msg.messageId else voidU64)

/-- `seraph_whisper_respond`. -/
def respond (requestId : ℕ) (caps : List Capability) (capCount : ℕ) : Local × Vbit :=
  if l.ep.isValid = false then (l, .void)
  else l.drawn.send (respondMessage l.ids requestId caps capCount)

/-- `seraph_whisper_notify`. -/
def notify (caps : List Capability) (capCount : ℕ) : Local × Vbit :=
  if l.ep.isValid = false then (l, .void)
  else l.drawn.send (notifyMessage l.ids caps capCount)

/-- `seraph_whisper_return_cap`. -/
def returnCap (cap : Capability) : Local × Vbit :=
  l.drawn.send (returnMessage l.ids cap 0)

/-- `seraph_whisper_return_cap_by_id`. -/
def returnCapById (cap : Capability) (lendMessageId : ℕ) : Local × Vbit :=
  l.drawn.send (returnMessage l.ids cap lendMessageId)

/-! ## Receiving -/

/-- The VOID message that is returned where there is nothing to receive. -/
def voidMessage : Local × Message :=
  (l.recorded, { Message.void with voidId := l.ids.recordVoid.1 })

/-- `seraph_whisper_recv` that does not block. -/
def recv : Local × Message :=
  if l.ep.isValid = false then l.voidMessage
  else if l.ep.recvQueueEmpty then l.voidMessage
  else
    ({ l with ep := l.ep.dequeue (u32 (l.ep.recvTail + 1)) },
      l.ep.recvQueue (queueSlot l.ep.recvTail))

/-- `seraph_whisper_peek`. -/
def peek : Local × Message :=
  if l.ep.isValid = false then l.voidMessage
  else if l.ep.recvQueueEmpty then l.voidMessage
  else (l, l.ep.recvQueue (queueSlot l.ep.recvTail))

/-- The loop of `seraph_whisper_await_response` : the counter of the first response. -/
def scanResponse (e : Endpoint) (maxWait : ℕ) : ℕ → ℕ → ℕ → Option ℕ
  | 0, _, _ => none
  | fuel + 1, tail, count =>
    if tail ≠ e.recvHead ∧ (maxWait = 0 ∨ count < maxWait) then
      if (e.recvQueue (queueSlot tail)).type = .response then some tail
      else scanResponse e maxWait fuel (u32 (tail + 1)) (u32 (count + 1))
    else none

/-- `seraph_whisper_await_response`. A 32-bit counter reaches another in fewer than `2 ^ 32`
rounds. -/
def awaitResponse (requestId maxWait : ℕ) : Local × Message :=
  if l.ep.isValid = false ∨ requestId = voidU64 then (l, Message.void)
  else
    match scanResponse l.ep maxWait (2 ^ 32) l.ep.recvTail 0 with
    | some tail => ({ l with ep := l.ep.dequeue (u32 (tail + 1)) }, l.ep.recvQueue (queueSlot tail))
    | none => (l, Message.void)

end Local

/-! ## The queues as rings -/

theorem queueSize_dvd : queueSize ∣ 2 ^ 32 :=
  ⟨2 ^ 26, by norm_num⟩

theorem queueSlot_eq (counter : ℕ) : queueSlot counter = Buffer.slot queueSize counter := by
  rw [Fin.ext_iff, Buffer.slot, Fin.val_ofNat]
  exact Nat.and_two_pow_sub_one_eq_mod counter 6

theorem queueSlot_u32 (counter : ℕ) : queueSlot (u32 counter) = queueSlot counter := by
  rw [queueSlot_eq, queueSlot_eq]
  exact Buffer.slot_mod queueSize_dvd counter

/-- Recording a VOID leaves the endpoint alone. -/
theorem Local.recorded_ep (l : Local) : l.recorded.ep = l.ep :=
  rfl

namespace Endpoint

/-- The queues hold their contents. -/
structure Sound (e : Endpoint) : Prop where
  send : e.sendRing.Holds (2 ^ 32) e.outbox
  recv : e.recvRing.Holds (2 ^ 32) e.inbox

variable {e : Endpoint}

/-- Queues that hold some lists hold their contents. -/
theorem Sound.of_holds {xs ys : List Message} (hs : e.sendRing.Holds (2 ^ 32) xs)
    (hr : e.recvRing.Holds (2 ^ 32) ys) : e.Sound where
  send := by rwa [outbox, hs.contents queueSize_dvd]
  recv := by rwa [inbox, hr.contents queueSize_dvd]

theorem sound_init (ids : Ids) :
    (init ids).1.Sound ∧ (init ids).1.outbox = [] ∧ (init ids).1.inbox = [] := by
  have hs : (init ids).1.sendRing.Holds (2 ^ 32) [] := .nil (Nat.two_pow_pos 32) rfl
  have hr : (init ids).1.recvRing.Holds (2 ^ 32) [] := .nil (Nat.two_pow_pos 32) rfl
  exact ⟨.of_holds hs hr, hs.contents queueSize_dvd, hr.contents queueSize_dvd⟩

theorem sendQueueDepth_eq : e.sendQueueDepth = e.sendRing.depth (2 ^ 32) :=
  Nat.and_two_pow_sub_one_eq_mod _ 6

theorem recvQueueDepth_eq : e.recvQueueDepth = e.recvRing.depth (2 ^ 32) :=
  Nat.and_two_pow_sub_one_eq_mod _ 6

namespace Sound

variable (h : e.Sound)

include h

theorem sendQueueDepth : e.sendQueueDepth = e.outbox.length :=
  sendQueueDepth_eq.trans (h.send.depth queueSize_dvd)

theorem recvQueueDepth : e.recvQueueDepth = e.inbox.length :=
  recvQueueDepth_eq.trans (h.recv.depth queueSize_dvd)

theorem sendBacklog : e.sendBacklog = e.outbox.length :=
  h.send.head_sub_tail queueSize_dvd

theorem recvBacklog : e.recvBacklog = e.inbox.length :=
  h.recv.head_sub_tail queueSize_dvd

theorem recvQueueEmpty : e.recvQueueEmpty = true ↔ e.inbox = [] := by
  rw [Endpoint.recvQueueEmpty, decide_eq_true_iff]
  exact h.recv.head_eq_tail_iff queueSize_dvd

/-- A message goes to the end of a send queue with room. -/
theorem enqueue (hfull : e.sendQueueFull = false) (msg : Message) :
    (e.enqueue msg).Sound ∧ (e.enqueue msg).outbox = e.outbox ++ [msg] ∧
      (e.enqueue msg).inbox = e.inbox := by
  have hroom : e.outbox.length + 1 < queueSize := by
    rw [Endpoint.sendQueueFull, decide_eq_false_iff_not, h.sendQueueDepth] at hfull
    omega
  have hpush := h.send.push queueSize_dvd hroom msg
  have hring : (e.enqueue msg).sendRing = e.sendRing.push (2 ^ 32) msg := by
    simp only [Endpoint.enqueue, sendRing, Buffer.push, queueSlot_eq, u32]
  rw [← hring] at hpush
  exact ⟨.of_holds hpush h.recv, hpush.contents queueSize_dvd, rfl⟩

/-- Taking `n` messages out of the receive queue. -/
theorem dequeue {n : ℕ} (hn : n ≤ e.inbox.length) :
    (e.dequeue (u32 (e.recvTail + n))).Sound ∧
      (e.dequeue (u32 (e.recvTail + n))).inbox = e.inbox.drop n ∧
      (e.dequeue (u32 (e.recvTail + n))).outbox = e.outbox := by
  have hadv := h.recv.advance queueSize_dvd hn
  exact ⟨.of_holds h.send hadv, hadv.contents queueSize_dvd, rfl⟩

/-- The message at a position of the receive queue. -/
theorem recvQueue {i : ℕ} (hi : i < e.inbox.length) :
    e.recvQueue (queueSlot (e.recvTail + i)) = e.inbox[i] := by
  rw [queueSlot_eq]
  exact h.recv.slots i hi

end Sound

end Endpoint

/-! ## Waiting for a response -/

/-- The messages that `seraph_whisper_await_response` looks at. -/
def scanned (maxWait : ℕ) (inbox : List Message) : List Message :=
  if maxWait = 0 then inbox else inbox.take maxWait

/-- The position of the first response among them. -/
def firstResponse (maxWait : ℕ) (inbox : List Message) : Option ℕ :=
  (scanned maxWait inbox).findIdx? fun msg => msg.type = .response

namespace Endpoint.Sound

variable {e : Endpoint} (h : e.Sound)

include h

/-- The counter of a message in the receive queue is not the head. -/
theorem recvHead_ne {i : ℕ} (hi : i < e.inbox.length) : u32 (e.recvTail + i) ≠ e.recvHead := by
  have hhead : e.recvHead = (e.recvTail + e.inbox.length) % 2 ^ 32 := h.recv.head
  have hroom : e.inbox.length < 64 := h.recv.room
  rw [hhead, u32]
  omega

theorem recvHead_eq : u32 (e.recvTail + e.inbox.length) = e.recvHead :=
  h.recv.head.symm

/-- From a message on, the scan goes over the messages that are left. -/
theorem scanResponse_from (maxWait fuel i : ℕ) (hi : i ≤ e.inbox.length)
    (hfuel : e.inbox.length - i < fuel) :
    Local.scanResponse e maxWait fuel (u32 (e.recvTail + i)) i =
      (((scanned maxWait e.inbox).drop i).findIdx? fun msg => msg.type = .response).map
        fun k => u32 (e.recvTail + (i + k)) := by
  have hroom : e.inbox.length < 64 := h.recv.room
  induction fuel generalizing i with
  | zero => exact absurd hfuel (Nat.not_lt_zero _)
  | succ fuel ih =>
    rw [Local.scanResponse]
    rcases hi.lt_or_eq with hlt | rfl
    · by_cases hwait : maxWait = 0 ∨ i < maxWait
      · have hscan : i < (scanned maxWait e.inbox).length := by
          unfold scanned
          split
          · exact hlt
          · rw [List.length_take]
            omega
        have hget : (scanned maxWait e.inbox)[i] = e.inbox[i] := by
          unfold scanned
          split
          · rfl
          · rw [List.getElem_take]
        have hnext : u32 (u32 (e.recvTail + i) + 1) = u32 (e.recvTail + (i + 1)) :=
          Nat.mod_add_mod _ _ _
        rw [if_pos ⟨h.recvHead_ne hlt, hwait⟩, queueSlot_u32, h.recvQueue hlt,
          List.drop_eq_getElem_cons hscan, hget, List.findIdx?_cons, hnext,
          u32_of_lt (show i + 1 < 2 ^ 32 by omega), ih (i + 1) hlt (by omega)]
        by_cases htype : e.inbox[i].type = .response
        · rw [if_pos htype, if_pos (decide_eq_true htype), Option.map_some, Nat.add_zero]
        · rw [if_neg htype, if_neg (by simpa using htype), Option.map_map]
          refine congrArg₂ Option.map (funext fun k => ?_) rfl
          rw [Function.comp_apply, Nat.add_assoc i 1 k, Nat.add_comm 1 k]
      · have hend : (scanned maxWait e.inbox).drop i = [] := by
          rw [List.drop_eq_nil_iff, scanned, if_neg (by omega), List.length_take]
          omega
        rw [if_neg (fun hgo => hwait hgo.2), hend]
        rfl
    · have hend : (scanned maxWait e.inbox).drop e.inbox.length = [] := by
        rw [List.drop_eq_nil_iff, scanned]
        split
        · exact le_refl _
        · exact List.length_take_le' _ _
      rw [if_neg (fun hgo => hgo.1 h.recvHead_eq), hend]
      rfl

end Endpoint.Sound

theorem scanned_prefix (maxWait : ℕ) (inbox : List Message) :
    scanned maxWait inbox <+: inbox := by
  unfold scanned
  split
  · exact List.prefix_refl inbox
  · exact List.take_prefix maxWait inbox

/-- The first response is a response. -/
theorem firstResponse_eq_some {maxWait k : ℕ} {inbox : List Message}
    (h : firstResponse maxWait inbox = some k) :
    ∃ hk : k < inbox.length, inbox[k].type = .response := by
  obtain ⟨hk, htype, -⟩ := List.findIdx?_eq_some_iff_getElem.1 h
  have hprefix := scanned_prefix maxWait inbox
  refine ⟨hk.trans_le hprefix.length_le, ?_⟩
  rw [← hprefix.getElem hk]
  exact of_decide_eq_true htype

/-- Waiting finds nothing, or takes out everything up to the first response. -/
theorem Local.awaitResponse_cases {l : Local} (h : l.ep.Sound) (requestId maxWait : ℕ) :
    (l.awaitResponse requestId maxWait = (l, Message.void) ∧
      (l.ep.isValid = false ∨ requestId = voidU64 ∨
        firstResponse maxWait l.ep.inbox = none)) ∨
    ∃ k, ∃ hk : k < l.ep.inbox.length,
      (l.ep.isValid = true ∧ requestId ≠ voidU64 ∧
        firstResponse maxWait l.ep.inbox = some k) ∧
      l.awaitResponse requestId maxWait =
        ({ l with ep := l.ep.dequeue (u32 (l.ep.recvTail + (k + 1))) }, l.ep.inbox[k]) := by
  have hroom : l.ep.inbox.length < 64 := h.recv.room
  have htail : l.ep.recvTail < 2 ^ 32 := h.recv.tail
  have hscan : scanResponse l.ep maxWait (2 ^ 32) l.ep.recvTail 0 =
      (firstResponse maxWait l.ep.inbox).map fun k => u32 (l.ep.recvTail + k) := by
    have hfrom := h.scanResponse_from maxWait (2 ^ 32) 0 (Nat.zero_le _) (by omega)
    rw [Nat.add_zero, u32_of_lt htail, List.drop_zero] at hfrom
    simpa only [Nat.zero_add, firstResponse] using hfrom
  unfold awaitResponse
  split
  · next hdead => exact .inl ⟨rfl, by tauto⟩
  · next hlive =>
    rw [not_or, Bool.not_eq_false] at hlive
    rw [hscan]
    cases hfirst : firstResponse maxWait l.ep.inbox with
    | none => exact .inl ⟨rfl, .inr (.inr rfl)⟩
    | some k =>
      obtain ⟨hk, -⟩ := firstResponse_eq_some hfirst
      have hnext : u32 (u32 (l.ep.recvTail + k) + 1) = u32 (l.ep.recvTail + (k + 1)) :=
        Nat.mod_add_mod _ _ _
      refine .inr ⟨k, hk, ⟨hlive.1, hlive.2, rfl⟩, ?_⟩
      rw [Option.map_some]
      dsimp only
      rw [hnext, queueSlot_u32, h.recvQueue hk]

end Seraph
