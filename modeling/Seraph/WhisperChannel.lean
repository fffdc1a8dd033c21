import Seraph.Loops
import Seraph.Runs
import Seraph.WhisperLends

/-!
# Whisper channels

A channel is two endpoints, one for the parent and one for the child. `transfer` moves the
messages of each send queue to the receive queue of the other endpoint as long as there is
room; on the way a LEND message gets a borrower and a RETURN message ends a lend.

A `ChannelState` is a channel with the counters of ids, and `step` performs an operation :
one on either endpoint, a transfer, closing the channel, or anything done elsewhere that draws
ids (`ChannelOp.other`). The two ends take turns in any order.
-/

namespace Seraph

/-- `Seraph_Whisper_Channel`. -/
structure Channel where
  parentEnd : Endpoint
  childEnd : Endpoint
  channelId : ℕ
  active : Vbit
  generation : ℕ

/-- The ends of a channel. -/
inductive Side where
  | parent
  | child
deriving DecidableEq, Repr

/-- The other end. -/
def Side.other : Side → Side
  | .parent => .child
  | .child => .parent

/-- What holds of an end and of the other end holds of both. -/
theorem Side.forall_of {P : Side → Prop} (side : Side) (h : P side) (h' : P side.other)
    (s : Side) : P s := by
  cases side <;> cases s <;> assumption

@[simp] theorem Side.other_other (side : Side) : side.other.other = side := by
  cases side <;> rfl

namespace Endpoint

/-- The test for room in a receive queue. -/
def recvQueueFull (e : Endpoint) : Bool :=
  queueSize - 1 ≤ e.recvQueueDepth

/-- Move the oldest message of a send queue to a receive queue. The borrower of a LEND message
is noted by the sender, and a RETURN message ends a lend of the receiver. -/
def handOver (src dst : Endpoint) : Endpoint × Endpoint :=
  let msg := src.sendQueue (queueSlot src.sendTail)
  let src' := if msg.type = .lend then src.setBorrower msg.messageId dst.endpointId else src
  let dst' := if msg.type = .ret then (dst.handleReturn msg).1 else dst
  ({ src' with sendTail := u32 (src.sendTail + 1) },
    { dst' with
      recvQueue := Function.update dst.recvQueue (queueSlot dst.recvHead) msg
      recvHead := u32 (dst.recvHead + 1) })

end Endpoint

namespace Channel

/-- `seraph_whisper_channel_init`. -/
def init (ids : Ids) : Channel × Ids :=
  let parent := Endpoint.init ids
  let child := Endpoint.init parent.2
  ({ parentEnd := parent.1
     childEnd := child.1
     channelId := child.2.generateChannelId.1
     active := .true
     generation := 1 }, child.2.generateChannelId.2)

/-- `seraph_whisper_channel_close`. -/
def close (c : Channel) : Channel × Vbit :=
  if c.active = .false then (c, .void)
  else
    ({ c with
        active := .false
        parentEnd := { c.parentEnd with connected := .false }
        childEnd := { c.childEnd with connected := .false } }, .true)

/-- The end at a side. -/
def ep (c : Channel) : Side → Endpoint
  | .parent => c.parentEnd
  | .child => c.childEnd

/-- Put an end back. -/
def setEp (c : Channel) (e : Endpoint) : Side → Channel
  | .parent => { c with parentEnd := e }
  | .child => { c with childEnd := e }

section

variable {c : Channel}

@[simp] theorem ep_setEp_self (e : Endpoint) (side : Side) : (c.setEp e side).ep side = e := by
  cases side <;> rfl

@[simp] theorem ep_setEp_other (e : Endpoint) (side : Side) :
    (c.setEp e side).ep side.other = c.ep side.other := by
  cases side <;> rfl

@[simp] theorem ep_setEp_of_other (e : Endpoint) (side : Side) :
    (c.setEp e side.other).ep side = c.ep side := by
  cases side <;> rfl

end

/-- A round of the loop of `seraph_whisper_channel_transfer` from parent to child, with the
number of messages moved. It goes on while the receive queue of the parent holds messages, and
then breaks where there is nothing to send. -/
def moveToChild (s : Channel × ℕ) : Option (Channel × ℕ) :=
  if s.1.parentEnd.recvQueueEmpty ∧ s.1.parentEnd.sendHead = s.1.parentEnd.sendTail then none
  else if s.1.parentEnd.sendHead = s.1.parentEnd.sendTail then none
  else if s.1.childEnd.recvQueueFull then none
  else
    let moved := s.1.parentEnd.handOver s.1.childEnd
    some ({ s.1 with parentEnd := moved.1, childEnd := moved.2 }, u32 (s.2 + 1))

/-- A round of the loop from child to parent. -/
def moveToParent (s : Channel × ℕ) : Option (Channel × ℕ) :=
  if s.1.childEnd.sendHead = s.1.childEnd.sendTail then none
  else if s.1.parentEnd.recvQueueFull then none
  else
    let moved := s.1.childEnd.handOver s.1.parentEnd
    some ({ s.1 with childEnd := moved.1, parentEnd := moved.2 }, u32 (s.2 + 1))

/-- `seraph_whisper_channel_transfer`, and how many messages it moves. A 32-bit counter
reaches another in fewer than `2 ^ 32` rounds. -/
def transfer (c : Channel) : Channel × ℕ :=
  if c.active ≠ .true then (c, 0)
  else Loops.loop moveToParent (2 ^ 32) (Loops.loop moveToChild (2 ^ 32) (c, 0))

/-- A round that moves a message from a side, whichever loop it is of. -/
def move (s : Channel × ℕ) : Side → Option (Channel × ℕ)
  | .parent => moveToChild s
  | .child => moveToParent s

/-- The loop from parent to child breaks where the other one ends. -/
theorem move_eq (s : Channel × ℕ) (side : Side) : move s side =
    if (s.1.ep side).sendHead = (s.1.ep side).sendTail then none
    else if (s.1.ep side.other).recvQueueFull then none
    else some (((s.1.setEp ((s.1.ep side).handOver (s.1.ep side.other)).1 side).setEp
      ((s.1.ep side).handOver (s.1.ep side.other)).2 side.other), u32 (s.2 + 1)) := by
  cases side with
  | child => rfl
  | parent =>
    by_cases hsend : s.1.parentEnd.sendHead = s.1.parentEnd.sendTail
    · have hnone : moveToChild s = none := by
        unfold moveToChild
        rw [if_pos hsend, ite_self]
      exact hnone.trans (if_pos hsend).symm
    · refine Eq.trans ?_ (if_neg hsend).symm
      exact (if_neg fun h => hsend h.2).trans (if_neg hsend)

end Channel

/-! ## Operations -/

/-- The operations that send a message. -/
inductive SendOp where
  | send (message : Message)
  | sendTracked (message : Message) (predecessorVoidId : ℕ)
  | grant (cap : Capability)
  | grantTracked (cap : Capability) (predecessorVoidId : ℕ)
  | lend (cap : Capability) (timeout : ℕ)
  | lendTracked (cap : Capability) (timeout predecessorVoidId : ℕ)
  | request (caps : Option (List Capability)) (capCount flags : ℕ)
  | respond (requestId : ℕ) (caps : List Capability) (capCount : ℕ)
  | notify (caps : List Capability) (capCount : ℕ)
  | returnCap (cap : Capability)
  | returnCapById (cap : Capability) (lendMessageId : ℕ)

/-- The operations on one endpoint. -/
inductive EndOp where
  | post (op : SendOp)
  | recv
  | peek
  | awaitResponse (requestId maxWait : ℕ)
  | handleReturn (msg : Message)
  | revokeLend (lendMessageId : ℕ)
  | revokeLendTracked (lendMessageId : ℕ)
  | processLends (currentChronon : ℕ)
  | processLendsTracked (currentChronon maxVoidIds : ℕ)

/-- The operations on a channel. -/
inductive ChannelOp where
  | act (side : Side) (op : EndOp)
  | transfer
  | close
  /-- Anything that leaves the channel alone, with the counters of ids after it. -/
  | other (ids : Ids)

/-- What an operation returns. -/
inductive ChannelResult where
  | none
  | bit (v : Vbit)
  | id (n : ℕ)
  | message (msg : Message)
  | count (n : ℕ)
  | tracked (v : Vbit) (voidId : ℕ)
  | expired (n : ℕ) (voidIds : List ℕ)
deriving DecidableEq

/-- The message that an operation sends. -/
def SendOp.message (ids : Ids) : SendOp → Message
  | .send message => message
  | .sendTracked message _ => message
  | .grant cap => grantMessage ids cap
  | .grantTracked cap _ => grantMessage ids cap
  | .lend cap timeout => lendMessage ids cap timeout
  | .lendTracked cap timeout _ => lendMessage ids cap timeout
  | .request caps capCount flags => requestMessage ids (caps.getD []) capCount flags
  | .respond requestId caps capCount => respondMessage ids requestId caps capCount
  | .notify caps capCount => notifyMessage ids caps capCount
  | .returnCap cap => returnMessage ids cap 0
  | .returnCapById cap lendMessageId => returnMessage ids cap lendMessageId

/-- Send a message. -/
def SendOp.run (l : Local) : SendOp → Local × ChannelResult
  | .send message => Prod.map id .bit (l.send message)
  | .sendTracked message pred => Prod.map id .bit (l.sendTracked message pred)
  | .grant cap => Prod.map id .bit (l.grant cap)
  | .grantTracked cap pred => Prod.map id .bit (l.grantTracked cap pred)
  | .lend cap timeout => Prod.map id .bit (l.lend cap timeout)
  | .lendTracked cap timeout pred => Prod.map id .bit (l.lendTracked cap timeout pred)
  | .request caps capCount flags => Prod.map id .id (l.request caps capCount flags)
  | .respond requestId caps capCount => Prod.map id .bit (l.respond requestId caps capCount)
  | .notify caps capCount => Prod.map id .bit (l.notify caps capCount)
  | .returnCap cap => Prod.map id .bit (l.returnCap cap)
  | .returnCapById cap lendMessageId => Prod.map id .bit (l.returnCapById cap lendMessageId)

/-- Put an endpoint back that an operation of the lend registry changed. -/
def Local.withEp (l : Local) (e : Endpoint) : Local :=
  { l with ep := e }

/-- Perform an operation on an endpoint. -/
def EndOp.run (l : Local) : EndOp → Local × ChannelResult
  | .post op => op.run l
  | .recv => Prod.map id .message l.recv
  | .peek => Prod.map id .message l.peek
  | .awaitResponse requestId maxWait => Prod.map id .message (l.awaitResponse requestId maxWait)
  | .handleReturn msg => Prod.map l.withEp .bit (l.ep.handleReturn msg)
  | .revokeLend lendMessageId => Prod.map l.withEp .bit (l.ep.revokeLend lendMessageId)
  | .revokeLendTracked lendMessageId =>
    Prod.map id (fun r => .tracked r.1 r.2) (l.revokeLendTracked lendMessageId)
  | .processLends chronon => Prod.map l.withEp .count (l.ep.processLends chronon)
  | .processLendsTracked chronon maxVoidIds =>
    Prod.map id (fun r => .expired r.1 r.2) (l.processLendsTracked chronon maxVoidIds)

/-- A channel, and the counters of ids. -/
structure ChannelState where
  ids : Ids
  channel : Channel

namespace ChannelState

/-- A new channel. -/
def start (ids : Ids) : ChannelState :=
  ⟨(Channel.init ids).2, (Channel.init ids).1⟩

variable (w : ChannelState)

/-- The end at a side. -/
def ep (side : Side) : Endpoint :=
  w.channel.ep side

/-- The end at a side, at work. -/
def workAt (side : Side) : Local :=
  ⟨w.ids, w.ep side⟩

/-- Perform an operation. -/
def step : ChannelOp → ChannelState × ChannelResult
  | .act side op =>
    (⟨(op.run (w.workAt side)).1.ids, w.channel.setEp (op.run (w.workAt side)).1.ep side⟩,
      (op.run (w.workAt side)).2)
  | .transfer => ({ w with channel := w.channel.transfer.1 }, .count w.channel.transfer.2)
  | .close => ({ w with channel := w.channel.close.1 }, .bit w.channel.close.2)
  | .other ids => ({ w with ids := ids }, .none)

end ChannelState

end Seraph
