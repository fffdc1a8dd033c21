import Mathlib.Data.Fin.Basic
import Mathlib.Data.List.FinRange
import Mathlib.Data.Fintype.Pi
import Seraph.Capability

/-!
# Whisper messages

A Whisper message carries up to seven capabilities. Its id comes from a counter that all
endpoints share, and a message that carries VOID capabilities gets a VOID id from the table
that records them; both counters are `Ids`. Sending stamps a message with the id of the
endpoint and with its VOID capabilities, and leaves the capabilities alone (`samePayload_stamp`).
-/

namespace Seraph

/-- `SERAPH_WHISPER_MAX_CAPS`. -/
abbrev maxCaps : ℕ :=
  7

/-- `Seraph_Whisper_Type`; `ret` is `SERAPH_WHISPER_RETURN`. -/
inductive WhisperType where
  | request
  | response
  | notification
  | grant
  | lend
  | ret
  | derive
  | copy
  | void
deriving DecidableEq, Repr

/-- `SERAPH_WHISPER_FLAG_REPLY_REQ`. -/
def flagReplyReq : ℕ :=
  2

/-- `SERAPH_WHISPER_FLAG_BORROWED`. -/
def flagBorrowed : ℕ :=
  16

/-- `Seraph_Whisper_Message`. -/
structure Message where
  messageId : ℕ
  senderId : ℕ
  sendChronon : ℕ
  type : WhisperType
  capCount : ℕ
  flags : ℕ
  lendTimeout : ℕ
  caps : Fin maxCaps → Capability
  voidId : ℕ
  voidCapMask : ℕ
  voidCapCount : ℕ
  /-- The first eight bytes of `_reserved`, as a number. -/
  reserved : ℕ
deriving DecidableEq

/-- The counters that all endpoints share. -/
structure Ids where
  /-- `message_id_counter`. -/
  message : ℕ
  /-- `channel_id_counter`. -/
  channel : ℕ
  /-- `endpoint_id_counter`. -/
  endpoint : ℕ
  /-- `next_id` of the VOID table. -/
  void : ℕ
  /-- The VOID table is enabled. -/
  voidEnabled : Bool
deriving DecidableEq, Repr

namespace Ids

/-- The counters of a program that starts, with the VOID table enabled. -/
def first : Ids :=
  ⟨1, 1, 1, 1, true⟩

variable (ids : Ids)

/-- `atomic_fetch_add` on a counter of ids, again if the id is VOID : the id, and the counter
that is left. -/
def fetch (counter : ℕ) : ℕ × ℕ :=
  if counter = voidU64 then (u64 (counter + 1), u64 (counter + 2))
  else (counter, u64 (counter + 1))

/-- `generate_message_id`. -/
def generateMessageId : ℕ × Ids :=
  ((fetch ids.message).1, { ids with message := (fetch ids.message).2 })

/-- `generate_channel_id`. -/
def generateChannelId : ℕ × Ids :=
  ((fetch ids.channel).1, { ids with channel := (fetch ids.channel).2 })

/-- `generate_endpoint_id`. -/
def generateEndpointId : ℕ × Ids :=
  ((fetch ids.endpoint).1, { ids with endpoint := (fetch ids.endpoint).2 })

/-- `whisper_record_void` : the VOID id. -/
def recordVoid : ℕ × Ids :=
  if ids.voidEnabled then (ids.void, { ids with void := u64 (ids.void + 1) }) else (0, ids)

theorem recordVoid_message : ids.recordVoid.2.message = ids.message := by
  unfold recordVoid
  split <;> rfl

/-- No id is VOID. -/
theorem fetch_ne_void (counter : ℕ) : (fetch counter).1 ≠ voidU64 := by
  unfold fetch
  split
  · next h =>
    rw [h]
    decide
  · next h => exact h

end Ids

namespace Message

/-- All bytes zero. -/
def zero : Message :=
  ⟨0, 0, 0, .request, 0, 0, 0, fun _ => Capability.zero, 0, 0, 0, 0⟩

/-- `SERAPH_WHISPER_MESSAGE_VOID`. -/
def void : Message :=
  { zero with
    messageId := voidU64
    senderId := voidU64
    type := .void
    voidId := voidU64
    voidCapMask := 0xFF }

/-- `seraph_whisper_message_is_void`. -/
def isVoid (msg : Message) : Bool :=
  msg.messageId = voidU64 ∨ msg.type = .void

/-- `seraph_whisper_message_new`. -/
def new (ids : Ids) (type : WhisperType) : Message × Ids :=
  ({ zero with messageId := ids.generateMessageId.1, type := type }, ids.generateMessageId.2)

/-- `seraph_whisper_message_add_cap`. -/
def addCap (msg : Message) (cap : Capability) : Message × Vbit :=
  if h : msg.capCount < maxCaps then
    ({ msg with
        caps := Function.update msg.caps ⟨msg.capCount, h⟩ cap
        capCount := msg.capCount + 1 }, .true)
  else (msg, .false)

/-- Add the first `capCount` capabilities of an array, seven at most. -/
def addCaps (msg : Message) (caps : List Capability) (capCount : ℕ) : Message :=
  (caps.take (min capCount maxCaps)).foldl (fun m cap => (m.addCap cap).1) msg

/-- `compute_void_cap_mask`. -/
def computeVoidCapMask (msg : Message) : ℕ :=
  if msg.capCount = 0 then 0
  else
    (List.finRange maxCaps).foldl
      (fun mask i =>
        if i.val < msg.capCount ∧ (msg.caps i).isVoid then mask ||| (1 <<< i.val) else mask) 0

/-- The loop of `count_void_caps`, on a mask of `bits` bits. -/
def countBits : ℕ → ℕ → ℕ
  | 0, _ => 0
  | bits + 1, mask => if mask = 0 then 0 else (mask &&& 1) + countBits bits (mask >>> 1)

/-- `count_void_caps`. -/
def countVoidCaps (mask : ℕ) : ℕ :=
  countBits 8 mask

/-- The message with its sender and its VOID capabilities filled in. -/
def mark (msg : Message) (sender : ℕ) : Message :=
  { msg with
    senderId := sender
    voidCapMask := computeVoidCapMask msg
    voidCapCount := countVoidCaps (computeVoidCapMask msg) }

/-- What `seraph_whisper_send` enqueues. -/
def stamp (ids : Ids) (msg : Message) (sender : ℕ) : Message × Ids :=
  let m := msg.mark sender
  if 0 < m.voidCapCount ∧ m.voidId = 0 then
    ({ m with voidId := ids.recordVoid.1 }, ids.recordVoid.2)
  else (m, ids)

/-- What `seraph_whisper_send_tracked` enqueues. -/
def stampTracked (ids : Ids) (msg : Message) (sender predecessor : ℕ) : Message × Ids :=
  let m := msg.mark sender
  if 0 < m.voidCapCount ∨ predecessor ≠ 0 then
    ({ m with voidId := ids.recordVoid.1 }, ids.recordVoid.2)
  else (m, ids)

@[simp] theorem addCap_messageId (msg : Message) (cap : Capability) :
    (msg.addCap cap).1.messageId = msg.messageId := by
  unfold addCap
  split <;> rfl

@[simp] theorem addCap_type (msg : Message) (cap : Capability) :
    (msg.addCap cap).1.type = msg.type := by
  unfold addCap
  split <;> rfl

/-- Adding capabilities keeps what adding one keeps. -/
theorem addCaps_keeps {α : Type*} (f : Message → α)
    (hf : ∀ msg cap, f (msg.addCap cap).1 = f msg) (msg : Message) (caps : List Capability)
    (capCount : ℕ) : f (msg.addCaps caps capCount) = f msg := by
  unfold addCaps
  generalize caps.take (min capCount maxCaps) = added
  induction added generalizing msg with
  | nil => rfl
  | cons cap added ih => exact (ih _).trans (hf msg cap)

@[simp] theorem addCaps_messageId (msg : Message) (caps : List Capability) (capCount : ℕ) :
    (msg.addCaps caps capCount).messageId = msg.messageId :=
  addCaps_keeps messageId addCap_messageId msg caps capCount

@[simp] theorem addCaps_type (msg : Message) (caps : List Capability) (capCount : ℕ) :
    (msg.addCaps caps capCount).type = msg.type :=
  addCaps_keeps type addCap_type msg caps capCount

/-- Two messages with the same payload : all fields but the sender and the VOID tracking. -/
structure SamePayload (m m' : Message) : Prop where
  messageId : m'.messageId = m.messageId
  sendChronon : m'.sendChronon = m.sendChronon
  type : m'.type = m.type
  capCount : m'.capCount = m.capCount
  flags : m'.flags = m.flags
  lendTimeout : m'.lendTimeout = m.lendTimeout
  caps : m'.caps = m.caps
  reserved : m'.reserved = m.reserved

theorem SamePayload.trans {m m' m'' : Message} (h : SamePayload m m') (h' : SamePayload m' m'') :
    SamePayload m m'' where
  messageId := h'.messageId.trans h.messageId
  sendChronon := h'.sendChronon.trans h.sendChronon
  type := h'.type.trans h.type
  capCount := h'.capCount.trans h.capCount
  flags := h'.flags.trans h.flags
  lendTimeout := h'.lendTimeout.trans h.lendTimeout
  caps := h'.caps.trans h.caps
  reserved := h'.reserved.trans h.reserved

theorem samePayload_stamp (ids : Ids) (msg : Message) (sender : ℕ) :
    SamePayload msg (stamp ids msg sender).1 := by
  unfold stamp
  dsimp only
  split <;> exact ⟨rfl, rfl, rfl, rfl, rfl, rfl, rfl, rfl⟩

theorem samePayload_stampTracked (ids : Ids) (msg : Message) (sender predecessor : ℕ) :
    SamePayload msg (stampTracked ids msg sender predecessor).1 := by
  unfold stampTracked
  dsimp only
  split <;> exact ⟨rfl, rfl, rfl, rfl, rfl, rfl, rfl, rfl⟩

end Message

end Seraph
