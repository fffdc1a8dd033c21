import Seraph.WhisperLends

/-!
# Whisper calls that leave a trace

Four operations of Whisper are written twice, once so that they record a VOID for each thing that
goes wrong. Here both copies are as the source has them, NULL pointers and the record of VOIDs
included. `Agree` says that two calls differ in the record at most, and in the VOID id that a message
in the send queue has been stamped with : this is all that the copies differ in (`tracked_refines`).
-/

namespace Seraph

/-- `Seraph_VoidReason`, as far as Whisper gives one. -/
inductive VoidReason where
  | nullPtr
  | invalidArg
  | endpointDead
  | channelFull
  | voidCapInMsg
  | lendRegistryFull
  | lendNotFound
  | lendExpired
  | lendRevoked
deriving DecidableEq, Repr

/-- A VOID that `whisper_record_void` has recorded, with the id it got. -/
structure VoidEntry where
  reason : VoidReason
  predecessor : ℕ
  endpointId : ℕ
  messageId : ℕ
  voidId : ℕ
deriving DecidableEq, Repr

/-- What endpoints share : the counters of ids, and the VOIDs that have been recorded. -/
structure Trace where
  ids : Ids
  entries : List VoidEntry

namespace Trace

/-- `whisper_record_void` and `whisper_record_void_loc` : the VOID id. -/
def recordVoid (t : Trace) (reason : VoidReason) (predecessor endpointId messageId : ℕ) :
    ℕ × Trace :=
  (t.ids.recordVoid.1, ⟨t.ids.recordVoid.2, t.entries ++
    [⟨reason, predecessor, endpointId, messageId, t.ids.recordVoid.1⟩]⟩)

/-- `generate_message_id`. -/
def drawn (t : Trace) : Trace :=
  { t with ids := t.ids.generateMessageId.2 }

end Trace

/-- What a call leaves, and what it returns. An endpoint is `none` where the pointer is NULL. -/
structure Reply (α : Type) where
  trace : Trace
  ep : Option Endpoint
  result : α

namespace Traced

/-! ## Sending -/

/-- `seraph_whisper_send`. -/
def send (t : Trace) (ep : Option Endpoint) (message : Message) : Reply Vbit :=
  match ep with
  | none => ⟨(t.recordVoid .nullPtr 0 0 message.messageId).2, none, .void⟩
  | some e =>
    if e.isValid = false then
      ⟨(t.recordVoid .endpointDead 0 e.endpointId message.messageId).2, some e, .void⟩
    else if e.sendQueueFull then
      ⟨(t.recordVoid .channelFull 0 e.endpointId message.messageId).2,
        some { e with totalDropped := u64 (e.totalDropped + 1) }, .false⟩
    else
      let message := { message with senderId := e.endpointId }
      let message := { message with voidCapMask := message.computeVoidCapMask }
      let message := { message with voidCapCount := Message.countVoidCaps message.voidCapMask }
      let (voidId, t) :=
        if 0 < message.voidCapCount ∧ message.voidId = 0 then
          t.recordVoid .voidCapInMsg 0 e.endpointId message.messageId
        else (message.voidId, t)
      let message := { message with voidId := voidId }
      ⟨t, some { e with
        sendQueue := Function.update e.sendQueue (queueSlot e.sendHead) message
        sendHead := u32 (e.sendHead + 1)
        totalSent := u64 (e.totalSent + 1) }, .true⟩

/-- `seraph_whisper_send_tracked`. -/
def sendTracked (t : Trace) (ep : Option Endpoint) (message : Message) (predecessorVoidId : ℕ) :
    Reply Vbit :=
  match ep with
  | none => ⟨(t.recordVoid .nullPtr predecessorVoidId 0 message.messageId).2, none, .void⟩
  | some e =>
    if e.isValid = false then
      ⟨(t.recordVoid .endpointDead predecessorVoidId e.endpointId message.messageId).2, some e,
        .void⟩
    else if e.sendQueueFull then
      ⟨(t.recordVoid .channelFull predecessorVoidId e.endpointId message.messageId).2,
        some { e with totalDropped := u64 (e.totalDropped + 1) }, .false⟩
    else
      let message := { message with senderId := e.endpointId }
      let message := { message with voidCapMask := message.computeVoidCapMask }
      let message := { message with voidCapCount := Message.countVoidCaps message.voidCapMask }
      let (voidId, t) :=
        if 0 < message.voidCapCount ∨ predecessorVoidId ≠ 0 then
          t.recordVoid .voidCapInMsg predecessorVoidId e.endpointId message.messageId
        else (message.voidId, t)
      let message := { message with voidId := voidId }
      ⟨t, some { e with
        sendQueue := Function.update e.sendQueue (queueSlot e.sendHead) message
        sendHead := u32 (e.sendHead + 1)
        totalSent := u64 (e.totalSent + 1) }, .true⟩

/-! ## Lending -/

/-- Take the record of a lend back that could not be sent. -/
def withdraw (ep : Option Endpoint) (messageId : ℕ) : Option Endpoint :=
  ep.map fun e =>
    match e.findById messageId with
    | none => e
    | some slot =>
      { e with
        lendRegistry := Function.update e.lendRegistry slot
          { e.lendRegistry slot with status := .void }
        activeLendCount := u32 (e.activeLendCount + 2 ^ 32 - 1) }

/-- `seraph_whisper_lend`. -/
def lend (t : Trace) (ep : Option Endpoint) (cap : Capability) (timeout : ℕ) : Reply Vbit :=
  match ep with
  | none => ⟨t, none, .void⟩
  | some e =>
    if e.isValid = false then ⟨t, some e, .void⟩
    else
      let msg := lendMessage t.ids cap timeout
      let t := t.drawn
      let (e, registered) := e.lendRegistryCreate cap cap msg.messageId 0 timeout 0
      if registered ≠ .true then ⟨t, some e, .false⟩
      else
        let sent := send t (some e) msg
        if sent.result ≠ .true then
          ⟨sent.trace, withdraw sent.ep msg.messageId, sent.result⟩
        else ⟨sent.trace, sent.ep, .true⟩

/-- `seraph_whisper_lend_tracked`. -/
def lendTracked (t : Trace) (ep : Option Endpoint) (cap : Capability)
    (timeout predecessorVoidId : ℕ) : Reply Vbit :=
  match ep with
  | none => ⟨(t.recordVoid .nullPtr predecessorVoidId 0 0).2, none, .void⟩
  | some e =>
    if e.isValid = false then
      ⟨(t.recordVoid .endpointDead predecessorVoidId e.endpointId 0).2, some e, .void⟩
    else
      -- a VOID capability is recorded and sent all the same
      let t := if cap.isVoid then
          (t.recordVoid .voidCapInMsg predecessorVoidId e.endpointId 0).2
        else t
      let msg := lendMessage t.ids cap timeout
      let t := t.drawn
      let (e, registered) := e.lendRegistryCreate cap cap msg.messageId 0 timeout 0
      if registered ≠ .true then
        ⟨(t.recordVoid .lendRegistryFull predecessorVoidId e.endpointId msg.messageId).2, some e,
          .false⟩
      else
        let sent := sendTracked t (some e) msg predecessorVoidId
        if sent.result ≠ .true then
          ⟨sent.trace, withdraw sent.ep msg.messageId, sent.result⟩
        else ⟨sent.trace, sent.ep, .true⟩

/-! ## Expiring and revoking -/

/-- A round of the loop of `seraph_whisper_process_lends`. -/
def processLend (currentChronon : ℕ) (s : Endpoint × ℕ) (i : Fin maxLends) : Endpoint × ℕ :=
  let e := s.1
  let record := e.lendRegistry i
  if record.status ≠ .active then s
  else if 0 < record.expiryChronon ∧ record.expiryChronon ≤ currentChronon then
    ({ e with
        lendRegistry := Function.update e.lendRegistry i { record with status := .expired }
        activeLendCount := u32 (e.activeLendCount + 2 ^ 32 - 1)
        totalExpirations := u64 (e.totalExpirations + 1) }, u32 (s.2 + 1))
  else s

/-- `seraph_whisper_process_lends`. -/
def processLends (t : Trace) (ep : Option Endpoint) (currentChronon : ℕ) : Reply ℕ :=
  match ep with
  | none => ⟨t, none, 0⟩
  | some e =>
    let s := (List.finRange maxLends).foldl (processLend currentChronon) (e, 0)
    ⟨t, some s.1, s.2⟩

/-- The state of the loop of `seraph_whisper_process_lends_tracked` : `out_void_ids` holds the ids
given out so far. -/
structure Sweep where
  trace : Trace
  ep : Endpoint
  expiredCount : ℕ
  outVoidIds : Option (List ℕ)

/-- A round of the loop of `seraph_whisper_process_lends_tracked`. -/
def processLendTracked (currentChronon maxVoidIds : ℕ) (s : Sweep) (i : Fin maxLends) : Sweep :=
  let e := s.ep
  let record := e.lendRegistry i
  if record.status ≠ .active then s
  else if 0 < record.expiryChronon ∧ record.expiryChronon ≤ currentChronon then
    let recorded := s.trace.recordVoid .lendExpired 0 e.endpointId record.lendMessageId
    { trace := recorded.2
      ep := { e with
        lendRegistry := Function.update e.lendRegistry i { record with status := .expired }
        activeLendCount := u32 (e.activeLendCount + 2 ^ 32 - 1)
        totalExpirations := u64 (e.totalExpirations + 1) }
      expiredCount := u32 (s.expiredCount + 1)
      outVoidIds := s.outVoidIds.map fun ids =>
        if ids.length < maxVoidIds then ids ++ [recorded.1] else ids }
  else s

/-- `seraph_whisper_process_lends_tracked`, with the ids that it puts into `out_void_ids` unless that
is NULL. -/
def processLendsTracked (t : Trace) (ep : Option Endpoint) (currentChronon : ℕ) (out : Bool)
    (maxVoidIds : ℕ) : Reply ℕ × Option (List ℕ) :=
  match ep with
  | none => (⟨t, none, 0⟩, if out then some [] else none)
  | some e =>
    let s := (List.finRange maxLends).foldl (processLendTracked currentChronon maxVoidIds)
      ⟨t, e, 0, if out then some [] else none⟩
    (⟨s.trace, some s.ep, s.expiredCount⟩, s.outVoidIds)

/-- `seraph_whisper_revoke_lend`. -/
def revokeLend (t : Trace) (ep : Option Endpoint) (lendMessageId : ℕ) : Reply Vbit :=
  match ep with
  | none => ⟨t, none, .void⟩
  | some e =>
    if lendMessageId = voidU64 then ⟨t, some e, .void⟩
    else
      match e.findById lendMessageId with
      | none => ⟨t, some e, .false⟩
      | some slot =>
        if (e.lendRegistry slot).status ≠ .active then ⟨t, some e, .false⟩
        else
          ⟨t, some { e with
            lendRegistry := Function.update e.lendRegistry slot
              { e.lendRegistry slot with status := .revoked }
            activeLendCount := u32 (e.activeLendCount + 2 ^ 32 - 1)
            totalRevocations := u64 (e.totalRevocations + 1) }, .true⟩

/-- `seraph_whisper_revoke_lend_tracked`, with the VOID id it gives out. -/
def revokeLendTracked (t : Trace) (ep : Option Endpoint) (lendMessageId : ℕ) : Reply Vbit × ℕ :=
  match ep with
  | none =>
    let recorded := t.recordVoid .invalidArg 0 0 lendMessageId
    (⟨recorded.2, none, .void⟩, recorded.1)
  | some e =>
    if lendMessageId = voidU64 then
      let recorded := t.recordVoid .invalidArg 0 0 lendMessageId
      (⟨recorded.2, some e, .void⟩, recorded.1)
    else
      match e.findById lendMessageId with
      | none =>
        let recorded := t.recordVoid .lendNotFound 0 e.endpointId lendMessageId
        (⟨recorded.2, some e, .false⟩, recorded.1)
      | some slot =>
        if (e.lendRegistry slot).status ≠ .active then
          let recorded := t.recordVoid .lendNotFound 0 e.endpointId lendMessageId
          (⟨recorded.2, some e, .false⟩, recorded.1)
        else
          let recorded := t.recordVoid .lendRevoked 0 e.endpointId lendMessageId
          (⟨recorded.2, some { e with
            lendRegistry := Function.update e.lendRegistry slot
              { e.lendRegistry slot with status := .revoked }
            activeLendCount := u32 (e.activeLendCount + 2 ^ 32 - 1)
            totalRevocations := u64 (e.totalRevocations + 1) }, .true⟩, recorded.1)

end Traced

/-! ## What the copies differ in -/

/-- The message without its VOID id. -/
def Message.forgetVoid (m : Message) : Message :=
  { m with voidId := 0 }

/-- The endpoint without the VOID ids in its send queue. -/
def Endpoint.forgetVoids (e : Endpoint) : Endpoint :=
  { e with sendQueue := fun i => (e.sendQueue i).forgetVoid }

/-- The same counters of ids, but for the VOID ids. -/
structure Trace.SameIds (t' t : Trace) : Prop where
  message : t'.ids.message = t.ids.message
  channel : t'.ids.channel = t.ids.channel
  endpoint : t'.ids.endpoint = t.ids.endpoint

/-- Two calls return the same and leave the same, but for VOID ids and the record of VOIDs. -/
structure Agree {α : Type} (a b : Reply α) : Prop where
  result : a.result = b.result
  ep : a.ep.map Endpoint.forgetVoids = b.ep.map Endpoint.forgetVoids
  ids : a.trace.SameIds b.trace

namespace Trace.SameIds

variable {t t' t'' : Trace}

theorem refl (t : Trace) : t.SameIds t :=
  ⟨rfl, rfl, rfl⟩

theorem trans (h : t''.SameIds t') (h' : t'.SameIds t) : t''.SameIds t :=
  ⟨h.message.trans h'.message, h.channel.trans h'.channel, h.endpoint.trans h'.endpoint⟩

theorem symm (h : t'.SameIds t) : t.SameIds t' :=
  ⟨h.message.symm, h.channel.symm, h.endpoint.symm⟩

theorem drawn (h : t'.SameIds t) : t'.drawn.SameIds t.drawn where
  message := by
    simp only [Trace.drawn, Ids.generateMessageId]
    rw [h.message]
  channel := h.channel
  endpoint := h.endpoint

end Trace.SameIds

/-- Recording a VOID takes a VOID id and no other. -/
theorem sameIds_recordVoid (t : Trace) (reason : VoidReason) (predecessor endpointId messageId : ℕ) :
    (t.recordVoid reason predecessor endpointId messageId).2.SameIds t := by
  unfold Trace.recordVoid Ids.recordVoid
  split <;> exact ⟨rfl, rfl, rfl⟩

theorem lendMessage_congr {t t' : Trace} (h : t'.SameIds t) (cap : Capability) (timeout : ℕ) :
    lendMessage t'.ids cap timeout = lendMessage t.ids cap timeout := by
  simp only [lendMessage, Message.new, Ids.generateMessageId]
  rw [h.message]

/-- A message that is enqueued under another VOID id. -/
theorem forgetVoids_enqueue (e : Endpoint) {m m' : Message} (h : m'.forgetVoid = m.forgetVoid) :
    (e.enqueue m').forgetVoids = (e.enqueue m).forgetVoids := by
  have hqueue : (fun i => (Function.update e.sendQueue (queueSlot e.sendHead) m' i).forgetVoid) =
      fun i => (Function.update e.sendQueue (queueSlot e.sendHead) m i).forgetVoid := by
    funext i
    rcases eq_or_ne i (queueSlot e.sendHead) with rfl | hi
    · rw [Function.update_self, Function.update_self, h]
    · rw [Function.update_of_ne hi, Function.update_of_ne hi]
  simp only [Endpoint.forgetVoids, Endpoint.enqueue, hqueue]

namespace Traced

/-- A send and a tracked send of one message. -/
theorem agree_send {t t' : Trace} (ht : t'.SameIds t) (ep : Option Endpoint) {message : Message}
    (hvoid : message.voidId = 0) : Agree (sendTracked t' ep message 0) (send t ep message) := by
  have hrecord : ∀ r p a m r' p' a' m', (t'.recordVoid r p a m).2.SameIds
      (t.recordVoid r' p' a' m').2 := fun r p a m r' p' a' m' =>
    ((sameIds_recordVoid t' r p a m).trans ht).trans (sameIds_recordVoid t r' p' a' m').symm
  cases ep with
  | none => exact ⟨rfl, rfl, hrecord _ _ _ _ _ _ _ _⟩
  | some e =>
    unfold sendTracked send
    dsimp only
    by_cases hvalid : e.isValid = false
    · rw [if_pos hvalid, if_pos hvalid]
      exact ⟨rfl, rfl, hrecord _ _ _ _ _ _ _ _⟩
    rw [if_neg hvalid, if_neg hvalid]
    by_cases hfull : e.sendQueueFull = true
    · rw [if_pos hfull, if_pos hfull]
      exact ⟨rfl, rfl, hrecord _ _ _ _ _ _ _ _⟩
    rw [if_neg hfull, if_neg hfull]
    generalize Message.computeVoidCapMask _ = mask
    by_cases hcaps : 0 < Message.countVoidCaps mask
    · rw [if_pos (Or.inl hcaps), if_pos ⟨hcaps, hvoid⟩]
      exact ⟨rfl, congrArg some (forgetVoids_enqueue e rfl), hrecord _ _ _ _ _ _ _ _⟩
    · rw [if_neg fun h => h.elim hcaps fun hne => hne rfl, if_neg fun h => hcaps h.1]
      exact ⟨rfl, congrArg some (forgetVoids_enqueue e rfl), ht⟩

/-- Taking back the record of a lend has nothing to do with VOID ids. -/
theorem forgetVoids_withdraw (ep : Option Endpoint) (messageId : ℕ) :
    (withdraw ep messageId).map Endpoint.forgetVoids =
      withdraw (ep.map Endpoint.forgetVoids) messageId := by
  cases ep with
  | none => rfl
  | some e =>
    have hfind : e.forgetVoids.findById messageId = e.findById messageId := rfl
    simp only [withdraw, Option.map_some, hfind]
    cases e.findById messageId <;> rfl

/-- A lend and a tracked lend. -/
theorem agree_lend (t : Trace) (ep : Option Endpoint) (cap : Capability) (timeout : ℕ) :
    Agree (lendTracked t ep cap timeout 0) (lend t ep cap timeout) := by
  cases ep with
  | none => exact ⟨rfl, rfl, sameIds_recordVoid _ _ _ _ _⟩
  | some e =>
    unfold lendTracked lend
    dsimp only
    by_cases hvalid : e.isValid = false
    · rw [if_pos hvalid, if_pos hvalid]
      exact ⟨rfl, rfl, sameIds_recordVoid _ _ _ _ _⟩
    rw [if_neg hvalid, if_neg hvalid]
    generalize hnoted : (if cap.isVoid = true then
      (t.recordVoid .voidCapInMsg 0 e.endpointId 0).2 else t) = t'
    have ht : t'.SameIds t := by
      rw [← hnoted]
      split
      · exact sameIds_recordVoid _ _ _ _ _
      · exact .refl t
    rw [lendMessage_congr ht]
    have hzero : (lendMessage t.ids cap timeout).voidId = 0 := by
      unfold lendMessage Message.addCap
      split <;> rfl
    generalize lendMessage t.ids cap timeout = msg at hzero ⊢
    generalize e.lendRegistryCreate cap cap msg.messageId 0 timeout 0 = created
    by_cases hregistered : created.2 = .true
    · have hsent := agree_send ht.drawn (some created.1) hzero
      rw [if_neg (not_not.2 hregistered), if_neg (not_not.2 hregistered), hsent.result]
      split
      · refine ⟨rfl, ?_, hsent.ids⟩
        dsimp only
        rw [forgetVoids_withdraw, forgetVoids_withdraw, hsent.ep]
      · exact ⟨rfl, hsent.ep, hsent.ids⟩
    · rw [if_pos hregistered, if_pos hregistered]
      exact ⟨rfl, rfl, (sameIds_recordVoid _ _ _ _ _).trans ht.drawn⟩

/-- The sweep and the tracked sweep over the registry. -/
theorem agree_processLends (t : Trace) (ep : Option Endpoint) (currentChronon : ℕ) (out : Bool)
    (maxVoidIds : ℕ) : Agree (processLendsTracked t ep currentChronon out maxVoidIds).1
      (processLends t ep currentChronon) := by
  cases ep with
  | none => exact ⟨rfl, rfl, .refl t⟩
  | some e =>
    have hround : ∀ (s : Sweep) (i : Fin maxLends),
        processLend currentChronon (s.ep, s.expiredCount) i =
          ((processLendTracked currentChronon maxVoidIds s i).ep,
            (processLendTracked currentChronon maxVoidIds s i).expiredCount) ∧
        (processLendTracked currentChronon maxVoidIds s i).trace.SameIds s.trace := by
      intro s i
      unfold processLend processLendTracked
      dsimp only
      split
      · exact ⟨rfl, .refl _⟩
      · split
        · exact ⟨rfl, sameIds_recordVoid _ _ _ _ _⟩
        · exact ⟨rfl, .refl _⟩
    have hloop : ∀ (slots : List (Fin maxLends)) (s : Sweep),
        slots.foldl (processLend currentChronon) (s.ep, s.expiredCount) =
          ((slots.foldl (processLendTracked currentChronon maxVoidIds) s).ep,
            (slots.foldl (processLendTracked currentChronon maxVoidIds) s).expiredCount) ∧
        (slots.foldl (processLendTracked currentChronon maxVoidIds) s).trace.SameIds s.trace := by
      intro slots
      induction slots with
      | nil => exact fun s => ⟨rfl, .refl _⟩
      | cons i slots ih =>
        intro s
        rw [List.foldl_cons, List.foldl_cons, (hround s i).1]
        exact ⟨(ih _).1, (ih _).2.trans (hround s i).2⟩
    obtain ⟨hsame, hids⟩ := hloop (List.finRange maxLends) ⟨t, e, 0, if out then some [] else none⟩
    unfold processLendsTracked processLends
    dsimp only
    generalize List.finRange maxLends = slots at hsame hids ⊢
    rw [hsame]
    exact ⟨rfl, rfl, hids⟩

/-- Revoking and tracked revoking. -/
theorem agree_revokeLend (t : Trace) (ep : Option Endpoint) (lendMessageId : ℕ) :
    Agree (revokeLendTracked t ep lendMessageId).1 (revokeLend t ep lendMessageId) := by
  cases ep with
  | none => exact ⟨rfl, rfl, sameIds_recordVoid _ _ _ _ _⟩
  | some e =>
    unfold revokeLendTracked revokeLend
    dsimp only
    by_cases hvoid : lendMessageId = voidU64
    · rw [if_pos hvoid, if_pos hvoid]
      exact ⟨rfl, rfl, sameIds_recordVoid _ _ _ _ _⟩
    rw [if_neg hvoid, if_neg hvoid]
    cases e.findById lendMessageId with
    | none => exact ⟨rfl, rfl, sameIds_recordVoid _ _ _ _ _⟩
    | some slot =>
      dsimp only
      by_cases hactive : (e.lendRegistry slot).status ≠ .active
      · rw [if_pos hactive, if_pos hactive]
        exact ⟨rfl, rfl, sameIds_recordVoid _ _ _ _ _⟩
      · rw [if_neg hactive, if_neg hactive]
        exact ⟨rfl, rfl, sameIds_recordVoid _ _ _ _ _⟩

/-- The tracked calls do what the plain ones do. -/
theorem tracked_refines (t : Trace) (ep : Option Endpoint) :
    (∀ message : Message, message.voidId = 0 →
      Agree (sendTracked t ep message 0) (send t ep message)) ∧
    (∀ cap timeout, Agree (lendTracked t ep cap timeout 0) (lend t ep cap timeout)) ∧
    (∀ currentChronon out maxVoidIds,
      Agree (processLendsTracked t ep currentChronon out maxVoidIds).1
        (processLends t ep currentChronon)) ∧
    ∀ lendMessageId, Agree (revokeLendTracked t ep lendMessageId).1 (revokeLend t ep lendMessageId) :=
  ⟨fun _ hvoid => agree_send (.refl t) ep hvoid, agree_lend t ep, agree_processLends t ep,
    agree_revokeLend t ep⟩

/-- A notification that a new endpoint sends. -/
theorem tracked_refines_notification :
    Agree (sendTracked ⟨Ids.first, []⟩ (some (Endpoint.init Ids.first).1)
        (Message.new Ids.first .notification).1 0)
      (send ⟨Ids.first, []⟩ (some (Endpoint.init Ids.first).1)
        (Message.new Ids.first .notification).1) :=
  (tracked_refines _ _).1 _ rfl

end Traced

end Seraph
