import Seraph.WhisperDelivery

/-!
# Waiting for a response

`seraph_whisper_await_response` returns the first response in the receive queue, whatever
request it answers, and moves the tail past it, so that the messages in front of it are gone.
The receive queue is traced back to the sends of the other end (`pending`) : it consumes just
the message it returns, and returns a response to the given request, exactly where it returns
nothing or the first message is a response to that request (`await_consumes_iff`).
-/

namespace Seraph

open Runs

/-- The request that a send responds to. -/
def SendOp.answers : SendOp → Option ℕ
  | .respond requestId _ _ => some requestId
  | _ => none

namespace ChannelState

/-- The state after a run on a new channel. -/
def after (ids : Ids) (ops : List ChannelOp) : ChannelState :=
  run step (start ids) ops

/-- The sends from a side, in order. -/
def postings (ids : Ids) (ops : List ChannelOp) (side : Side) : List Posting :=
  (calls step (start ids) ops).flatMap (posted side)

/-- The sends whose messages are in the receive queue of a side. Messages leave a direction
in order, so these are the first of the last ones, as many as are under way. -/
def pending (ids : Ids) (ops : List ChannelOp) (side : Side) : List Posting :=
  ((postings ids ops side.other).drop
      ((postings ids ops side.other).length - ((after ids ops).flow side.other).length)).take
    ((after ids ops).ep side).inbox.length

/-- Waiting for a response at a side. -/
def awaitAt (ids : Ids) (ops : List ChannelOp) (side : Side) (requestId maxWait : ℕ) : Message :=
  (((after ids ops).workAt side).awaitResponse requestId maxWait).2

/-- A run, and then waiting for a response. -/
def andAwait (ops : List ChannelOp) (side : Side) (requestId maxWait : ℕ) : List ChannelOp :=
  ops ++ [.act side (.awaitResponse requestId maxWait)]

/-- Waiting for a response after a run consumes just the message it returns : a VOID message
leaves the receive queue as it was, and any other is taken out of the queue, from wherever it
was, and was sent in response to the request. -/
def ConsumesReturned (ids : Ids) (ops : List ChannelOp) (side : Side) (requestId maxWait : ℕ) :
    Prop :=
  ((awaitAt ids ops side requestId maxWait).isVoid = true →
    ((after ids (andAwait ops side requestId maxWait)).ep side).inbox =
      ((after ids ops).ep side).inbox) ∧
  ((awaitAt ids ops side requestId maxWait).isVoid = false →
    ∃ i, ((after ids ops).ep side).inbox[i]? = some (awaitAt ids ops side requestId maxWait) ∧
      ((after ids (andAwait ops side requestId maxWait)).ep side).inbox =
        ((after ids ops).ep side).inbox.eraseIdx i ∧
      pending ids (andAwait ops side requestId maxWait) side = (pending ids ops side).eraseIdx i ∧
      ((pending ids ops side)[i]?).bind (·.1.answers) = some requestId)

/-- There is no response to be found, or the first message is a response to the request. -/
def FindsOwnResponse (ids : Ids) (ops : List ChannelOp) (side : Side) (requestId maxWait : ℕ) :
    Prop :=
  ((after ids ops).ep side).isValid = false ∨ requestId = voidU64 ∨
    (∀ msg ∈ scanned maxWait ((after ids ops).ep side).inbox, msg.type ≠ .response) ∨
    ∃ msg, ((after ids ops).ep side).inbox.head? = some msg ∧ msg.type = .response ∧
      ((pending ids ops side).head?).bind (·.1.answers) = some requestId

/-! ## Where the messages come from -/

/-- The message of a send is the one its operation builds. -/
theorem mem_postings {ids : Ids} {ops : List ChannelOp} {side : Side} {p : Posting}
    (hp : p ∈ postings ids ops side) : ∃ ids', p.2 = p.1.message ids' := by
  obtain ⟨c, -, hc⟩ := List.mem_flatMap.1 hp
  unfold posted at hc
  cases hop : c.op with
  | act s op =>
    rw [hop] at hc
    dsimp only at hc
    split at hc
    · cases op with
      | post op =>
        obtain ⟨m, hm, rfl⟩ := List.mem_map.1 hc
        unfold sentIf at hm
        split at hm
        · exact ⟨_, List.mem_singleton.1 hm⟩
        · cases hm
      | _ => cases hc
    · cases hc
  | _ =>
    rw [hop] at hc
    cases hc

/-- A send in response to a request sends a response, which is not VOID. -/
theorem response_of_answers {op : SendOp} {requestId : ℕ} (h : op.answers = some requestId)
    (ids : Ids) : (op.message ids).type = .response ∧ (op.message ids).messageId ≠ voidU64 := by
  cases op with
  | respond requestId caps capCount =>
    rw [SendOp.message, respondMessage, Message.addCaps_type, Message.addCaps_messageId]
    exact ⟨rfl, Ids.fetch_ne_void ids.message⟩
  | _ => cases h

/-- As many messages are under way as sends are not yet received. -/
theorem length_flow_le (ids : Ids) (ops : List ChannelOp) (side : Side) :
    (after ids ops).channel.Sound ∧ ∃ gone,
      List.Forall₂ Message.SamePayload ((postings ids ops side).map Prod.snd)
        (gone ++ (after ids ops).flow side) := by
  obtain ⟨hsound, hempty⟩ := sound_start ids
  obtain ⟨hsound', hrun⟩ := run_flow hsound ops
  obtain ⟨gone, new, hnew, hflow, -⟩ := hrun side
  rw [hempty, List.nil_append] at hflow
  rw [hflow] at hnew
  exact ⟨hsound', gone, hnew⟩

theorem flow_other (w : ChannelState) (side : Side) :
    w.flow side.other = (w.ep side).inbox ++ (w.ep side.other).outbox := by
  rw [flow, Channel.flow, Side.other_other]
  rfl

/-- The pending sends are those of the messages in the receive queue. -/
theorem pending_inbox (ids : Ids) (ops : List ChannelOp) (side : Side) :
    List.Forall₂ (fun p m => Message.SamePayload p.2 m) (pending ids ops side)
      ((after ids ops).ep side).inbox := by
  obtain ⟨-, gone, hall⟩ := length_flow_le ids ops side.other
  have hlen := hall.length_eq
  rw [List.length_map, List.length_append] at hlen
  rw [List.forall₂_map_left_iff] at hall
  have hdrop := List.forall₂_drop gone.length hall
  rw [List.drop_left, flow_other] at hdrop
  have htake := List.forall₂_take ((after ids ops).ep side).inbox.length hdrop
  rw [List.take_left] at htake
  rw [pending, hlen, Nat.add_sub_cancel]
  exact htake

/-! ## What waiting does -/

/-- Waiting leaves the channel as it was, or drops everything up to the first response from
the receive queue, and with it the sends that are pending. -/
theorem await_cases (ids : Ids) (ops : List ChannelOp) (side : Side) (requestId maxWait : ℕ) :
    (awaitAt ids ops side requestId maxWait = Message.void ∧
      ((after ids (andAwait ops side requestId maxWait)).ep side).inbox =
        ((after ids ops).ep side).inbox ∧
      (((after ids ops).ep side).isValid = false ∨ requestId = voidU64 ∨
        firstResponse maxWait ((after ids ops).ep side).inbox = none)) ∨
    ∃ k, ∃ hk : k < ((after ids ops).ep side).inbox.length,
      (((after ids ops).ep side).isValid = true ∧ requestId ≠ voidU64 ∧
        firstResponse maxWait ((after ids ops).ep side).inbox = some k) ∧
      awaitAt ids ops side requestId maxWait = ((after ids ops).ep side).inbox[k] ∧
      ((after ids (andAwait ops side requestId maxWait)).ep side).inbox =
        ((after ids ops).ep side).inbox.drop (k + 1) ∧
      pending ids (andAwait ops side requestId maxWait) side =
        (pending ids ops side).drop (k + 1) := by
  obtain ⟨hsound, gone, hall⟩ := length_flow_le ids ops side.other
  have hstep : after ids (andAwait ops side requestId maxWait) =
      ((after ids ops).step (.act side (.awaitResponse requestId maxWait))).1 :=
    run_concat step (start ids) ops _
  have hself : (after ids (andAwait ops side requestId maxWait)).ep side =
      (((after ids ops).workAt side).awaitResponse requestId maxWait).1.ep := by
    rw [hstep]
    exact Channel.ep_setEp_self _ side
  have hother : (after ids (andAwait ops side requestId maxWait)).ep side.other =
      (after ids ops).ep side.other := by
    rw [hstep]
    exact Channel.ep_setEp_other _ side
  rw [awaitAt, hself]
  rcases Local.awaitResponse_cases (l := (after ids ops).workAt side) (hsound side) requestId
    maxWait with ⟨heq, hwhy⟩ | ⟨k, hk, hwhy, heq⟩
  · rw [heq]
    exact .inl ⟨rfl, rfl, hwhy⟩
  · rw [heq]
    obtain ⟨-, hinbox, -⟩ := (hsound side).dequeue (n := k + 1) hk
    refine .inr ⟨k, hk, hwhy, rfl, hinbox, ?_⟩
    have hposts : postings ids (andAwait ops side requestId maxWait) side.other =
        postings ids ops side.other := by
      rw [postings, andAwait, calls_concat, List.flatMap_append, postings]
      cases side <;> simp [posted, Side.other]
    have hlen := hall.length_eq
    rw [List.length_map, List.length_append, flow_other, List.length_append] at hlen
    have hinbox' : ((after ids (andAwait ops side requestId maxWait)).ep side).inbox =
        ((after ids ops).ep side).inbox.drop (k + 1) := by
      rw [hself, heq]
      exact hinbox
    have hk' : k < ((after ids ops).ep side).inbox.length := hk
    rw [pending, pending, hposts, flow_other, flow_other, hother, hinbox', List.length_append,
      List.length_append, List.length_drop, List.drop_take, List.drop_drop]
    congr 2
    omega

/-! ## Consuming what is returned -/

/-- Dropping messages is taking one out only if it is the first. -/
theorem eq_zero_of_drop_eq_eraseIdx {α : Type*} {xs : List α} {k i : ℕ} (hk : k < xs.length)
    (hi : i < xs.length) (h : xs.drop (k + 1) = xs.eraseIdx i) : k = 0 := by
  have hlen := congrArg List.length h
  rw [List.length_drop, List.length_eraseIdx_of_lt hi] at hlen
  omega

/-- An element whose removal leaves the tail is equal to the first. -/
theorem getElem?_of_drop_eq_eraseIdx {α : Type*} {xs : List α} {i : ℕ} (hi : i < xs.length)
    (h : xs.drop 1 = xs.eraseIdx i) : xs[i]? = xs.head? := by
  induction xs generalizing i with
  | nil => cases hi
  | cons x xs ih =>
    cases i with
    | zero => rfl
    | succ i =>
      rw [List.drop_succ_cons, List.drop_zero, List.eraseIdx_cons_succ] at h
      cases xs with
      | nil => exact absurd hi (by simp)
      | cons y ys =>
        have hxy : y = x := by
          cases i <;> simpa using congrArg List.head? h
        have htail : (y :: ys).drop 1 = (y :: ys).eraseIdx i := by
          rw [List.drop_succ_cons, List.drop_zero]
          exact List.tail_eq_of_cons_eq h
        rw [List.getElem?_cons_succ, ih (by simpa using hi) htail, List.head?_cons, hxy,
          List.head?_cons]

/-- The first message is the first response where it is one. -/
theorem firstResponse_of_head {maxWait : ℕ} {inbox : List Message} {msg : Message}
    (hhead : inbox.head? = some msg) (htype : msg.type = .response) :
    firstResponse maxWait inbox = some 0 := by
  obtain ⟨rest, rfl⟩ := List.head?_eq_some_iff.1 hhead
  have hscan : ∃ rest', scanned maxWait (msg :: rest) = msg :: rest' := by
    unfold scanned
    split
    · exact ⟨rest, rfl⟩
    · obtain ⟨n, rfl⟩ := Nat.exists_eq_succ_of_ne_zero ‹maxWait ≠ 0›
      exact ⟨rest.take n, List.take_succ_cons⟩
  obtain ⟨rest', hscan⟩ := hscan
  rw [firstResponse, hscan, List.findIdx?_cons, if_pos (decide_eq_true htype)]

/-- A pending response to a request is in the queue as it was sent, so it is not VOID. -/
theorem not_isVoid_of_answers {ids : Ids} {ops : List ChannelOp} {side : Side} {msg : Message}
    {requestId : ℕ} (hhead : ((after ids ops).ep side).inbox.head? = some msg)
    (hanswers : ((pending ids ops side).head?).bind (·.1.answers) = some requestId) :
    msg.isVoid = false := by
  obtain ⟨p, hp, hans⟩ := Option.bind_eq_some_iff.1 hanswers
  obtain ⟨ps, hps⟩ := List.head?_eq_some_iff.1 hp
  obtain ⟨rest, hrest⟩ := List.head?_eq_some_iff.1 hhead
  have hpending := pending_inbox ids ops side
  have hmem : p ∈ postings ids ops side.other := by
    have : p ∈ pending ids ops side := by simp [hps]
    exact List.mem_of_mem_drop (List.mem_of_mem_take this)
  rw [hps, hrest] at hpending
  have hsame := (List.forall₂_cons.1 hpending).1
  obtain ⟨ids', hmessage⟩ := mem_postings hmem
  obtain ⟨htype, hid⟩ := response_of_answers hans ids'
  rw [Message.isVoid, decide_eq_false_iff_not, hsame.messageId, hsame.type, hmessage, htype]
  simp [hid]

/-- Waiting for a response consumes just the message it returns, and returns a response to the
request, exactly where there is no response to be found or the first message is a response to
the request. -/
theorem await_consumes_iff (ids : Ids) (ops : List ChannelOp) (side : Side)
    (requestId maxWait : ℕ) :
    ConsumesReturned ids ops side requestId maxWait ↔
      FindsOwnResponse ids ops side requestId maxWait := by
  have hpending := pending_inbox ids ops side
  have hlength := hpending.length_eq
  rcases await_cases ids ops side requestId maxWait with
    ⟨hvoid, hinbox, hwhy⟩ | ⟨k, hk, ⟨hvalid, hid, hfirst⟩, hmsg, hinbox, hpend⟩
  · refine iff_of_true ⟨fun _ => hinbox, fun hnot => ?_⟩ ?_
    · rw [hvoid] at hnot
      exact absurd hnot (by decide)
    · rcases hwhy with hdead | hid | hnone
      · exact .inl hdead
      · exact .inr (.inl hid)
      · refine .inr (.inr (.inl fun msg hmem htype => ?_))
        have := List.findIdx?_eq_none_iff.1 hnone msg hmem
        simp [htype] at this
  · obtain ⟨_, htype⟩ := firstResponse_eq_some hfirst
    constructor
    · rintro ⟨hv, hn⟩
      cases hvoid : (awaitAt ids ops side requestId maxWait).isVoid with
      | true =>
        have hsame := congrArg List.length (hinbox.symm.trans (hv hvoid))
        rw [List.length_drop] at hsame
        omega
      | false =>
        obtain ⟨i, hget, herase, hpe, hans⟩ := hn hvoid
        obtain ⟨hi, -⟩ := List.getElem?_eq_some_iff.1 hget
        obtain rfl := eq_zero_of_drop_eq_eraseIdx hk hi (hinbox.symm.trans herase)
        refine .inr (.inr (.inr ⟨_, List.head?_eq_getElem? .. |>.trans
          (List.getElem?_eq_getElem hk), htype, ?_⟩))
        rwa [← getElem?_of_drop_eq_eraseIdx (hi.trans_eq hlength.symm) (hpend.symm.trans hpe)]
    · rintro (hdead | hvoid | hnone | ⟨msg, hhead, hresponse, hans⟩)
      · exact absurd hvalid (by simp [hdead])
      · exact absurd hvoid hid
      · obtain ⟨hlt, hk', -⟩ := List.findIdx?_eq_some_iff_getElem.1 hfirst
        exact absurd (of_decide_eq_true hk') (hnone _ (List.getElem_mem hlt))
      · obtain rfl : 0 = k := Option.some.inj
          ((firstResponse_of_head hhead hresponse).symm.trans hfirst)
        have hzero := (List.head?_eq_getElem? ..).symm.trans hhead
        have hmsg' : awaitAt ids ops side requestId maxWait = msg := by
          rw [hmsg]
          exact Option.some.inj ((List.getElem?_eq_getElem hk).symm.trans hzero)
        have hreal := not_isVoid_of_answers hhead hans
        refine ⟨fun hvoid => ?_, fun _ => ⟨0, ?_, ?_, ?_, ?_⟩⟩
        · rw [hmsg', hreal] at hvoid
          cases hvoid
        · rw [hzero, hmsg']
        · rw [hinbox, List.eraseIdx_zero, List.drop_one]
        · rw [hpend, List.eraseIdx_zero, List.drop_one]
        · rwa [← List.head?_eq_getElem?]

/-- A child is notified, and then its request is answered. -/
def lateResponse : List ChannelOp :=
  [.act .child (.post (.request (some []) 0 0)), .act .parent (.post (.notify [] 0)),
    .act .parent (.post (.respond 1 [] 0)), .transfer]

/-- The child waits for the response to its request 1 : the notification is lost. -/
theorem not_consumesReturned : ¬ConsumesReturned .first lateResponse .child 1 0 := by
  rintro ⟨-, hn⟩
  obtain ⟨i, hget, herase, -⟩ := hn (by decide)
  obtain ⟨hi, -⟩ := List.getElem?_eq_some_iff.1 hget
  have hbefore : ((after .first lateResponse).ep .child).inbox.length = 2 := by decide
  have hafter : ((after .first (andAwait lateResponse .child 1 0)).ep .child).inbox.length = 0 :=
    by decide
  have hlen := congrArg List.length herase
  rw [hafter, List.length_eraseIdx_of_lt hi, hbefore] at hlen
  cases hlen

end ChannelState

end Seraph
