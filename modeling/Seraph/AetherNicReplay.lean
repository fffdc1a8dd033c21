import Seraph.AetherGate
import Seraph.AetherNicFrames

/-!
# Replays between honest nodes

Of the frames in flight from one node to the other, the receiver has accepted only numbers that
were sent before (`Direction`). So no frame is taken for a replay as long as every frame bears a
number that its node has not sent, and that is less than 64 below all those that it has sent
(`not_replayed`). An acknowledgment bears a number of the peer, and fails this
(`acknowledgment_replayed`).
-/

namespace Seraph

open Runs SecurityState

/-- A window that knows `m` lets `n` pass. -/
def Follows (n m : UInt32) : Prop :=
  n ≠ m ∧ m.toNat < n.toNat + aetherReplayWindowSize

instance (n m : UInt32) : Decidable (Follows n m) :=
  inferInstanceAs (Decidable (_ ∧ _))

/-- The number of the answer to a frame. -/
def AetherNic.answerNumber (nic : AetherNic) (hdr : AetherHeader) : UInt32 :=
  if hdr.type = aetherMsgPageRequest then nic.seqCounter + 1 else hdr.seqNum

namespace NicLink

/-- The number of the frame that a call sends. -/
def number (s : NicLink) (side : LinkSide) : NicOp → UInt32
  | .poll _ =>
    match (s.inFlight side).head?.bind readHeader with
    | some hdr => (s.nic side).answerNumber hdr
    | none => (s.nic side).seqCounter + 1
  | _ => (s.nic side).seqCounter + 1

/-- What a call sends bears a number that follows all those that its node has sent. -/
def SendsFresh (s : NicLink) (a : LinkSide × NicOp) : Prop :=
  (s.act a.1 a.2).2.1.isSome = true → ∀ m ∈ s.sent a.1, Follows (s.number a.1 a.2) m

end NicLink

/-! ## One node -/

/-- The frame is one of node `id`, and `n` is its number. -/
def Carries (id : ℕ) (frame : List UInt8) (n : UInt32) : Prop :=
  ∃ hdr, readHeader frame = some hdr ∧ hdr.srcNode = id % 2 ^ 16 ∧ hdr.seqNum = n

/-- A node that sends at most one frame, with this number, and changes its counter only. -/
structure Answers (nic : AetherNic) (r : AetherNic × Option SentFrame) (n : UInt32) : Prop where
  localNodeId : r.1.localNodeId = nic.localNodeId
  security : r.1.security = nic.security
  carries : ∀ frame k, r.2 = some (frame, k) → k = n ∧ Carries nic.localNodeId frame n

namespace AetherNic

variable (nic : AetherNic) {n : UInt32}

/-- A code behind the frame does not change how it is read. -/
theorem carries_appendHmac (dst type : ℕ) (n : UInt32) (offset generation dataLen flags : ℕ)
    (payload : List UInt8) (dstNode : ℕ) :
    Carries nic.localNodeId (nic.appendHmac (aetherFrame nic.localNodeId dst type n offset
      generation dataLen flags payload) dstNode) n := by
  have hread := readHeader_aetherFrame nic.localNodeId dst type n offset generation dataLen flags
    payload
  have hbare := hread []
  rw [List.append_nil] at hbare
  unfold appendHmac
  split_ifs
  · exact ⟨_, hbare, rfl, rfl⟩
  · exact ⟨_, hbare, rfl, rfl⟩
  · exact ⟨_, hbare, rfl, rfl⟩
  · exact ⟨_, hread _, rfl, rfl⟩

theorem silent : Answers nic (nic, none) n :=
  ⟨rfl, rfl, fun _ _ h => (by cases h)⟩

theorem silent_tick : Answers nic (nic.tick, none) n :=
  ⟨rfl, rfl, fun _ _ h => (by cases h)⟩

theorem send_answers (type dst offset generation flags : ℕ) (payload : List UInt8)
    (echo : Option UInt32) :
    Answers nic ((nic.send type dst offset generation flags payload echo).1,
      some (nic.send type dst offset generation flags payload echo).2)
      (echo.getD (nic.seqCounter + 1)) := by
  refine ⟨rfl, rfl, fun frame k h => ?_⟩
  cases h
  exact ⟨rfl, carries_appendHmac nic _ _ _ _ _ _ _ _ _⟩

theorem sendPageResponse_answers (dst offset generation : ℕ) (page : List UInt8) :
    Answers nic (nic.sendPageResponse dst offset generation page) (nic.seqCounter + 1) := by
  unfold sendPageResponse
  split
  · exact nic.silent
  · exact nic.send_answers _ _ _ _ _ _ none

theorem handlePageRequest_answers (hdr : AetherHeader) (answer : AetherAnswer) :
    Answers nic (nic.handlePageRequest hdr answer) (nic.seqCounter + 1) := by
  unfold handlePageRequest
  dsimp only
  generalize (if hdr.flags &&& aetherFlagWrite ≠ 0 then nodePermWrite else nodePermRead) = required
  split
  · exact nic.silent
  split
  · exact nic.silent_tick
  split
  · exact nic.silent_tick
  split
  · exact nic.silent_tick
  split
  · exact nic.sendPageResponse_answers _ _ _ _
  · exact nic.silent

theorem handleInvalidate_answers (hdr : AetherHeader) :
    Answers nic (nic.handleInvalidate hdr) hdr.seqNum := by
  unfold handleInvalidate
  split
  · exact nic.silent
  · exact nic.send_answers _ _ _ _ _ _ (some hdr.seqNum)

theorem handleGeneration_answers (hdr : AetherHeader) (answer : AetherAnswer) :
    Answers nic (nic.handleGeneration hdr answer) hdr.seqNum := by
  unfold handleGeneration
  split
  · exact nic.silent
  split
  · exact nic.send_answers _ _ _ _ _ _ (some hdr.seqNum)
  · exact nic.silent

/-- Only a page is sent with a number of the node itself. -/
theorem dispatch_answers (hdr : AetherHeader) (answer : AetherAnswer) :
    Answers nic (nic.dispatch hdr answer) (nic.answerNumber hdr) := by
  unfold dispatch answerNumber
  split
  · exact nic.silent
  split
  · next htype =>
    have hpage : hdr.type = aetherMsgPageRequest := htype
    rw [if_pos hpage]
    exact nic.handlePageRequest_answers hdr answer
  · next htype =>
    rw [htype, if_neg (by decide)]
    exact nic.handleInvalidate_answers hdr
  · next htype =>
    rw [htype, if_neg (by decide)]
    exact nic.handleGeneration_answers hdr answer
  · next htype =>
    rw [htype, if_neg (by decide)]
    exact nic.handleInvalidate_answers hdr
  · exact nic.silent

/-- What a node does with a frame that is read as `hdr`. -/
structure Processes (hdr : AetherHeader)
    (r : AetherNic × Option SentFrame × Option ValidateResult) : Prop where
  localNodeId : r.1.localNodeId = nic.localNodeId
  carries : ∀ frame k, r.2.1 = some (frame, k) →
    k = nic.answerNumber hdr ∧ Carries nic.localNodeId frame k
  windows : r.1.security.replay = nic.security.replay ∨
    r.1.security.replay = (nic.security.acceptPacket hdr.srcNode hdr.seqNum).replay
  refused : r.2.2 = some .replay → nic.security.replayStep hdr.srcNode hdr.seqNum = false

theorem Processes.ignore {hdr : AetherHeader} : nic.Processes hdr (nic, none, none) :=
  ⟨rfl, fun _ _ h => (by cases h), .inl rfl, fun h => (by cases h)⟩

theorem processFrame_processes {frame : List UInt8} {hdr : AetherHeader}
    (hread : readHeader frame = some hdr) (answer : AetherAnswer) :
    nic.Processes hdr (nic.processFrame frame answer) := by
  unfold processFrame
  rw [hread]
  dsimp only
  split
  · exact .ignore nic
  split
  · obtain ⟨s, result, hs, ⟨hflags, hreplay, -⟩, hok, hrefused⟩ :=
      validateFrame_gate nic.security frame nic.tick.currentTick
    rw [hs]
    dsimp only
    split
    · next hres =>
      obtain ⟨hdr', hpass⟩ := hok hres
      obtain rfl := Option.some.inj (hread.symm.trans hpass.wellFormed.read)
      have haccept : (s.acceptPacket hdr.srcNode hdr.seqNum).replay =
          (nic.security.acceptPacket hdr.srcNode hdr.seqNum).replay := by
        unfold acceptPacket
        rw [hflags, hreplay]
        split_ifs
        · exact hreplay
        · rfl
        · exact hreplay
      have hanswers := dispatch_answers
        { nic.tick with security := s.acceptPacket hdr.srcNode hdr.seqNum } hdr answer
      refine ⟨hanswers.localNodeId, fun frame' k h => ?_, .inr ?_, fun h => ?_⟩
      · obtain ⟨rfl, hcarries⟩ := hanswers.carries frame' k h
        exact ⟨rfl, hcarries⟩
      · rw [hanswers.security]
        exact haccept
      · rw [hres] at h
        cases h
    · refine ⟨rfl, fun _ _ h => (by cases h), .inl hreplay, fun h => ?_⟩
      obtain ⟨hdr', hw, hno⟩ := hrefused (Option.some.inj h)
      obtain rfl := Option.some.inj (hread.symm.trans hw.read)
      exact hno
  split
  · have hanswers := nic.dispatch_answers hdr answer
    refine ⟨hanswers.localNodeId, fun frame' k h => ?_, .inl (congrArg _ hanswers.security),
      fun h => (by cases h)⟩
    obtain ⟨rfl, hcarries⟩ := hanswers.carries frame' k h
    exact ⟨rfl, hcarries⟩
  · exact .ignore nic

end AetherNic

/-! ## One direction -/

/-- The frames in flight bear the last numbers that node `id` has sent, and the receiver has
accepted none but the numbers before. -/
structure Direction (id : ℕ) (inFlight : List (List UInt8)) (sent : List UInt32)
    (receiver : SecurityState) : Prop where
  split : ∃ numbers done acc, List.Forall₂ (Carries id) inFlight numbers ∧
    sent = numbers.reverse ++ done ∧ Tracks (receiver.replay (id % 2 ^ 16)) acc ∧ acc ⊆ done
  fresh : sent.Pairwise Follows

namespace Direction

variable {id : ℕ} {frame : List UInt8} {inFlight : List (List UInt8)} {sent : List UInt32}
  {receiver receiver' : SecurityState} {n : UInt32}

theorem start (hreset : ∀ src, receiver.replay src = .reset) : Direction id [] [] receiver := by
  refine ⟨⟨[], [], [], List.Forall₂.nil, rfl, ?_, List.Subset.refl _⟩, List.Pairwise.nil⟩
  rw [hreset]
  exact Tracks.reset

theorem send (h : Direction id inFlight sent receiver) (hcarries : Carries id frame n)
    (hfresh : ∀ m ∈ sent, Follows n m) :
    Direction id (inFlight ++ [frame]) (n :: sent) receiver := by
  obtain ⟨⟨numbers, done, acc, hall, rfl, hwindow, hsub⟩, hpair⟩ := h
  refine ⟨⟨numbers ++ [n], done, acc, ?_, ?_, hwindow, hsub⟩, List.pairwise_cons.2 ⟨hfresh, hpair⟩⟩
  · exact List.rel_append hall (List.Forall₂.cons hcarries List.Forall₂.nil)
  · rw [List.reverse_append]
    rfl

/-- The receiver's windows may change for other nodes. -/
theorem congr (h : Direction id inFlight sent receiver)
    (hreplay : receiver'.replay = receiver.replay) : Direction id inFlight sent receiver' := by
  obtain ⟨⟨numbers, done, acc, hall, hsent, hwindow, hsub⟩, hpair⟩ := h
  exact ⟨⟨numbers, done, acc, hall, hsent, hreplay ▸ hwindow, hsub⟩, hpair⟩

/-- The first frame in flight bears a number that the window of its node lets pass. -/
theorem head (h : Direction id (frame :: inFlight) sent receiver) :
    ∃ hdr, readHeader frame = some hdr ∧
      (receiver.replay hdr.srcNode).check hdr.seqNum = .ok ∧
      Direction id inFlight sent receiver ∧
      Direction id inFlight sent (receiver.acceptPacket hdr.srcNode hdr.seqNum) := by
  obtain ⟨⟨numbers, done, acc, hall, rfl, hwindow, hsub⟩, hpair⟩ := h
  obtain ⟨n, rest, ⟨hdr, hread, hsrc, rfl⟩, hrest, rfl⟩ := List.forall₂_cons_left_iff.1 hall
  have hsent : (hdr.seqNum :: rest).reverse ++ done = rest.reverse ++ (hdr.seqNum :: done) := by
    rw [List.reverse_cons, List.append_assoc]
    rfl
  rw [hsent] at hpair ⊢
  rw [← hsrc] at hwindow
  obtain ⟨hdone, -⟩ := List.pairwise_cons.1 (List.pairwise_append.1 hpair).2.1
  have hok : (receiver.replay hdr.srcNode).check hdr.seqNum = .ok := by
    refine hwindow.check_eq_ok.2 ⟨fun hmem => ?_, fun a ha => (hdone a (hsub ha)).2⟩
    exact (hdone _ (hsub hmem)).1 rfl
  have hskip : Direction id inFlight (rest.reverse ++ (hdr.seqNum :: done)) receiver :=
    ⟨⟨rest, hdr.seqNum :: done, acc, hrest, rfl, hsrc ▸ hwindow,
      List.subset_cons_of_subset _ hsub⟩, hpair⟩
  refine ⟨hdr, hread, hok, hskip, ?_⟩
  unfold acceptPacket
  split_ifs
  · exact hskip
  · refine ⟨⟨rest, hdr.seqNum :: done, hdr.seqNum :: acc, hrest, rfl, ?_,
      List.cons_subset_cons _ hsub⟩, hpair⟩
    rw [← hsrc]
    dsimp only
    rw [Function.update_self]
    exact hwindow.accept hok
  · exact hskip

end Direction

/-! ## A link -/

theorem LinkSide.other_ne (side : LinkSide) : side.other ≠ side := by
  cases side <;> decide

theorem LinkSide.other_other (side : LinkSide) : side.other.other = side := by
  cases side <;> rfl

theorem LinkSide.eq_or_eq_other (side side' : LinkSide) : side' = side ∨ side' = side.other := by
  cases side <;> cases side' <;> decide

namespace NicLink

open LinkSide

/-- Both directions. -/
def Inv (s : NicLink) : Prop :=
  ∀ side : LinkSide, Direction (s.nic side).localNodeId (s.inFlight side.other) (s.sent side)
    (s.nic side.other).security

/-- A call that takes nothing from the link. -/
theorem act_of_ne_poll (s : NicLink) (side : LinkSide) {op : NicOp}
    (hop : ∀ answer, op ≠ .poll answer) :
    ∃ r, Answers (s.nic side) r (s.number side op) ∧ s.act side op = (r.1, r.2, none) := by
  cases op with
  | pageRequest dst offset generation forWrite =>
    exact ⟨_, (s.nic side).send_answers _ _ _ _ _ _ none, rfl⟩
  | pageResponse dst offset generation page =>
    exact ⟨_, (s.nic side).sendPageResponse_answers _ _ _ _, rfl⟩
  | invalidate dst offset newGeneration =>
    exact ⟨_, (s.nic side).send_answers _ _ _ _ _ _ none, rfl⟩
  | generationQuery dst offset => exact ⟨_, (s.nic side).send_answers _ _ _ _ _ _ none, rfl⟩
  | poll answer => exact absurd rfl (hop answer)

/-- What one call leaves on the link, and what it says. -/
structure Acts (s : NicLink) (side : LinkSide) (rest : List (List UInt8))
    (r : AetherNic × Option SentFrame × Option ValidateResult) (n : UInt32) : Prop where
  localNodeId : r.1.localNodeId = (s.nic side).localNodeId
  carries : ∀ frame k, r.2.1 = some (frame, k) → k = n ∧ Carries (s.nic side).localNodeId frame k
  receives : Direction (s.nic side.other).localNodeId rest (s.sent side.other) r.1.security
  passes : r.2.2 ≠ some .replay

/-- The inbox of a node after a call. -/
def rest (s : NicLink) (side : LinkSide) : NicOp → List (List UInt8)
  | .poll _ => (s.inFlight side).tail
  | _ => s.inFlight side

theorem act_acts {s : NicLink} (h : s.Inv) (side : LinkSide) (op : NicOp) :
    s.Acts side (s.rest side op) (s.act side op) (s.number side op) := by
  have hin := h side.other
  rw [other_other] at hin
  by_cases hpoll : ∃ answer, op = .poll answer
  · obtain ⟨answer, rfl⟩ := hpoll
    unfold act number rest
    dsimp only
    cases hq : s.inFlight side with
    | nil =>
      rw [hq] at hin
      exact ⟨rfl, fun _ _ h => (by cases h), hin, fun h => (by cases h)⟩
    | cons frame inFlight =>
      rw [hq] at hin
      obtain ⟨hdr, hread, hok, hskip, haccept⟩ := hin.head
      have hp := (s.nic side).processFrame_processes hread answer
      rw [List.head?_cons, Option.bind_some, hread]
      refine ⟨hp.localNodeId, hp.carries, ?_, fun hrefused => ?_⟩
      · rcases hp.windows with hsame | hnext
        · exact hskip.congr hsame
        · exact haccept.congr hnext
      · have hno := hp.refused hrefused
        rw [replayStep, hok] at hno
        simp at hno
  · have hop : ∀ answer, op ≠ .poll answer := fun answer heq => hpoll ⟨answer, heq⟩
    obtain ⟨r, hr, hact⟩ := s.act_of_ne_poll side hop
    have hrest : s.rest side op = s.inFlight side := by
      cases op <;> first | rfl | exact absurd rfl (hop _)
    rw [hact, hrest]
    refine ⟨hr.localNodeId, fun frame k hs => ?_, hin.congr (congrArg _ hr.security),
      fun hs => (by cases hs)⟩
    obtain ⟨rfl, hcarries⟩ := hr.carries frame k hs
    exact ⟨rfl, hcarries⟩

theorem step_of_none {s : NicLink} {side : LinkSide} {op : NicOp}
    (h : (s.act side op).2.1 = none) :
    (s.step (side, op)).1 =
      { s with
        nic := Function.update s.nic side (s.act side op).1
        inFlight := Function.update s.inFlight side (s.rest side op) } := by
  unfold step
  dsimp only
  rw [h]
  cases op <;> rfl

theorem step_of_some {s : NicLink} {side : LinkSide} {op : NicOp} {frame : List UInt8}
    {n : UInt32} (h : (s.act side op).2.1 = some (frame, n)) :
    (s.step (side, op)).1 =
      { nic := Function.update s.nic side (s.act side op).1
        inFlight := Function.update (Function.update s.inFlight side (s.rest side op)) side.other
          (s.inFlight side.other ++ [frame])
        sent := Function.update s.sent side (n :: s.sent side) } := by
  unfold step
  dsimp only
  rw [h]
  cases op <;> rfl

theorem step_inv {s : NicLink} (h : s.Inv) {a : LinkSide × NicOp} (hfresh : s.SendsFresh a) :
    (s.step a).1.Inv := by
  obtain ⟨side, op⟩ := a
  have hacts := act_acts h side op
  have hout := h side
  have hne := other_ne side
  cases hsent : (s.act side op).2.1 with
  | none =>
    rw [step_of_none hsent]
    intro side'
    dsimp only
    rcases eq_or_eq_other side side' with rfl | rfl
    · rw [Function.update_self, Function.update_of_ne hne, Function.update_of_ne hne,
        hacts.localNodeId]
      exact hout
    · rw [other_other, Function.update_self, Function.update_self, Function.update_of_ne hne]
      exact hacts.receives
  | some r =>
    obtain ⟨frame, k⟩ := r
    obtain ⟨rfl, hcarries⟩ := hacts.carries frame k hsent
    have hall : ∀ m ∈ s.sent side, Follows (s.number side op) m :=
      hfresh (by rw [hsent]; rfl)
    rw [step_of_some hsent]
    intro side'
    dsimp only
    rcases eq_or_eq_other side side' with rfl | rfl
    · rw [Function.update_self, Function.update_self, Function.update_self,
        Function.update_of_ne hne, hacts.localNodeId]
      exact hout.send hcarries hall
    · rw [other_other, Function.update_self, Function.update_of_ne hne,
        Function.update_of_ne hne, Function.update_of_ne hne.symm, Function.update_self]
      exact hacts.receives

theorem start_inv {left right : AetherNic} (hleft : ∀ src, left.security.replay src = .reset)
    (hright : ∀ src, right.security.replay src = .reset) : (start left right).Inv := by
  intro side
  cases side with
  | left => exact Direction.start hright
  | right => exact Direction.start hleft

end NicLink

namespace AetherNic

/-! ## Where replays alone are looked for -/

theorem wellFormed_aetherFrame {src type : ℕ} (dst : ℕ) (n : UInt32)
    (hsrc : src < aetherSecurityMaxNodes)
    (htype : 0 < type ∧ type ≤ aetherMsgTypeMax) :
    WellFormed (aetherFrame src dst type n 0 0 0 0 [])
      ⟨aetherMagicValue, aetherVersionValue, type, n, src, dst % 2 ^ 16, 0, 0, 0, 0⟩ := by
  have hread := readHeader_aetherFrame src dst type n 0 0 0 0 [] []
  unfold aetherSecurityMaxNodes at hsrc
  unfold aetherMsgTypeMax at htype
  rw [List.append_nil, Nat.mod_eq_of_lt (a := src) (by omega),
    Nat.mod_eq_of_lt (a := type) (by omega)] at hread
  refine ⟨hread, rfl, rfl, htype, hsrc, ?_, Nat.zero_le _⟩
  rw [length_aetherFrame]
  exact Nat.le_refl _

/-- Where nothing but replays is looked for, the window of the source decides. -/
theorem validateFrame_replay {s : SecurityState} {frame : List UInt8} {hdr : AetherHeader}
    (hinit : s.initialized = true) (hflags : s.flags = secFlagEnforceReplay)
    (hw : WellFormed frame hdr) (t : ℕ) :
    s.validateFrame frame t = some (s, if (s.replay hdr.srcNode).check hdr.seqNum = .ok then .ok
      else .replay) := by
  rcases validateFrame_cases s frame t with ⟨hbad | hbad, -⟩ | ⟨hdr', -, hw', h⟩
  · rw [hinit] at hbad
    cases hbad
  · exact absurd hw (hbad hdr)
  · obtain rfl := Option.some.inj (hw.read.symm.trans hw'.read)
    have hrate : s.rateStep hdr.srcNode t = (s, true) := by
      rw [rateStep, hflags, if_neg (by decide)]
    have hhmac : s.hmacStep hdr frame = some true := by
      rw [hmacStep, hflags, if_neg (by decide)]
    have hreplay : s.replayStep hdr.srcNode hdr.seqNum =
        decide ((s.replay hdr.srcNode).check hdr.seqNum = .ok) := by
      rw [replayStep, hflags, if_pos (by decide)]
    have hperm : s.permissionStep hdr = true := by
      rw [permissionStep, hflags, if_neg (by decide)]
    have hconsume : s.consumeToken hdr.srcNode = s := by
      rw [consumeToken, hflags, if_neg (by decide)]
    rw [h, validated, hrate]
    dsimp only
    rw [hhmac, hreplay, hperm, hconsume]
    by_cases hok : (s.replay hdr.srcNode).check hdr.seqNum = .ok
    · simp [hok]
    · simp [hok]

/-- The number of a frame decides whether its handler is called. -/
theorem processFrame_replay {nic : AetherNic} {src type : ℕ} (dst : ℕ) (n : UInt32)
    (henabled : nic.securityEnabled = true)
    (hinit : nic.security.initialized = true) (hflags : nic.security.flags = secFlagEnforceReplay)
    (hsrc : src < aetherSecurityMaxNodes) (htype : 0 < type ∧ type ≤ aetherMsgTypeMax)
    (answer : AetherAnswer) :
    nic.processFrame (aetherFrame src dst type n 0 0 0 0 []) answer =
      if (nic.security.replay src).check n = .ok then
        let r := { nic.tick with security := nic.security.acceptPacket src n }.dispatch
          ⟨aetherMagicValue, aetherVersionValue, type, n, src, dst % 2 ^ 16, 0, 0, 0, 0⟩ answer
        (r.1, r.2, some .ok)
      else (nic.tick, none, some .replay) := by
  have hw := wellFormed_aetherFrame dst n hsrc htype
  have hethernet : readBytes (aetherFrame src dst type n 0 0 0 0 []) 12 2 =
      some [0x88, 0xB5] := by
    rw [readBytes_of_le]
    · rfl
    · rw [length_aetherFrame]
      decide
  unfold processFrame
  rw [hw.read]
  dsimp only
  rw [if_neg (not_not.2 hethernet), if_pos henabled, validateFrame_replay hinit hflags hw]
  dsimp only
  by_cases hok : (nic.security.replay src).check n = .ok
  · rw [if_pos hok, if_pos rfl, if_pos hok]
  · rw [if_neg hok, if_neg (by decide), if_neg hok]
    rfl

end AetherNic

namespace NicLink

/-- A round of the loop of `seraph_aether_nic_poll`. -/
theorem step_poll {s : NicLink} {side : LinkSide} {frame : List UInt8} {q : List (List UInt8)}
    (answer : AetherAnswer) (hq : s.inFlight side = frame :: q) :
    let r := (s.nic side).processFrame frame answer
    let t := (s.step (side, .poll answer)).1
    (s.step (side, .poll answer)).2 = r.2.2 ∧ t.nic side = r.1 ∧
      t.nic side.other = s.nic side.other ∧ t.sent side.other = s.sent side.other ∧
      t.inFlight side = q ∧
      t.inFlight side.other = s.inFlight side.other ++ (r.2.1.map Prod.fst).toList := by
  intro r t
  have hne := LinkSide.other_ne side
  have hact : s.act side (.poll answer) = r := by
    unfold act
    dsimp only
    rw [hq]
  have hresult : (s.step (side, .poll answer)).2 = r.2.2 := by
    unfold step
    dsimp only
    split <;> exact congrArg (fun r => r.2.2) hact
  have hrest : s.rest side (.poll answer) = q := congrArg List.tail hq
  refine ⟨hresult, ?_⟩
  cases hsent : r.2.1 with
  | none =>
    have ht : t = _ := step_of_none (by rw [hact, hsent])
    rw [ht, hact]
    refine ⟨Function.update_self .., Function.update_of_ne hne .., rfl, ?_, ?_⟩
    · exact (Function.update_self ..).trans hrest
    · exact (Function.update_of_ne hne ..).trans (List.append_nil _).symm
  | some p =>
    have ht : t = _ := step_of_some (by rw [hact, hsent])
    rw [ht, hact]
    refine ⟨Function.update_self .., Function.update_of_ne hne .., Function.update_of_ne hne ..,
      ?_, Function.update_self ..⟩
    exact (Function.update_of_ne hne.symm ..).trans ((Function.update_self ..).trans hrest)

/-- While every frame bears a number that follows all those of its node, none is refused as a
replay. -/
theorem not_replayed {left right : AetherNic} (hleft : ∀ src, left.security.replay src = .reset)
    (hright : ∀ src, right.security.replay src = .reset) {ops : List (LinkSide × NicOp)}
    (hfresh : Guarded step SendsFresh (start left right) ops) (a : LinkSide × NicOp) :
    ((run step (start left right) ops).step a).2 ≠ some .replay := by
  have hinv := guarded_invariant (I := Inv) (fun s b hs hb => step_inv hs hb)
    (start_inv hleft hright) hfresh
  generalize run step (start left right) ops = s at hinv
  have hpasses := (act_acts hinv a.1 a.2).passes
  unfold step
  dsimp only
  split <;> exact hpasses

/-- A first request has been polled : the next one is to bear the number 2, which the window of the
reader takes. -/
theorem polled_request :
    let u := run step (start (.initSecure 1 true secFlagEnforceReplay)
      (.initSecure 2 true secFlagEnforceReplay))
      [(.left, .pageRequest 2 0 0 false), (.right, .poll ⟨true, none, 1⟩)]
    u.nic .left = { AetherNic.initSecure 1 true secFlagEnforceReplay with seqCounter := 1 } ∧
      u.sent .left = [1] ∧ u.inFlight .right = [] ∧ (u.nic .right).securityEnabled = true ∧
        (u.nic .right).security.initialized = true ∧
          (u.nic .right).security.flags = secFlagEnforceReplay ∧
            ((u.nic .right).security.replay 1).check 2 = .ok := by
  intro u
  obtain ⟨t, ht⟩ : ∃ t, t = ((start (.initSecure 1 true secFlagEnforceReplay)
    (.initSecure 2 true secFlagEnforceReplay)).step (.left, .pageRequest 2 0 0 false)).1 :=
      ⟨_, rfl⟩
  have hu : u = (t.step (.right, .poll ⟨true, none, 1⟩)).1 := by
    rw [ht]
    rfl
  have hrequest : t.inFlight .right = [aetherFrame 1 2 aetherMsgPageRequest 1 0 0 0 0 []] := by
    rw [ht]
    rfl
  obtain ⟨-, hnic, hnic', hsent, hq, -⟩ := step_poll ⟨true, none, 1⟩ hrequest
  have hreader : t.nic .right = .initSecure 2 true secFlagEnforceReplay := by
    rw [ht]
    rfl
  rw [hreader, AetherNic.processFrame_replay 2 1 rfl rfl rfl (by decide) (by decide),
    if_pos (by decide)] at hnic
  rw [hu, hnic]
  refine ⟨hnic'.trans ?_, hsent.trans ?_, hq, rfl, rfl, rfl, by decide⟩
  · rw [ht]
    rfl
  · rw [ht]
    rfl

/-- The second of two requests passes the window that has the number of the first one. -/
theorem not_replayed_requests :
    let s := run step (start (.initSecure 1 true secFlagEnforceReplay)
      (.initSecure 2 true secFlagEnforceReplay))
      [(.left, .pageRequest 2 0 0 false), (.right, .poll ⟨true, none, 1⟩),
        (.left, .pageRequest 2 0 0 false)]
    (s.step (.right, .poll ⟨true, none, 1⟩)).2 = some .ok ∧
      (s.step (.right, .poll ⟨true, none, 1⟩)).2 ≠ some .replay := by
  intro s
  obtain ⟨hleft, hsent, hq, henabled, hinit, hflags, hcheck⟩ := polled_request
  obtain ⟨u, hu⟩ : ∃ u, u = run step (start (.initSecure 1 true secFlagEnforceReplay)
    (.initSecure 2 true secFlagEnforceReplay))
      [(.left, .pageRequest 2 0 0 false), (.right, .poll ⟨true, none, 1⟩)] := ⟨_, rfl⟩
  rw [← hu] at hleft hsent hq henabled hinit hflags hcheck
  have hfresh : Guarded step SendsFresh (start (.initSecure 1 true secFlagEnforceReplay)
      (.initSecure 2 true secFlagEnforceReplay))
      [(.left, .pageRequest 2 0 0 false), (.right, .poll ⟨true, none, 1⟩),
        (.left, .pageRequest 2 0 0 false)] := by
    refine ⟨fun _ _ hm => absurd hm List.not_mem_nil, fun _ _ hm => absurd hm List.not_mem_nil,
      fun _ m hm => ?_, trivial⟩
    rw [run_cons, run_cons, run_nil] at hu
    rw [← hu] at hm ⊢
    obtain rfl := List.mem_singleton.1 (hsent ▸ hm)
    change Follows ((u.nic .left).seqCounter + 1) 1
    rw [hleft]
    decide
  refine ⟨?_, not_replayed (fun _ => rfl) (fun _ => rfl) hfresh _⟩
  have hs : s = (u.step (.left, .pageRequest 2 0 0 false)).1 := by
    rw [hu]
    rfl
  have hreader : s.nic .right = u.nic .right := by
    rw [hs]
    rfl
  have hagain : s.inFlight .right =
      u.inFlight .right ++ [((u.nic .left).sendPageRequest 2 0 0 false).2.1] := by
    rw [hs]
    rfl
  rw [hq, hleft] at hagain
  have hnext : s.inFlight .right = [aetherFrame 1 2 aetherMsgPageRequest 2 0 0 0 0 []] := hagain
  obtain ⟨hresult, -⟩ := step_poll ⟨true, none, 1⟩ hnext
  rw [hresult, hreader, AetherNic.processFrame_replay 2 2 henabled hinit hflags (by decide)
    (by decide), if_pos hcheck]

/-- The first node asks for a page, the second one invalidates a page, and the acknowledgment of
this bears the number of the request. -/
def requestAndInvalidate : List (LinkSide × NicOp) :=
  [(.left, .pageRequest 2 0 0 false), (.right, .invalidate 1 0 0),
    (.right, .poll ⟨true, none, 1⟩), (.left, .poll ⟨true, none, 1⟩)]

theorem acknowledgment_replayed :
    ((run step (start (.initSecure 1 true secFlagEnforceReplay)
      (.initSecure 2 true secFlagEnforceReplay)) requestAndInvalidate).step
      (.right, .poll ⟨true, none, 1⟩)).2 = some .replay := by
  rw [requestAndInvalidate, run_cons, run_cons, run_cons, run_cons, run_nil]
  obtain ⟨s, hs⟩ : ∃ s, s = ((((start (.initSecure 1 true secFlagEnforceReplay)
    (.initSecure 2 true secFlagEnforceReplay)).step (.left, .pageRequest 2 0 0 false)).1).step
    (.right, .invalidate 1 0 0)).1 := ⟨_, rfl⟩
  have hrequest : s.inFlight .right = [aetherFrame 1 2 aetherMsgPageRequest 1 0 0 0 0 []] := by
    rw [hs]
    rfl
  have hinvalidate : s.inFlight .left = [aetherFrame 2 1 aetherMsgInvalidate 1 0 0 0 0 []] := by
    rw [hs]
    rfl
  have hright : s.nic .right =
      { AetherNic.initSecure 2 true secFlagEnforceReplay with seqCounter := 1 } := by
    rw [hs]
    rfl
  have hleft : s.nic .left =
      { AetherNic.initSecure 1 true secFlagEnforceReplay with seqCounter := 1 } := by
    rw [hs]
    rfl
  rw [← hs]
  clear hs
  -- the request is accepted
  obtain ⟨-, hnic, hnic', -, hq, hq'⟩ := step_poll ⟨true, none, 1⟩ hrequest
  rw [hright, AetherNic.processFrame_replay 2 1 rfl rfl rfl (by decide) (by decide),
    if_pos (by decide)] at hnic hq'
  generalize (s.step (.right, .poll ⟨true, none, 1⟩)).1 = t at hnic hnic' hq hq' ⊢
  -- the invalidation is acknowledged
  have hsilent : t.inFlight .left = s.inFlight .left ++ [] := hq'
  have hasker : t.nic .left = _ := hnic'.trans hleft
  rw [hinvalidate, List.append_nil] at hsilent
  obtain ⟨-, -, hsame, -, -, hack⟩ := step_poll ⟨true, none, 1⟩ hsilent
  rw [hasker, AetherNic.processFrame_replay 1 1 rfl rfl rfl (by decide) (by decide),
    if_pos (by decide)] at hack
  generalize (t.step (.left, .poll ⟨true, none, 1⟩)).1 = u at hsame hack ⊢
  -- and the acknowledgment is refused
  have hbare : u.inFlight .right = t.inFlight .right ++
    [aetherFrame 1 2 aetherMsgAck 1 0 0 0 0 []] := hack
  rw [hq, List.nil_append] at hbare
  have hsayer : u.nic .right = _ := hsame.trans hnic
  obtain ⟨hresult, -⟩ := step_poll ⟨true, none, 1⟩ hbare
  rw [hresult, hsayer, AetherNic.processFrame_replay 2 1 rfl rfl rfl (by decide) (by decide),
    if_neg (by decide)]

end NicLink

end Seraph
