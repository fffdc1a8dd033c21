import Seraph.AetherSecurity
import Seraph.Aether

/-!
# Aether over a network card

A node sends requests, responses, invalidations and queries, each with the next number of its
counter, and answers some of what it receives. An acknowledgment, and the answer to a query of a
generation, bears the number of the message that it answers.

What the local Aether says of a page or a generation is an argument of the handlers
(`AetherAnswer`). Two nodes are joined by a link (`NicLink`) that loses nothing and keeps the
order ; it also remembers the numbers of the frames that were sent.
-/

namespace Seraph

/-- `SERAPH_NIC_MAX_FRAME_SIZE`. -/
def nicMaxFrameSize : ℕ := 1522

/-- `AETHER_MSG_PAGE_REQUEST`. -/
def aetherMsgPageRequest : ℕ := 0x01

/-- `AETHER_MSG_PAGE_RESPONSE`. -/
def aetherMsgPageResponse : ℕ := 0x02

/-- `AETHER_MSG_INVALIDATE`. -/
def aetherMsgInvalidate : ℕ := 0x03

/-- `AETHER_MSG_GENERATION`. -/
def aetherMsgGeneration : ℕ := 0x04

/-- `AETHER_MSG_REVOKE`. -/
def aetherMsgRevoke : ℕ := 0x05

/-- `AETHER_MSG_ACK`. -/
def aetherMsgAck : ℕ := 0x06

/-- `AETHER_FLAG_WRITE`. -/
def aetherFlagWrite : ℕ := 0x01

/-! ### Frames -/

/-- `aether_node_to_mac`. -/
def aetherNodeToMac (nodeId : ℕ) : List UInt8 :=
  [0x02, 0x53, 0x45, 0x52, UInt8.ofNat (nodeId >>> 8), UInt8.ofNat nodeId]

/-- The `n` bytes of a field, least significant first. -/
def fieldBytes (n v : ℕ) : List UInt8 :=
  (List.range n).map fun i => UInt8.ofNat (v / 256 ^ i)

/-- The frame of `aether_build_header`, with its payload. -/
def aetherFrame (srcNode dstNode type : ℕ) (seqNum : UInt32)
    (offset generation dataLen flags : ℕ) (payload : List UInt8) : List UInt8 :=
  aetherNodeToMac dstNode ++ aetherNodeToMac srcNode ++ [0x88, 0xB5] ++
    fieldBytes 4 aetherMagicValue ++ fieldBytes 2 aetherVersionValue ++ fieldBytes 2 type ++
    fieldBytes 4 seqNum.toNat ++ fieldBytes 2 srcNode ++ fieldBytes 2 dstNode ++
    fieldBytes 8 offset ++ fieldBytes 2 flags ++ fieldBytes 2 dataLen ++
    fieldBytes 8 generation ++ payload

/-! ### Nodes -/

/-- `Aether_NIC_State`. -/
structure AetherNic where
  localNodeId : ℕ
  /-- `aether` is not null. -/
  hasAether : Bool
  seqCounter : UInt32
  security : SecurityState
  securityEnabled : Bool
  currentTick : ℕ

/-- What the local Aether says of the page of a request, and of a generation. -/
structure AetherAnswer where
  generationValid : Bool
  pageData : Option (ℕ → UInt8)
  generation : ℕ

/-- A frame that is sent, and its number. -/
abbrev SentFrame := List UInt8 × UInt32

namespace AetherNic

variable (nic : AetherNic)

/-- `seraph_aether_nic_init_secure`. -/
def initSecure (nodeId : ℕ) (hasAether : Bool) (securityFlags : ℕ) : AetherNic where
  localNodeId := nodeId
  hasAether := hasAether
  seqCounter := 0
  security := .initFlags securityFlags
  securityEnabled := securityFlags ≠ 0
  currentTick := 0

/-- `aether_append_hmac`. -/
def appendHmac (frame : List UInt8) (dstNode : ℕ) : List UInt8 :=
  if !nic.securityEnabled then frame
  else if dstNode ≥ aetherSecurityMaxNodes then frame
  else if !(nic.security.permissions dstNode).authenticated then frame
  else frame ++ aetherHmacSha256 (nic.security.permissions dstNode).key frame

/-- A frame is built and sent, with the next number of the counter or with another one. -/
def send (type dstNode offset generation flags : ℕ) (payload : List UInt8)
    (echo : Option UInt32) : AetherNic × SentFrame :=
  let seqNum := echo.getD (nic.seqCounter + 1)
  let frame := aetherFrame nic.localNodeId dstNode type seqNum offset generation payload.length
    flags payload
  ({ nic with seqCounter := nic.seqCounter + 1 }, nic.appendHmac frame dstNode, seqNum)

/-- `seraph_aether_nic_send_page_request`. -/
def sendPageRequest (dstNode offset generation : ℕ) (forWrite : Bool) : AetherNic × SentFrame :=
  nic.send aetherMsgPageRequest dstNode offset generation
    (if forWrite then aetherFlagWrite else 0) [] none

/-- `seraph_aether_nic_send_page_response` : a page that is too large for a frame is not sent. -/
def sendPageResponse (dstNode offset generation : ℕ) (page : List UInt8) :
    AetherNic × Option SentFrame :=
  if aetherFrameSize + page.length + aetherHmacDigestSize > nicMaxFrameSize then (nic, none)
  else
    let r := nic.send aetherMsgPageResponse dstNode offset generation 0 page none
    (r.1, some r.2)

/-- `seraph_aether_nic_send_invalidate`. -/
def sendInvalidate (dstNode offset newGeneration : ℕ) : AetherNic × SentFrame :=
  nic.send aetherMsgInvalidate dstNode offset newGeneration 0 [] none

/-- `seraph_aether_nic_send_generation_query`. -/
def sendGenerationQuery (dstNode offset : ℕ) : AetherNic × SentFrame :=
  nic.send aetherMsgGeneration dstNode offset 0 0 [] none

/-- `seraph_aether_nic_send_ack`. -/
def sendAck (dstNode : ℕ) (seqNum : UInt32) : AetherNic × SentFrame :=
  nic.send aetherMsgAck dstNode 0 0 0 [] (some seqNum)

/-- `aether_get_current_tick`. -/
def tick : AetherNic :=
  { nic with currentTick := u64 (nic.currentTick + 1) }

/-! ### Receiving -/

/-- `aether_handle_page_request`. -/
def handlePageRequest (hdr : AetherHeader) (answer : AetherAnswer) :
    AetherNic × Option SentFrame :=
  if !nic.hasAether then (nic, none)
  else
    let perm := nic.security.permissions hdr.srcNode
    let required := if hdr.flags &&& aetherFlagWrite ≠ 0 then nodePermWrite else nodePermRead
    if nic.securityEnabled && !answer.generationValid then (nic.tick, none)
    else if nic.securityEnabled && (hdr.srcNode ≥ aetherSecurityMaxNodes || !perm.authenticated)
    then (nic.tick, none)
    else if nic.securityEnabled && !perm.hasPerm required then (nic.tick, none)
    else
      match answer.pageData with
      | some page => nic.sendPageResponse hdr.srcNode hdr.offset answer.generation
          ((List.range aetherPageSize).map page)
      | none => (nic, none)

/-- `aether_handle_invalidate`, and `aether_handle_revoke`. -/
def handleInvalidate (hdr : AetherHeader) : AetherNic × Option SentFrame :=
  if !nic.hasAether then (nic, none)
  else
    let r := nic.sendAck hdr.srcNode hdr.seqNum
    (r.1, some r.2)

/-- `aether_handle_generation` : a query is answered with its own number. -/
def handleGeneration (hdr : AetherHeader) (answer : AetherAnswer) :
    AetherNic × Option SentFrame :=
  if !nic.hasAether then (nic, none)
  else if hdr.generation = 0 then
    let r := nic.send aetherMsgGeneration hdr.srcNode hdr.offset answer.generation 0 []
      (some hdr.seqNum)
    (r.1, some r.2)
  else (nic, none)

/-- The end of `aether_process_frame` : the handler of a frame that is for this node. -/
def dispatch (hdr : AetherHeader) (answer : AetherAnswer) : AetherNic × Option SentFrame :=
  if hdr.dstNode ≠ nic.localNodeId ∧ hdr.dstNode ≠ 0xFFFF then (nic, none)
  else
    match hdr.type with
    | 0x01 => nic.handlePageRequest hdr answer
    | 0x03 => nic.handleInvalidate hdr
    | 0x04 => nic.handleGeneration hdr answer
    | 0x05 => nic.handleInvalidate hdr
    | _ => (nic, none)

/-- The structural checks where security is switched off. -/
def legacyValid (frame : List UInt8) (hdr : AetherHeader) : Bool :=
  hdr.magic = aetherMagicValue && hdr.type ≠ 0 && hdr.type ≤ aetherMsgAck &&
    hdr.srcNode < aetherSecurityMaxNodes && hdr.dataLen ≤ frame.length - aetherFrameSize &&
    hdr.offset ≤ aetherMaxOffset

/-- `aether_process_frame` : the state, the frame that is sent back, and what the validation
said. -/
def processFrame (frame : List UInt8) (answer : AetherAnswer) :
    AetherNic × Option SentFrame × Option ValidateResult :=
  match readHeader frame with
  | none => (nic, none, none)
  | some hdr =>
    if readBytes frame 12 2 ≠ some [0x88, 0xB5] then (nic, none, none)
    else if nic.securityEnabled then
      match nic.security.validateFrame frame nic.tick.currentTick with
      | none => (nic.tick, none, none)
      | some (security, result) =>
        if result = .ok then
          let r := { nic.tick with
            security := security.acceptPacket hdr.srcNode hdr.seqNum }.dispatch hdr answer
          (r.1, r.2, some result)
        else ({ nic.tick with security := security }, none, some result)
    else if legacyValid frame hdr then
      let r := nic.dispatch hdr answer
      (r.1, r.2, none)
    else (nic, none, none)

end AetherNic

/-! ### A link -/

/-- The ends of a link. -/
inductive LinkSide where
  | left
  | right
deriving DecidableEq

/-- The node at the other end. -/
def LinkSide.other : LinkSide → LinkSide
  | .left => .right
  | .right => .left

/-- Two nodes, the frames in flight to each side, and the numbers that each has sent, the last one
first. -/
structure NicLink where
  nic : LinkSide → AetherNic
  inFlight : LinkSide → List (List UInt8)
  sent : LinkSide → List UInt32

/-- A call of one of the nodes. -/
inductive NicOp where
  | pageRequest (dstNode offset generation : ℕ) (forWrite : Bool)
  | pageResponse (dstNode offset generation : ℕ) (page : List UInt8)
  | invalidate (dstNode offset newGeneration : ℕ)
  | generationQuery (dstNode offset : ℕ)
  | poll (answer : AetherAnswer)

namespace NicLink

variable (s : NicLink)

/-- What a node does in one call : its state, what it sends, and what a validation said. `poll` is
one round of the loop of `seraph_aether_nic_poll`. -/
def act (side : LinkSide) : NicOp → AetherNic × Option SentFrame × Option ValidateResult
  | .pageRequest dstNode offset generation forWrite =>
    let r := (s.nic side).sendPageRequest dstNode offset generation forWrite
    (r.1, some r.2, none)
  | .pageResponse dstNode offset generation page =>
    let r := (s.nic side).sendPageResponse dstNode offset generation page
    (r.1, r.2, none)
  | .invalidate dstNode offset newGeneration =>
    let r := (s.nic side).sendInvalidate dstNode offset newGeneration
    (r.1, some r.2, none)
  | .generationQuery dstNode offset =>
    let r := (s.nic side).sendGenerationQuery dstNode offset
    (r.1, some r.2, none)
  | .poll answer =>
    match s.inFlight side with
    | [] => (s.nic side, none, none)
    | frame :: _ => (s.nic side).processFrame frame answer

/-- One call : a round of `poll` takes a frame from the link, and what is sent is put on it. -/
def step (a : LinkSide × NicOp) : NicLink × Option ValidateResult :=
  let r := s.act a.1 a.2
  let rest := match a.2 with
    | .poll _ => (s.inFlight a.1).tail
    | _ => s.inFlight a.1
  let inFlight := Function.update s.inFlight a.1 rest
  match r.2.1 with
  | none => ({ s with nic := Function.update s.nic a.1 r.1, inFlight := inFlight }, r.2.2)
  | some (frame, n) =>
    ({ nic := Function.update s.nic a.1 r.1
       inFlight := Function.update inFlight a.1.other (s.inFlight a.1.other ++ [frame])
       sent := Function.update s.sent a.1 (n :: s.sent a.1) }, r.2.2)

/-- Two nodes with an empty link between them. -/
def start (left right : AetherNic) : NicLink where
  nic
    | .left => left
    | .right => right
  inFlight := fun _ => []
  sent := fun _ => []

end NicLink

end Seraph
