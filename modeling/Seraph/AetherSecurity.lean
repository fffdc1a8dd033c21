import Mathlib.Logic.Function.Basic
import Seraph.ByteMemory
import Seraph.Hashing

/-!
# The security of Aether frames

A received frame is validated in five steps : its structure, the rate of its source, its code under
the key of the source, its sequence number, and the permissions of the source. A frame that is
accepted is then entered into the replay window of its source.

A frame is the list of its bytes, and reading behind its end is `none`. The log of security events
and the counters of the state decide nothing and are left out.
-/

namespace Seraph

open ByteMem

/-- `AETHER_SECURITY_MAX_NODES`. -/
def aetherSecurityMaxNodes : ℕ := 16384

/-- `AETHER_REPLAY_WINDOW_SIZE`. -/
def aetherReplayWindowSize : ℕ := 64

/-- `AETHER_MAGIC_VALUE`. -/
def aetherMagicValue : ℕ := 0x48544541

/-- `AETHER_VERSION_VALUE`. -/
def aetherVersionValue : ℕ := 1

/-- `AETHER_MSG_TYPE_MAX`. -/
def aetherMsgTypeMax : ℕ := 0x06

/-- `SERAPH_AETHER_MAX_OFFSET`. -/
def aetherMaxOffset : ℕ := 0x00000000FFFFFFFF

/-- `AETHER_HMAC_KEY_SIZE`. -/
def aetherHmacKeySize : ℕ := 32

/-- `AETHER_HMAC_DIGEST_SIZE`. -/
def aetherHmacDigestSize : ℕ := 32

/-! ### Replay windows -/

/-- `Aether_Replay_State`. -/
structure ReplayState where
  lastSeq : UInt32
  windowBitmap : BitVec 64
  initialized : Bool
deriving DecidableEq

/-- `Aether_Replay_Result`. -/
inductive ReplayResult where
  | ok
  | duplicate
  | tooOld
deriving DecidableEq, Repr

namespace ReplayState

/-- `aether_replay_reset`. -/
def reset : ReplayState :=
  ⟨0, 0#64, false⟩

/-- `aether_replay_check`. -/
def check (state : ReplayState) (seqNum : UInt32) : ReplayResult :=
  if !state.initialized then .ok
  else if seqNum > state.lastSeq then .ok
  else
    let diff := (state.lastSeq - seqNum).toNat
    if diff ≥ aetherReplayWindowSize then .tooOld
    else if state.windowBitmap &&& 1#64 <<< diff ≠ 0#64 then .duplicate
    else .ok

/-- `aether_replay_accept`. -/
def accept (state : ReplayState) (seqNum : UInt32) : ReplayState :=
  if !state.initialized then ⟨seqNum, 1#64, true⟩
  else if seqNum > state.lastSeq then
    let shift := (seqNum - state.lastSeq).toNat
    if shift ≥ aetherReplayWindowSize then ⟨seqNum, 1#64, true⟩
    else ⟨seqNum, state.windowBitmap <<< shift ||| 1#64, true⟩
  else
    let diff := (state.lastSeq - seqNum).toNat
    if diff < aetherReplayWindowSize then
      { state with windowBitmap := state.windowBitmap ||| 1#64 <<< diff }
    else state

end ReplayState

/-! ### Rates -/

/-- `RATE_FP_SHIFT` : tokens have 16 bits behind the point. -/
def rateFpShift : ℕ := 16

/-- `RATE_FP_ONE`. -/
def rateFpOne : ℕ := 2 ^ 16

/-- `Aether_Rate_Config`. -/
structure RateConfig where
  tokensPerSecond : ℕ
  bucketSize : ℕ
  ticksPerSecond : ℕ

/-- `Aether_Rate_State`. -/
structure RateState where
  tokens : ℕ
  lastRefillTick : ℕ
  droppedPackets : ℕ
  throttled : Bool
deriving DecidableEq

/-- `Aether_Rate_Result`. -/
inductive RateResult where
  | ok
  | limited
  | backoff
deriving DecidableEq, Repr

/-- `aether_rate_config_init`. -/
def RateConfig.init (pps burst ticksPerSec : ℕ) : RateConfig :=
  ⟨pps, burst, if ticksPerSec > 0 then ticksPerSec else 1000⟩

namespace RateState

/-- `aether_rate_reset`. -/
def reset : RateState :=
  ⟨0, 0, 0, false⟩

/-- The first packet fills the bucket. -/
def start (state : RateState) (config : RateConfig) (currentTick : ℕ) : RateState :=
  if state.lastRefillTick = 0 then
    { state with
      tokens := u32 (config.bucketSize <<< rateFpShift)
      lastRefillTick := currentTick }
  else state

/-- The tokens for the time since the last refill. -/
def refill (state : RateState) (config : RateConfig) (currentTick : ℕ) : RateState :=
  let elapsed := u64 (2 ^ 64 - state.lastRefillTick + currentTick)
  if elapsed > 0 then
    let tokensToAdd :=
      u64 (u64 (elapsed * config.tokensPerSecond) * rateFpOne) / config.ticksPerSecond
    let maxTokens := u32 (config.bucketSize <<< rateFpShift)
    let newTokens := u64 (state.tokens + tokensToAdd)
    { state with
      tokens := u32 (if newTokens > maxTokens then maxTokens else newTokens)
      lastRefillTick := currentTick }
  else state

/-- `aether_rate_check`. -/
def check (state : RateState) (config : RateConfig) (currentTick : ℕ) : RateState × RateResult :=
  let state := (state.start config currentTick).refill config currentTick
  if state.tokens ≥ rateFpOne then ({ state with throttled := false }, .ok)
  else
    ({ state with droppedPackets := u32 (state.droppedPackets + 1), throttled := true },
      if state.tokens > 0 then .backoff else .limited)

/-- `aether_rate_consume`. -/
def consume (state : RateState) : RateState :=
  if state.tokens ≥ rateFpOne then { state with tokens := state.tokens - rateFpOne } else state

end RateState

/-! ### Permissions -/

/-- `AETHER_NODE_PERM_NONE`. -/
def nodePermNone : ℕ := 0x00

/-- `AETHER_NODE_PERM_READ`. -/
def nodePermRead : ℕ := 0x01

/-- `AETHER_NODE_PERM_WRITE`. -/
def nodePermWrite : ℕ := 0x02

/-- `AETHER_NODE_PERM_INVALIDATE`. -/
def nodePermInvalidate : ℕ := 0x04

/-- `AETHER_NODE_PERM_REVOKE`. -/
def nodePermRevoke : ℕ := 0x08

/-- `AETHER_NODE_PERM_GENERATION`. -/
def nodePermGeneration : ℕ := 0x10

/-- `Aether_Node_Permission`. -/
structure NodePermission where
  permissions : ℕ
  authenticated : Bool
  key : List UInt8

/-- `aether_node_has_perm`. -/
def NodePermission.hasPerm (perm : NodePermission) (required : ℕ) : Bool :=
  perm.permissions &&& required = required

/-- The permission that a message needs, by its type and flags. -/
def requiredPerm (type flags : ℕ) : ℕ :=
  match type with
  | 0x01 => if flags &&& 0x01 ≠ 0 then nodePermWrite else nodePermRead
  | 0x02 => nodePermRead
  | 0x03 => nodePermInvalidate
  | 0x04 => nodePermGeneration
  | 0x05 => nodePermRevoke
  | _ => nodePermNone

/-! ### Frames -/

namespace AetherField

/-! The fields of `Aether_Header`, behind the Ethernet header of 14 bytes. -/

/-- `magic`. -/
def magic : StructField := ⟨14, 4⟩

/-- `version`. -/
def version : StructField := ⟨18, 2⟩

/-- `type`. -/
def type : StructField := ⟨20, 2⟩

/-- `seq_num`. -/
def seqNum : StructField := ⟨22, 4⟩

/-- `src_node`. -/
def srcNode : StructField := ⟨26, 2⟩

/-- `dst_node`. -/
def dstNode : StructField := ⟨28, 2⟩

/-- `offset`. -/
def offset : StructField := ⟨30, 8⟩

/-- `flags`. -/
def flags : StructField := ⟨38, 2⟩

/-- `data_len`. -/
def dataLen : StructField := ⟨40, 2⟩

/-- `generation`. -/
def generation : StructField := ⟨42, 8⟩

end AetherField

/-- `sizeof(Aether_Frame)`. -/
def aetherFrameSize : ℕ := 50

/-- `Aether_Header`. -/
structure AetherHeader where
  magic : ℕ
  version : ℕ
  type : ℕ
  seqNum : UInt32
  srcNode : ℕ
  dstNode : ℕ
  offset : ℕ
  flags : ℕ
  dataLen : ℕ
  generation : ℕ

/-- The `n` bytes of a buffer at `a`, if it has them. -/
def readBytes (frame : List UInt8) (a n : ℕ) : Option (List UInt8) :=
  if a + n ≤ frame.length then some ((frame.drop a).take n) else none

/-- The header of a frame, if the buffer has it. -/
def readHeader (frame : List UInt8) : Option AetherHeader :=
  (readBytes frame 0 aetherFrameSize).map fun bytes =>
    let m : Memory := Sha256.bytesAt bytes
    { magic := m.get 0 AetherField.magic
      version := m.get 0 AetherField.version
      type := m.get 0 AetherField.type
      seqNum := UInt32.ofNat (m.get 0 AetherField.seqNum)
      srcNode := m.get 0 AetherField.srcNode
      dstNode := m.get 0 AetherField.dstNode
      offset := m.get 0 AetherField.offset
      flags := m.get 0 AetherField.flags
      dataLen := m.get 0 AetherField.dataLen
      generation := m.get 0 AetherField.generation }

/-! ### Validation -/

/-- `AETHER_SEC_FLAG_REQUIRE_HMAC`. -/
def secFlagRequireHmac : ℕ := 0x01

/-- `AETHER_SEC_FLAG_ENFORCE_REPLAY`. -/
def secFlagEnforceReplay : ℕ := 0x02

/-- `AETHER_SEC_FLAG_RATE_LIMIT`. -/
def secFlagRateLimit : ℕ := 0x04

/-- `AETHER_SEC_FLAG_CHECK_PERMISSIONS`. -/
def secFlagCheckPermissions : ℕ := 0x08

/-- `AETHER_SEC_FLAG_STRICT`. -/
def secFlagStrict : ℕ := 0x0F

/-- `Aether_Security_State`. -/
structure SecurityState where
  flags : ℕ
  rateConfig : RateConfig
  replay : ℕ → ReplayState
  rate : ℕ → RateState
  permissions : ℕ → NodePermission
  initialized : Bool

/-- `Aether_Validate_Result`. -/
inductive ValidateResult where
  | ok
  | malformed
  | hmacFail
  | replay
  | rateLimited
  | permission
  | generation
deriving DecidableEq, Repr

/-- The comparison of `aether_hmac_verify`. -/
def hmacVerify (a b : List UInt8) : Bool :=
  (List.range 32).foldl (fun diff i => diff ||| (Sha256.bytesAt a i ^^^ Sha256.bytesAt b i)) 0 = 0

namespace SecurityState

variable (state : SecurityState)

/-- `aether_security_init_flags`. -/
def initFlags (flags : ℕ) : SecurityState where
  flags := flags
  rateConfig := .init 1000 100 1000
  replay := fun _ => .reset
  rate := fun _ => .reset
  permissions := fun _ => ⟨nodePermNone, false, List.replicate 32 0⟩
  initialized := true

/-- `aether_security_init`. -/
def init : SecurityState :=
  initFlags secFlagStrict

/-- `aether_security_set_node_key`, from the first 32 bytes of `key`. -/
def setNodeKey (nodeId : ℕ) (key : List UInt8) (permissions : ℕ) : SecurityState :=
  if nodeId ≥ aetherSecurityMaxNodes then state
  else
    { state with
      permissions := Function.update state.permissions nodeId
        ⟨permissions, true, key.take aetherHmacKeySize⟩ }

/-- Step 1 of `aether_security_validate_frame` : the header of a frame that is well formed. -/
def structuralStep (frame : List UInt8) : Option (Option AetherHeader) :=
  if frame.length < aetherFrameSize then some none
  else
    (readHeader frame).map fun header =>
      if header.magic ≠ aetherMagicValue then none
      else if header.version ≠ aetherVersionValue then none
      else if header.type = 0 ∨ header.type > aetherMsgTypeMax then none
      else if header.srcNode ≥ aetherSecurityMaxNodes then none
      else
        let claimedTotal := u64 (aetherFrameSize + header.dataLen)
        if claimedTotal < aetherFrameSize ∨ frame.length < claimedTotal then none
        else if header.offset > aetherMaxOffset then none
        else some header

/-- Step 2, the rate of the source : whether the frame passes. -/
def rateStep (srcNode currentTick : ℕ) : SecurityState × Bool :=
  if state.flags &&& secFlagRateLimit ≠ 0 then
    let r := (state.rate srcNode).check state.rateConfig currentTick
    ({ state with rate := Function.update state.rate srcNode r.1 }, r.2 ≠ .limited)
  else (state, true)

/-- Step 3, the code behind the payload. -/
def hmacStep (header : AetherHeader) (frame : List UInt8) : Option Bool :=
  if state.flags &&& secFlagRequireHmac ≠ 0 then
    let perm := state.permissions header.srcNode
    let claimedTotal := aetherFrameSize + header.dataLen
    if !perm.authenticated then some false
    else if frame.length < claimedTotal + aetherHmacDigestSize then some false
    else do
      let claimed ← readBytes frame 0 claimedTotal
      let receivedMac ← readBytes frame claimedTotal aetherHmacDigestSize
      return hmacVerify (aetherHmacSha256 perm.key claimed) receivedMac
  else some true

/-- Step 4, the sequence number. -/
def replayStep (srcNode : ℕ) (seqNum : UInt32) : Bool :=
  if state.flags &&& secFlagEnforceReplay ≠ 0 then
    (state.replay srcNode).check seqNum = .ok
  else true

/-- Step 5, the permissions of the source. -/
def permissionStep (header : AetherHeader) : Bool :=
  if state.flags &&& secFlagCheckPermissions ≠ 0 then
    let required := requiredPerm header.type header.flags
    required = nodePermNone || (state.permissions header.srcNode).hasPerm required
  else true

/-- The token of a frame that is valid. -/
def consumeToken (srcNode : ℕ) : SecurityState :=
  if state.flags &&& secFlagRateLimit ≠ 0 then
    { state with rate := Function.update state.rate srcNode (state.rate srcNode).consume }
  else state

/-- `aether_security_validate_frame`. -/
def validateFrame (frame : List UInt8) (currentTick : ℕ) :
    Option (SecurityState × ValidateResult) :=
  if !state.initialized then some (state, .malformed)
  else do
    match ← structuralStep frame with
    | none => some (state, .malformed)
    | some header =>
      let r := state.rateStep header.srcNode currentTick
      if !r.2 then some (r.1, .rateLimited)
      else
        let authentic ← r.1.hmacStep header frame
        if !authentic then some (r.1, .hmacFail)
        else if !r.1.replayStep header.srcNode header.seqNum then some (r.1, .replay)
        else if !r.1.permissionStep header then some (r.1, .permission)
        else some (r.1.consumeToken header.srcNode, .ok)

/-- `aether_security_accept_packet`. -/
def acceptPacket (srcNode : ℕ) (seqNum : UInt32) : SecurityState :=
  if srcNode ≥ aetherSecurityMaxNodes then state
  else if state.flags &&& secFlagEnforceReplay ≠ 0 then
    { state with
      replay := Function.update state.replay srcNode ((state.replay srcNode).accept seqNum) }
  else state

end SecurityState

end Seraph
