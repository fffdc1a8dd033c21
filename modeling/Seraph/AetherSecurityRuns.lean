import Seraph.AetherSecurity
import Seraph.Runs

/-!
# Runs of the frame validation

What one call of the validation does, whatever the frame (`validateFrame_cases`) : it never reads
behind the end of the frame, a frame that is not well formed leaves the state as it was, and every
other one changes the rate of its source only.
-/

namespace Seraph

open Runs

/-- A call that changes the security state. -/
inductive SecurityOp where
  | validate (frame : List UInt8) (currentTick : ℕ)
  | accept (srcNode : ℕ) (seqNum : UInt32)
  | setKey (nodeId : ℕ) (key : List UInt8) (permissions : ℕ)

namespace SecurityState

/-- One call, with the result of a validation. -/
def step (s : SecurityState) : SecurityOp → SecurityState × Option ValidateResult
  | .validate frame currentTick =>
    match s.validateFrame frame currentTick with
    | some r => (r.1, some r.2)
    | none => (s, none)
  | .accept srcNode seqNum => (s.acceptPacket srcNode seqNum, none)
  | .setKey nodeId key permissions => (s.setNodeKey nodeId key permissions, none)

variable {s s' : SecurityState} {frame : List UInt8} {currentTick : ℕ} {header : AetherHeader}
  {result : ValidateResult}

/-! ## The structure of a frame -/

theorem readBytes_of_le {a n : ℕ} (h : a + n ≤ frame.length) :
    readBytes frame a n = some ((frame.drop a).take n) :=
  if_pos h

/-- The bounds of a frame that is well formed. -/
structure WellFormed (frame : List UInt8) (header : AetherHeader) : Prop where
  read : readHeader frame = some header
  magic : header.magic = aetherMagicValue
  version : header.version = aetherVersionValue
  type : 0 < header.type ∧ header.type ≤ aetherMsgTypeMax
  srcNode : header.srcNode < aetherSecurityMaxNodes
  claimed : aetherFrameSize + header.dataLen ≤ frame.length
  offset : header.offset ≤ aetherMaxOffset

theorem dataLen_lt (h : readHeader frame = some header) : header.dataLen < 2 ^ 16 := by
  obtain ⟨bytes, -, rfl⟩ := Option.map_eq_some_iff.1 h
  exact ByteMem.Memory.get_lt _ _ _

theorem readHeader_isSome (h : aetherFrameSize ≤ frame.length) :
    ∃ header, readHeader frame = some header := by
  rw [readHeader, readBytes_of_le (by omega)]
  exact ⟨_, rfl⟩

/-- The first step reads no byte that is not there, and finds the frames that are well formed. -/
theorem structuralStep_spec (frame : List UInt8) :
    ∃ r, structuralStep frame = some r ∧ ∀ header, r = some header ↔ WellFormed frame header := by
  unfold structuralStep
  by_cases hlen : frame.length < aetherFrameSize
  · rw [if_pos hlen]
    refine ⟨none, rfl, fun header => iff_of_false (fun heq => by cases heq) fun hw => ?_⟩
    have := hw.claimed
    omega
  rw [if_neg hlen]
  obtain ⟨h, hread⟩ := readHeader_isSome (Nat.not_lt.1 hlen)
  have hdata := dataLen_lt hread
  have hclaimed : u64 (aetherFrameSize + h.dataLen) = aetherFrameSize + h.dataLen :=
    u64_of_lt (by unfold aetherFrameSize; omega)
  rw [hread, Option.map_some]
  refine ⟨_, rfl, fun header => ?_⟩
  have hback : ∀ header, WellFormed frame header → h = header := fun header hw =>
    Option.some.inj (hread.symm.trans hw.read)
  constructor
  · intro heq
    dsimp only at heq
    split_ifs at heq with h1 h2 h3 h4 h5 h6
    rw [hclaimed] at h5
    cases heq
    exact ⟨hread, not_not.1 h1, not_not.1 h2, by omega, by omega, by omega, by omega⟩
  · intro hw
    obtain rfl := hback header hw
    have htype := hw.type
    have hsrc := hw.srcNode
    have hbound := hw.claimed
    have hoffset := hw.offset
    rw [hclaimed, if_neg (not_not.2 hw.magic), if_neg (not_not.2 hw.version), if_neg (by omega),
      if_neg (by omega), if_neg (by omega), if_neg (by omega)]

/-! ## One call -/

/-- The third step reads no byte that is not there. -/
theorem hmacStep_isSome (s : SecurityState) (header : AetherHeader) (frame : List UInt8) :
    ∃ b, s.hmacStep header frame = some b := by
  unfold hmacStep
  split
  · dsimp only
    split
    · exact ⟨_, rfl⟩
    · split
      · exact ⟨_, rfl⟩
      · next hlen =>
        rw [readBytes_of_le (by omega), readBytes_of_le (by omega)]
        exact ⟨_, rfl⟩
  · exact ⟨_, rfl⟩

/-- What the validation does with a frame whose structure is right. -/
def validated (s : SecurityState) (header : AetherHeader) (frame : List UInt8)
    (currentTick : ℕ) : SecurityState × ValidateResult :=
  let r := s.rateStep header.srcNode currentTick
  if !r.2 then (r.1, .rateLimited)
  else if r.1.hmacStep header frame ≠ some true then (r.1, .hmacFail)
  else if !r.1.replayStep header.srcNode header.seqNum then (r.1, .replay)
  else if !r.1.permissionStep header then (r.1, .permission)
  else (r.1.consumeToken header.srcNode, .ok)

/-- A call reads no byte that is not there. -/
theorem validateFrame_cases (s : SecurityState) (frame : List UInt8) (currentTick : ℕ) :
    ((s.initialized = false ∨ ∀ header, ¬ WellFormed frame header) ∧
        s.validateFrame frame currentTick = some (s, .malformed)) ∨
      ∃ header, s.initialized = true ∧ WellFormed frame header ∧
        s.validateFrame frame currentTick = some (s.validated header frame currentTick) := by
  unfold validateFrame
  cases hinit : s.initialized with
  | false => exact .inl ⟨.inl rfl, rfl⟩
  | true =>
    obtain ⟨r, hstep, hwell⟩ := structuralStep_spec frame
    cases r with
    | none =>
      refine .inl ⟨.inr fun header hw => ?_, by rw [hstep]; rfl⟩
      cases (hwell header).2 hw
    | some header =>
      have hw := (hwell header).1 rfl
      refine .inr ⟨header, rfl, hw, ?_⟩
      rw [hstep]
      obtain ⟨b, hb⟩ := (s.rateStep header.srcNode currentTick).1.hmacStep_isSome header frame
      simp only [validated, Bool.not_true, Bool.false_eq_true, if_false, Option.bind_eq_bind,
        Option.bind_some, hb]
      cases b with
      | false => split <;> rfl
      | true => split_ifs <;> first | rfl | contradiction

/-- The 50 bytes of an acknowledgment of node 1, without a code behind them. -/
def bareAck : List UInt8 :=
  List.replicate 14 0 ++ [0x41, 0x45, 0x54, 0x48, 1, 0, 6, 0, 1, 0, 0, 0, 1, 0, 0, 0] ++
    List.replicate 20 0

end SecurityState

end Seraph
