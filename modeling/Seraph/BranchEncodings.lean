import Seraph.Arm64Encode
import Seraph.RiscvEncode

/-!
# Branches, jumps and calls

What an encoded branch transfers to, for the encoders of both targets. The registers are the given
ones, and the offset is the given one brought into the range of its field (`decode_words`), which is
the offset itself if it is aligned and in the range (`stored_eq`). An encoder returns a word and no
status, so it could only report an offset by a word that is no transfer. None does : outside of the
range the word transfers to another target, and the encoders are right exactly inside of it
(`branchings_meet_iff`).
-/

namespace Seraph

/-! ## RISC-V -/

/-- `RV_ZERO`. -/
def rvZero : RvReg := 0
/-- `RV_RA`. -/
def rvRa : RvReg := 1
/-- `RV_T1`. -/
def rvT1 : RvReg := 6

/-- `rv_j`. -/
def rvJ (offset : BitVec 32) : BitVec 32 :=
  rvJal rvZero offset

/-- `rv_jr`. -/
def rvJr (rs : RvReg) : BitVec 32 :=
  rvJalr rvZero rs 0

/-- `rv_ret`. -/
def rvRet : BitVec 32 :=
  rvJalr rvZero rvRa 0

/-- The words that `rv_emit_call` emits. -/
def rvEmitCall (offset : BitVec 32) : List (BitVec 32) :=
  if -0x100000 ≤ offset.toInt ∧ offset.toInt < 0x100000 then
    [rvJal rvRa offset]
  else
    let hi := offset.sshiftRight 12
    let lo := offset &&& 0xFFF
    let hi := if 0x800 ≤ lo.toInt then hi + 1 else hi
    [rvAuipc rvT1 hi, rvJalr rvRa rvT1 (lo.setWidth 16)]

/-- A transfer of control. -/
inductive RvTransfer where
  | branch (cond : RvCond) (rs1 rs2 : RvReg) (offset : ℤ)
  | jal (rd : RvReg) (offset : ℤ)
  | jalr (rd rs1 : RvReg) (offset : ℤ)
  /-- A jump relative to the instruction, through a register. -/
  | far (rd tmp : RvReg) (offset : ℤ)
deriving DecidableEq, Repr

/-- The transfer that words make. -/
def RvTransfer.decode : List (BitVec 32) → Option RvTransfer
  | [word] =>
    match RvInstr.decode word with
    | some (.branch cond rs1 rs2 offset) => some (branch cond rs1 rs2 offset)
    | some (.jal rd offset) => some (jal rd offset)
    | some (.jalr rd rs1 offset) => some (jalr rd rs1 offset)
    | _ => none
  | [first, second] =>
    match RvInstr.decode first, RvInstr.decode second with
    | some (.auipc tmp hi), some (.jalr rd rs1 lo) =>
      if rs1 = tmp then some (far rd tmp (2 ^ 12 * hi + lo)) else none
    | _, _ => none
  | _ => none

/-- A call of an encoder. -/
inductive RvBranching where
  | beq (rs1 rs2 : RvReg) (offset : BitVec 16)
  | bne (rs1 rs2 : RvReg) (offset : BitVec 16)
  | blt (rs1 rs2 : RvReg) (offset : BitVec 16)
  | bge (rs1 rs2 : RvReg) (offset : BitVec 16)
  | bltu (rs1 rs2 : RvReg) (offset : BitVec 16)
  | bgeu (rs1 rs2 : RvReg) (offset : BitVec 16)
  | jal (rd : RvReg) (offset : BitVec 32)
  | jalr (rd rs1 : RvReg) (offset : BitVec 16)
  | j (offset : BitVec 32)
  | jr (rs : RvReg)
  | ret
  | call (offset : BitVec 32)

namespace RvBranching

/-- The words of the call. -/
def words : RvBranching → List (BitVec 32)
  | beq rs1 rs2 offset => [rvBeq rs1 rs2 offset]
  | bne rs1 rs2 offset => [rvBne rs1 rs2 offset]
  | blt rs1 rs2 offset => [rvBlt rs1 rs2 offset]
  | bge rs1 rs2 offset => [rvBge rs1 rs2 offset]
  | bltu rs1 rs2 offset => [rvBltu rs1 rs2 offset]
  | bgeu rs1 rs2 offset => [rvBgeu rs1 rs2 offset]
  | jal rd offset => [rvJal rd offset]
  | jalr rd rs1 offset => [rvJalr rd rs1 offset]
  | j offset => [rvJ offset]
  | jr rs => [rvJr rs]
  | ret => [rvRet]
  | call offset => rvEmitCall offset

/-- The offset that is asked for. -/
def offset : RvBranching → ℤ
  | beq _ _ offset | bne _ _ offset | blt _ _ offset | bge _ _ offset | bltu _ _ offset
  | bgeu _ _ offset | jalr _ _ offset => offset.toInt
  | jal _ offset | j offset | call offset => offset.toInt
  | jr _ | ret => 0

/-- A call that one jump reaches. -/
def Near (offset : BitVec 32) : Prop :=
  -0x100000 ≤ offset.toInt ∧ offset.toInt < 0x100000

instance (offset : BitVec 32) : Decidable (Near offset) :=
  inferInstanceAs (Decidable (_ ∧ _))

/-- The given registers, with an offset. -/
def transfer (z : ℤ) : RvBranching → RvTransfer
  | beq rs1 rs2 _ => .branch .eq rs1 rs2 z
  | bne rs1 rs2 _ => .branch .ne rs1 rs2 z
  | blt rs1 rs2 _ => .branch .lt rs1 rs2 z
  | bge rs1 rs2 _ => .branch .ge rs1 rs2 z
  | bltu rs1 rs2 _ => .branch .ltu rs1 rs2 z
  | bgeu rs1 rs2 _ => .branch .geu rs1 rs2 z
  | jal rd _ => .jal rd z
  | jalr rd rs1 _ => .jalr rd rs1 z
  | j _ => .jal rvZero z
  | jr rs => .jalr rvZero rs z
  | ret => .jalr rvZero rvRa z
  | call offset => if Near offset then .jal rvRa z else .far rvRa rvT1 z

/-- The offset that is left of the one that is asked for. -/
def stored : RvBranching → ℤ
  | beq _ _ offset | bne _ _ offset | blt _ _ offset | bge _ _ offset | bltu _ _ offset
  | bgeu _ _ offset => 2 * Int.bmod (offset.toInt / 2) (2 ^ 12)
  | jal _ offset | j offset => 2 * Int.bmod (offset.toInt / 2) (2 ^ 20)
  | jalr _ _ offset => Int.bmod offset.toInt (2 ^ 12)
  | jr _ | ret => 0
  | call offset =>
    if Near offset then 2 * (offset.toInt / 2)
    else if offset.toInt < 2 ^ 31 - 2 ^ 11 then offset.toInt
    else offset.toInt - 2 ^ 32

/-- The offset is aligned. `JALR` clears bit 0 of its target, so this is asked for there too. -/
def Aligned (e : RvBranching) : Prop :=
  2 ∣ e.offset

/-- The instruction reaches the offset. -/
def InRange : RvBranching → Prop
  | beq _ _ offset | bne _ _ offset | blt _ _ offset | bge _ _ offset | bltu _ _ offset
  | bgeu _ _ offset => -2 ^ 12 ≤ offset.toInt ∧ offset.toInt < 2 ^ 12
  | jal _ offset | j offset => -2 ^ 20 ≤ offset.toInt ∧ offset.toInt < 2 ^ 20
  | jalr _ _ offset => -2 ^ 11 ≤ offset.toInt ∧ offset.toInt < 2 ^ 11
  | jr _ | ret => True
  | call offset => offset.toInt < 2 ^ 31 - 2 ^ 11

/-- The words have the registers and the offset; for an offset out of range they are no transfer. -/
def Meets (e : RvBranching) : Prop :=
  (e.Aligned → e.InRange → RvTransfer.decode e.words = some (e.transfer e.offset)) ∧
    (¬e.InRange → RvTransfer.decode e.words = none)

end RvBranching

theorem decode_rvBranch {funct3 : BitVec 32} {cond : RvCond}
    (hcond : RvCond.ofFunct3 (funct3.setWidth 3) = some cond) (rs1 rs2 : RvReg)
    (offset : BitVec 16) :
    RvTransfer.decode [rvBtype offset rs2 rs1 funct3 rvOpBranch] =
      some (.branch cond rs1 rs2 (2 * Int.bmod (offset.toInt / 2) (2 ^ 12))) := by
  rw [RvTransfer.decode, decode_rvBtype hcond]

/-- A number of `k` units is kept in a signed field that it fits. -/
theorem mul_bmod_eq {k q : ℤ} {m : ℕ} (hk : 0 < k) (hlo : -(k * m) ≤ k * q)
    (hhi : k * q < k * m) : k * Int.bmod q (2 * m) = k * q := by
  have h1 : -(m : ℤ) ≤ q := by
    rw [← Int.mul_neg] at hlo
    exact Int.le_of_mul_le_mul_left hlo hk
  have h2 : q < m := Int.lt_of_mul_lt_mul_left hhi hk.le
  rw [Int.bmod_eq_of_le (by omega) (by omega)]

/-- An even offset in a signed field. -/
theorem half_bmod_eq {w : ℕ} {z : ℤ} (hdvd : 2 ∣ z) (hlo : -2 ^ (w + 1) ≤ z)
    (hhi : z < 2 ^ (w + 1)) : 2 * Int.bmod (z / 2) (2 ^ (w + 1)) = z := by
  obtain ⟨q, rfl⟩ := hdvd
  rw [pow_succ'] at hlo hhi
  rw [Int.mul_ediv_cancel_left q (by decide), pow_succ']
  exact mul_bmod_eq (by decide) (by exact_mod_cast hlo) (by exact_mod_cast hhi)

namespace RvBranching

theorem toInt_low (offset : BitVec 32) :
    (offset &&& 0xFFF).toInt = offset.toInt % 2 ^ 12 ∧
      ((offset &&& 0xFFF).setWidth 16).toInt = offset.toInt % 2 ^ 12 := by
  have hlow : ((offset &&& 0xFFF).toNat : ℤ) = offset.toInt % 2 ^ 12 :=
    InstrField.toNat_low offset (k := 12) (by decide)
  refine ⟨?_, ?_⟩
  · rw [BitVec.toInt_eq_toNat_of_lt (by omega), hlow]
  · rw [BitVec.toInt_setWidth, hlow]
    exact Int.bmod_eq_of_le (by omega) (by omega)

/-- The parts of a far call and their sum. -/
theorem far_sum {z hi : ℤ} (hlo : -2 ^ 31 ≤ z) (hhi : z < 2 ^ 31)
    (h : hi = if 0x800 ≤ z % 2 ^ 12 then z / 2 ^ 12 + 1 else z / 2 ^ 12) :
    2 ^ 12 * Int.bmod hi (2 ^ 20) + Int.bmod (z % 2 ^ 12) (2 ^ 12) =
      if z < 2 ^ 31 - 2 ^ 11 then z else z - 2 ^ 32 := by
  have h20 : ((2 ^ 20 : ℕ) : ℤ) = 1048576 := rfl
  have h12 : ((2 ^ 12 : ℕ) : ℤ) = 4096 := rfl
  rw [Int.bmod_def, Int.bmod_def, h20, h12]
  split_ifs at h ⊢ <;> omega

theorem decode_far {offset : BitVec 32} (hfar : ¬ Near offset) :
    RvTransfer.decode (rvEmitCall offset) = some (.far rvRa rvT1
      (if offset.toInt < 2 ^ 31 - 2 ^ 11 then offset.toInt else offset.toInt - 2 ^ 32)) := by
  have hlow := BitVec.le_toInt offset
  have hhigh := BitVec.toInt_lt (x := offset)
  have hshift : (offset.sshiftRight 12).toInt = offset.toInt / 2 ^ 12 := by
    rw [BitVec.toInt_sshiftRight]
    exact Int.shiftRight_eq_div_pow _ _
  have hhi : (if 0x800 ≤ (offset &&& 0xFFF).toInt then offset.sshiftRight 12 + 1
      else offset.sshiftRight 12).toInt =
      if 0x800 ≤ offset.toInt % 2 ^ 12 then offset.toInt / 2 ^ 12 + 1
      else offset.toInt / 2 ^ 12 := by
    rw [(toInt_low offset).1]
    split_ifs
    · rw [BitVec.toInt_add, hshift, show (1 : BitVec 32).toInt = 1 by decide]
      exact Int.bmod_eq_of_le (by omega) (by omega)
    · exact hshift
  have hemit : rvEmitCall offset =
      [rvAuipc rvT1 (if 0x800 ≤ (offset &&& 0xFFF).toInt then offset.sshiftRight 12 + 1
        else offset.sshiftRight 12), rvJalr rvRa rvT1 ((offset &&& 0xFFF).setWidth 16)] :=
    if_neg hfar
  rw [hemit]
  simp only [RvTransfer.decode, decode_rvAuipc, decode_rvJalr, if_true, hhi,
    (toInt_low offset).2]
  rw [far_sum hlow hhigh rfl]

/-- What the words of a call transfer to. -/
theorem decode_words (e : RvBranching) :
    RvTransfer.decode e.words = some (e.transfer e.stored) := by
  cases e with
  | beq rs1 rs2 offset => exact decode_rvBranch (by decide) rs1 rs2 offset
  | bne rs1 rs2 offset => exact decode_rvBranch (by decide) rs1 rs2 offset
  | blt rs1 rs2 offset => exact decode_rvBranch (by decide) rs1 rs2 offset
  | bge rs1 rs2 offset => exact decode_rvBranch (by decide) rs1 rs2 offset
  | bltu rs1 rs2 offset => exact decode_rvBranch (by decide) rs1 rs2 offset
  | bgeu rs1 rs2 offset => exact decode_rvBranch (by decide) rs1 rs2 offset
  | jal rd offset | j offset => simp only [words, rvJ, RvTransfer.decode, decode_rvJal]; rfl
  | jalr rd rs1 offset | jr rs | ret =>
    simp only [words, rvJr, rvRet, RvTransfer.decode, decode_rvJalr]
    rfl
  | call offset =>
    by_cases hnear : Near offset
    · have hemit : rvEmitCall offset = [rvJal rvRa offset] := if_pos hnear
      simp only [words, hemit, RvTransfer.decode, decode_rvJal, transfer, stored, if_pos hnear]
      obtain ⟨hlo, hhi⟩ := hnear
      rw [Int.bmod_eq_of_le (by omega) (by omega)]
    · simp only [words, transfer, stored, if_neg hnear, decode_far hnear]

/-- The offset is kept if it is aligned and in range. -/
theorem stored_eq {e : RvBranching} (h : e.Aligned) (hrange : e.InRange) : e.stored = e.offset := by
  cases e with
  | beq rs1 rs2 offset | bne rs1 rs2 offset | blt rs1 rs2 offset | bge rs1 rs2 offset
  | bltu rs1 rs2 offset | bgeu rs1 rs2 offset => exact half_bmod_eq h hrange.1 hrange.2
  | jal rd offset | j offset => exact half_bmod_eq h hrange.1 hrange.2
  | jalr rd rs1 offset =>
    obtain ⟨hlo, hhi⟩ := hrange
    exact Int.bmod_eq_of_le (by omega) (by omega)
  | jr rs | ret => rfl
  | call offset =>
    have hlt : offset.toInt < 2 ^ 31 - 2 ^ 11 := hrange
    simp only [Aligned, stored, RvBranching.offset] at h ⊢
    split_ifs <;> omega

theorem meets_iff_inRange (e : RvBranching) : e.Meets ↔ e.InRange := by
  constructor
  · intro h
    by_contra hout
    have hnone := h.2 hout
    rw [decode_words] at hnone
    cases hnone
  · refine fun hin => ⟨fun h hrange => ?_, fun hout => absurd hin hout⟩
    rw [decode_words, stored_eq h hrange]

end RvBranching

/-! ## ARM64 -/

/-- A call of an encoder. -/
inductive ArmBranching where
  | b (offset : BitVec 32)
  | bl (offset : BitVec 32)
  | bcond (cond : ArmCond) (offset : BitVec 32)
  | br (rn : ArmReg)
  | blr (rn : ArmReg)
  | ret
  | cbz (rt : ArmReg) (offset : BitVec 32)
  | cbnz (rt : ArmReg) (offset : BitVec 32)
  | tbz (rt : ArmReg) (bit : BitVec 8) (offset : BitVec 32)
  | tbnz (rt : ArmReg) (bit : BitVec 8) (offset : BitVec 32)

namespace ArmBranching

/-- The word of the call. -/
def word : ArmBranching → BitVec 32
  | b offset => arm64B offset
  | bl offset => arm64Bl offset
  | bcond cond offset => arm64Bcond cond offset
  | br rn => arm64Br rn
  | blr rn => arm64Blr rn
  | ret => arm64Ret
  | cbz rt offset => arm64Cbz rt offset
  | cbnz rt offset => arm64Cbnz rt offset
  | tbz rt bit offset => arm64Tbz rt bit offset
  | tbnz rt bit offset => arm64Tbnz rt bit offset

/-- The offset that is asked for. -/
def offset : ArmBranching → ℤ
  | b offset | bl offset | bcond _ offset | cbz _ offset | cbnz _ offset | tbz _ _ offset
  | tbnz _ _ offset => offset.toInt
  | br _ | blr _ | ret => 0

/-- The given registers, with an offset. The number of a bit is below 64. -/
def transfer (z : ℤ) : ArmBranching → ArmInstr
  | b _ => .b z
  | bl _ => .bl z
  | bcond cond _ => .bcond cond z
  | br rn => .br rn
  | blr rn => .blr rn
  | ret => .br arm64Lr
  | cbz rt _ => .cbz rt z
  | cbnz rt _ => .cbnz rt z
  | tbz rt bit _ => .tbz rt (bit.setWidth 6) z
  | tbnz rt bit _ => .tbnz rt (bit.setWidth 6) z

/-- The offset that is left of the one that is asked for. -/
def stored : ArmBranching → ℤ
  | b offset | bl offset => 4 * Int.bmod (offset.toInt.tdiv 4) (2 ^ 26)
  | bcond _ offset | cbz _ offset | cbnz _ offset => 4 * Int.bmod (offset.toInt.tdiv 4) (2 ^ 19)
  | tbz _ _ offset | tbnz _ _ offset => 4 * Int.bmod (offset.toInt.tdiv 4) (2 ^ 14)
  | br _ | blr _ | ret => 0

/-- The offset is aligned. -/
def Aligned (e : ArmBranching) : Prop :=
  4 ∣ e.offset

/-- The instruction reaches the offset. -/
def InRange : ArmBranching → Prop
  | b offset | bl offset => -2 ^ 27 ≤ offset.toInt ∧ offset.toInt < 2 ^ 27
  | bcond _ offset | cbz _ offset | cbnz _ offset =>
    -2 ^ 20 ≤ offset.toInt ∧ offset.toInt < 2 ^ 20
  | tbz _ _ offset | tbnz _ _ offset => -2 ^ 15 ≤ offset.toInt ∧ offset.toInt < 2 ^ 15
  | br _ | blr _ | ret => True

/-- The word has the registers and the offset, or is no transfer if the offset is out of range. -/
def Meets (e : ArmBranching) : Prop :=
  (e.Aligned → e.InRange → ArmInstr.decode e.word = some (e.transfer e.offset)) ∧
    (¬e.InRange → ArmInstr.decode e.word = none)

/-- What the word of a call transfers to. -/
theorem decode_word (e : ArmBranching) : ArmInstr.decode e.word = some (e.transfer e.stored) := by
  cases e with
  | b offset => exact decode_arm64B offset
  | bl offset => exact decode_arm64Bl offset
  | bcond cond offset => exact decode_arm64Bcond cond offset
  | br rn => exact decode_arm64Br rn
  | blr rn => exact decode_arm64Blr rn
  | ret => exact decode_arm64Br arm64Lr
  | cbz rt offset => exact decode_arm64Cbz rt offset
  | cbnz rt offset => exact decode_arm64Cbnz rt offset
  | tbz rt bit offset => exact decode_arm64Tbz rt bit offset
  | tbnz rt bit offset => exact decode_arm64Tbnz rt bit offset

/-- An aligned offset in a signed field. -/
theorem quarter_bmod_eq {w : ℕ} {z : ℤ} (hdvd : 4 ∣ z) (hlo : -2 ^ (w + 2) ≤ z)
    (hhi : z < 2 ^ (w + 2)) : 4 * Int.bmod (z.tdiv 4) (2 ^ (w + 1)) = z := by
  obtain ⟨q, rfl⟩ := hdvd
  rw [pow_add, Int.mul_comm (2 ^ w)] at hlo hhi
  rw [Int.mul_tdiv_cancel_left q (by decide), pow_succ']
  exact mul_bmod_eq (by decide) (by exact_mod_cast hlo) (by exact_mod_cast hhi)

/-- The offset is kept if it is aligned and in range. -/
theorem stored_eq {e : ArmBranching} (h : e.Aligned) (hrange : e.InRange) :
    e.stored = e.offset := by
  cases e with
  | b offset | bl offset => exact quarter_bmod_eq h hrange.1 hrange.2
  | bcond cond offset => exact quarter_bmod_eq h hrange.1 hrange.2
  | cbz rt offset | cbnz rt offset => exact quarter_bmod_eq h hrange.1 hrange.2
  | tbz rt bit offset | tbnz rt bit offset => exact quarter_bmod_eq h hrange.1 hrange.2
  | br rn | blr rn | ret => rfl

theorem meets_iff_inRange (e : ArmBranching) : e.Meets ↔ e.InRange := by
  constructor
  · intro h
    by_contra hout
    have hnone := h.2 hout
    rw [decode_word] at hnone
    cases hnone
  · refine fun hin => ⟨fun h hrange => ?_, fun hout => absurd hin hout⟩
    rw [decode_word, stored_eq h hrange]

end ArmBranching

/-- An encoder is right exactly about the offsets in the range of its instruction. -/
theorem branchings_meet_iff (e : RvBranching) (e' : ArmBranching) :
    (e.Meets ↔ e.InRange) ∧ (e'.Meets ↔ e'.InRange) :=
  ⟨e.meets_iff_inRange, e'.meets_iff_inRange⟩

/-- A branch to 4096 bytes ahead goes 4096 bytes back. -/
theorem not_meets_farBranch : ¬(RvBranching.beq 1 2 0x1000).Meets ∧
    RvTransfer.decode (RvBranching.beq 1 2 0x1000).words = some (.branch .eq 1 2 (-4096)) := by
  have hdecode : RvTransfer.decode (RvBranching.beq 1 2 0x1000).words =
      some (.branch .eq 1 2 (-4096)) := by decide
  refine ⟨fun h => ?_, hdecode⟩
  have hnone := h.2 (show ¬(_ ∧ _) by decide)
  rw [hdecode] at hnone
  cases hnone

end Seraph
