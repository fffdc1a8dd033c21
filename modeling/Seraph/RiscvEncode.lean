import Seraph.InstructionFields

/-!
# RISC-V instructions

The encoders of `riscv_encode.c` for the instructions that branch, jump, call and load constants,
and a decoder for these instructions of RV64I. The immediate of a branch or a jump is scattered over
the word ; the decoder puts the parts together and finds the low bits of the offset, with a sign
(`decode_rvBtype`, `decode_rvJal`). The encoders check nothing.
-/

open InstrField

namespace Seraph

/-- `RV_Reg`, by number. -/
abbrev RvReg := BitVec 5

/-! ## Opcodes -/

/-- `RV_OP_IMM`. -/
def rvOpImm : BitVec 32 := 0x13
/-- `RV_OP_AUIPC`. -/
def rvOpAuipc : BitVec 32 := 0x17
/-- `RV_OP_LUI`. -/
def rvOpLui : BitVec 32 := 0x37
/-- `RV_OP_BRANCH`. -/
def rvOpBranch : BitVec 32 := 0x63
/-- `RV_OP_JALR`. -/
def rvOpJalr : BitVec 32 := 0x67
/-- `RV_OP_JAL`. -/
def rvOpJal : BitVec 32 := 0x6F

/-! ## Encoders -/

/-- `rv_itype`. -/
def rvItype (imm : BitVec 16) (rs1 : RvReg) (funct3 : BitVec 32) (rd : RvReg)
    (opcode : BitVec 32) : BitVec 32 :=
  field 12 20 (imm.signExtend 32) ||| field 5 15 (rs1.setWidth 32) ||| field 3 12 funct3 |||
    field 5 7 (rd.setWidth 32) ||| field 7 0 opcode

/-- `rv_btype`. -/
def rvBtype (offset : BitVec 16) (rs2 rs1 : RvReg) (funct3 opcode : BitVec 32) : BitVec 32 :=
  let offset := offset.signExtend 32
  field 1 31 (offset.sshiftRight 12) ||| field 6 25 (offset.sshiftRight 5) |||
    field 5 20 (rs2.setWidth 32) ||| field 5 15 (rs1.setWidth 32) ||| field 3 12 funct3 |||
    field 4 8 (offset.sshiftRight 1) ||| field 1 7 (offset.sshiftRight 11) ||| field 7 0 opcode

/-- `rv_addi`. -/
def rvAddi (rd rs1 : RvReg) (imm : BitVec 16) : BitVec 32 :=
  rvItype imm rs1 0x0 rd rvOpImm

/-- `rv_ori`. -/
def rvOri (rd rs1 : RvReg) (imm : BitVec 16) : BitVec 32 :=
  rvItype imm rs1 0x6 rd rvOpImm

/-- `rv_slli`. -/
def rvSlli (rd rs1 : RvReg) (shamt : BitVec 8) : BitVec 32 :=
  field 6 20 (shamt.setWidth 32) ||| field 5 15 (rs1.setWidth 32) ||| (0x1#32 <<< 12) |||
    field 5 7 (rd.setWidth 32) ||| rvOpImm

/-- `rv_beq`. -/
def rvBeq (rs1 rs2 : RvReg) (offset : BitVec 16) : BitVec 32 :=
  rvBtype offset rs2 rs1 0x0 rvOpBranch

/-- `rv_bne`. -/
def rvBne (rs1 rs2 : RvReg) (offset : BitVec 16) : BitVec 32 :=
  rvBtype offset rs2 rs1 0x1 rvOpBranch

/-- `rv_blt`. -/
def rvBlt (rs1 rs2 : RvReg) (offset : BitVec 16) : BitVec 32 :=
  rvBtype offset rs2 rs1 0x4 rvOpBranch

/-- `rv_bge`. -/
def rvBge (rs1 rs2 : RvReg) (offset : BitVec 16) : BitVec 32 :=
  rvBtype offset rs2 rs1 0x5 rvOpBranch

/-- `rv_bltu`. -/
def rvBltu (rs1 rs2 : RvReg) (offset : BitVec 16) : BitVec 32 :=
  rvBtype offset rs2 rs1 0x6 rvOpBranch

/-- `rv_bgeu`. -/
def rvBgeu (rs1 rs2 : RvReg) (offset : BitVec 16) : BitVec 32 :=
  rvBtype offset rs2 rs1 0x7 rvOpBranch

/-- `rv_jal`. -/
def rvJal (rd : RvReg) (offset : BitVec 32) : BitVec 32 :=
  field 1 31 (offset.sshiftRight 20) ||| field 10 21 (offset.sshiftRight 1) |||
    field 1 20 (offset.sshiftRight 11) ||| field 8 12 (offset.sshiftRight 12) |||
    field 5 7 (rd.setWidth 32) ||| rvOpJal

/-- `rv_jalr`. -/
def rvJalr (rd rs1 : RvReg) (offset : BitVec 16) : BitVec 32 :=
  rvItype offset rs1 0x0 rd rvOpJalr

/-- `rv_lui`. -/
def rvLui (rd : RvReg) (imm : BitVec 32) : BitVec 32 :=
  field 20 12 imm ||| field 5 7 (rd.setWidth 32) ||| rvOpLui

/-- `rv_auipc`. -/
def rvAuipc (rd : RvReg) (imm : BitVec 32) : BitVec 32 :=
  field 20 12 imm ||| field 5 7 (rd.setWidth 32) ||| rvOpAuipc

/-! ## Instructions -/

/-- The conditions of the branches. -/
inductive RvCond where
  | eq | ne | lt | ge | ltu | geu
deriving DecidableEq, Repr

/-- The condition in `funct3`. -/
def RvCond.ofFunct3 (funct3 : BitVec 3) : Option RvCond :=
  if funct3 = 0 then some eq else if funct3 = 1 then some ne else if funct3 = 4 then some lt
  else if funct3 = 5 then some ge else if funct3 = 6 then some ltu else if funct3 = 7 then some geu
  else none

/-- Instructions with their registers and immediates. -/
inductive RvInstr where
  | lui (rd : RvReg) (imm : ℤ)
  | auipc (rd : RvReg) (imm : ℤ)
  | addi (rd rs1 : RvReg) (imm : ℤ)
  | ori (rd rs1 : RvReg) (imm : ℤ)
  | slli (rd rs1 : RvReg) (shamt : ℕ)
  | branch (cond : RvCond) (rs1 rs2 : RvReg) (offset : ℤ)
  | jal (rd : RvReg) (offset : ℤ)
  | jalr (rd rs1 : RvReg) (offset : ℤ)
deriving DecidableEq, Repr

/-- The offset of a branch. -/
def rvImmB (word : BitVec 32) : ℤ :=
  ((extract 1 31 word ++ extract 1 7 word ++ extract 6 25 word ++ extract 4 8 word) ++ 0#1).toInt

/-- The offset of a jump. -/
def rvImmJ (word : BitVec 32) : ℤ :=
  ((extract 1 31 word ++ extract 8 12 word ++ extract 1 20 word ++ extract 10 21 word) ++ 0#1).toInt

/-- The instruction in a word. -/
def RvInstr.decode (word : BitVec 32) : Option RvInstr :=
  let opcode := extract 7 0 word
  let rd := extract 5 7 word
  let funct3 := extract 3 12 word
  let rs1 := extract 5 15 word
  let rs2 := extract 5 20 word
  let immI := (extract 12 20 word).toInt
  let immU := (extract 20 12 word).toInt
  if opcode = 0x37 then some (lui rd immU)
  else if opcode = 0x17 then some (auipc rd immU)
  else if opcode = 0x6F then some (jal rd (rvImmJ word))
  else if opcode = 0x67 then if funct3 = 0 then some (jalr rd rs1 immI) else none
  else if opcode = 0x63 then
    (RvCond.ofFunct3 funct3).map fun cond => branch cond rs1 rs2 (rvImmB word)
  else if opcode = 0x13 then
    if funct3 = 0 then some (addi rd rs1 immI)
    else if funct3 = 6 then some (ori rd rs1 immI)
    else if funct3 = 1 ∧ extract 6 26 word = 0 then some (slli rd rs1 (extract 6 20 word).toNat)
    else none
  else none

/-! ## Decoding what was encoded -/

theorem setWidth_reg (r : RvReg) : (r.setWidth 32).setWidth 5 = r :=
  BitVec.setWidth_setWidth_of_le r (by decide) |>.trans (BitVec.setWidth_eq r)

/-- The places of a branch. -/
theorem rvBtype_fields (offset : BitVec 16) (rs2 rs1 : RvReg) (funct3 opcode : BitVec 32) :
    let word := rvBtype offset rs2 rs1 funct3 opcode
    extract 7 0 word = opcode.setWidth 7 ∧ extract 3 12 word = funct3.setWidth 3 ∧
      extract 5 15 word = rs1 ∧ extract 5 20 word = rs2 := by
  unfold rvBtype
  refine ⟨?_, ?_, ?_, ?_⟩
  all_goals simp (disch := decide) only [extract_or, extract_field_same, extract_field_apart,
    BitVec.zero_or, BitVec.or_zero, setWidth_reg]

theorem rvImmB_rvBtype (offset : BitVec 16) (rs2 rs1 : RvReg) (funct3 opcode : BitVec 32) :
    rvImmB (rvBtype offset rs2 rs1 funct3 opcode) = 2 * Int.bmod (offset.toInt / 2) (2 ^ 12) := by
  unfold rvImmB rvBtype
  simp (disch := decide) only [extract_or, extract_field_same, extract_field_apart,
    BitVec.zero_or, BitVec.or_zero, setWidth_sshiftRight, extract_signExtend, extract_append]
  rw [BitVec.toInt_append_zero, toInt_extract _ (by decide)]
  rfl

/-- The places of an instruction with an immediate. -/
theorem rvItype_fields (imm : BitVec 16) (rs1 : RvReg) (funct3 : BitVec 32) (rd : RvReg)
    (opcode : BitVec 32) :
    let word := rvItype imm rs1 funct3 rd opcode
    extract 7 0 word = opcode.setWidth 7 ∧ extract 3 12 word = funct3.setWidth 3 ∧
      extract 5 15 word = rs1 ∧ extract 5 7 word = rd ∧ extract 12 20 word = extract 12 0 imm := by
  unfold rvItype
  refine ⟨?_, ?_, ?_, ?_, ?_⟩
  all_goals simp (disch := decide) only [extract_or, extract_field_same, extract_field_apart,
    BitVec.zero_or, BitVec.or_zero, setWidth_reg]
  rw [← extract_signExtend imm (by decide) (by decide : 0 + 12 ≤ 32)]
  exact BitVec.setWidth_eq_extractLsb' (by decide)

/-- The places of a jump. -/
theorem rvJal_fields (rd : RvReg) (offset : BitVec 32) :
    let word := rvJal rd offset
    extract 7 0 word = 0x6F ∧ extract 5 7 word = rd := by
  have hop : rvOpJal = field 7 0 rvOpJal := by decide
  unfold rvJal
  rw [hop]
  refine ⟨?_, ?_⟩
  all_goals simp (disch := decide) only [extract_or, extract_field_same, extract_field_apart,
    BitVec.zero_or, BitVec.or_zero, setWidth_reg]
  decide

theorem rvImmJ_rvJal (rd : RvReg) (offset : BitVec 32) :
    rvImmJ (rvJal rd offset) = 2 * Int.bmod (offset.toInt / 2) (2 ^ 20) := by
  have hop : rvOpJal = field 7 0 rvOpJal := by decide
  unfold rvImmJ rvJal
  rw [hop]
  simp (disch := decide) only [extract_or, extract_field_same, extract_field_apart,
    BitVec.zero_or, BitVec.or_zero, setWidth_sshiftRight, extract_append]
  rw [BitVec.toInt_append_zero, toInt_extract _ (by decide)]
  rfl

/-- The places of an upper immediate. -/
theorem upper_fields (rd : RvReg) (imm opcode : BitVec 32) :
    let word := field 20 12 imm ||| field 5 7 (rd.setWidth 32) ||| field 7 0 opcode
    extract 7 0 word = opcode.setWidth 7 ∧ extract 5 7 word = rd ∧
      extract 20 12 word = extract 20 0 imm := by
  refine ⟨?_, ?_, ?_⟩
  all_goals simp (disch := decide) only [extract_or, extract_field_same, extract_field_apart,
    BitVec.zero_or, BitVec.or_zero, setWidth_reg]
  exact BitVec.setWidth_eq_extractLsb' (by decide)

theorem rvLui_eq (rd : RvReg) (imm : BitVec 32) :
    rvLui rd imm = field 20 12 imm ||| field 5 7 (rd.setWidth 32) ||| field 7 0 rvOpLui :=
  congrArg (field 20 12 imm ||| field 5 7 (rd.setWidth 32) ||| ·) (by decide)

theorem rvAuipc_eq (rd : RvReg) (imm : BitVec 32) :
    rvAuipc rd imm = field 20 12 imm ||| field 5 7 (rd.setWidth 32) ||| field 7 0 rvOpAuipc :=
  congrArg (field 20 12 imm ||| field 5 7 (rd.setWidth 32) ||| ·) (by decide)

/-- The places of a shift. -/
theorem rvSlli_fields (rd rs1 : RvReg) (shamt : BitVec 8) :
    let word := rvSlli rd rs1 shamt
    extract 7 0 word = 0x13 ∧ extract 3 12 word = 1 ∧ extract 5 15 word = rs1 ∧
      extract 5 7 word = rd ∧ extract 6 26 word = 0 ∧ extract 6 20 word = shamt.setWidth 6 := by
  have hop : rvOpImm = field 7 0 rvOpImm := by decide
  have hfunct3 : 0x1#32 <<< 12 = field 3 12 1#32 := by decide
  unfold rvSlli
  rw [hop, hfunct3]
  refine ⟨?_, ?_, ?_, ?_, ?_, ?_⟩
  all_goals simp (disch := decide) only [extract_or, extract_field_same, extract_field_apart,
    BitVec.zero_or, BitVec.or_zero, setWidth_reg]
  · decide
  · decide
  · rfl
  · exact BitVec.setWidth_setWidth_of_le shamt (by decide : 6 ≤ 32)

theorem decode_rvBtype {funct3 : BitVec 32} {cond : RvCond}
    (hcond : RvCond.ofFunct3 (funct3.setWidth 3) = some cond) (offset : BitVec 16)
    (rs2 rs1 : RvReg) :
    RvInstr.decode (rvBtype offset rs2 rs1 funct3 rvOpBranch) =
      some (.branch cond rs1 rs2 (2 * Int.bmod (offset.toInt / 2) (2 ^ 12))) := by
  obtain ⟨hop, hfunct3, hrs1, hrs2⟩ := rvBtype_fields offset rs2 rs1 funct3 rvOpBranch
  have hnum : rvOpBranch.setWidth 7 = 0x63#7 := by decide
  unfold RvInstr.decode
  simp only [hop, hnum, hfunct3, hrs1, hrs2, hcond, rvImmB_rvBtype]
  rfl

theorem decode_rvJal (rd : RvReg) (offset : BitVec 32) :
    RvInstr.decode (rvJal rd offset) =
      some (.jal rd (2 * Int.bmod (offset.toInt / 2) (2 ^ 20))) := by
  obtain ⟨hop, hrd⟩ := rvJal_fields rd offset
  unfold RvInstr.decode
  simp only [hop, hrd, rvImmJ_rvJal]
  rfl

theorem decode_rvJalr (rd rs1 : RvReg) (offset : BitVec 16) :
    RvInstr.decode (rvJalr rd rs1 offset) =
      some (.jalr rd rs1 (Int.bmod offset.toInt (2 ^ 12))) := by
  obtain ⟨hop, hfunct3, hrs1, hrd, himm⟩ := rvItype_fields offset rs1 0x0 rd rvOpJalr
  have hnum : rvOpJalr.setWidth 7 = 0x67#7 := by decide
  unfold RvInstr.decode rvJalr
  simp only [hop, hnum, hfunct3, hrs1, hrd, himm, toInt_extract offset (by decide : 0 + 12 ≤ 16),
    pow_zero, Int.ediv_one]
  rfl

theorem decode_rvAuipc (rd : RvReg) (imm : BitVec 32) :
    RvInstr.decode (rvAuipc rd imm) = some (.auipc rd (Int.bmod imm.toInt (2 ^ 20))) := by
  obtain ⟨hop, hrd, himm⟩ := upper_fields rd imm rvOpAuipc
  have hnum : rvOpAuipc.setWidth 7 = 0x17#7 := by decide
  rw [rvAuipc_eq]
  unfold RvInstr.decode
  simp only [hop, hnum, hrd, himm, toInt_extract imm (by decide : 0 + 20 ≤ 32), pow_zero,
    Int.ediv_one]
  rfl

theorem decode_rvLui (rd : RvReg) (imm : BitVec 32) :
    RvInstr.decode (rvLui rd imm) = some (.lui rd (Int.bmod imm.toInt (2 ^ 20))) := by
  obtain ⟨hop, hrd, himm⟩ := upper_fields rd imm rvOpLui
  have hnum : rvOpLui.setWidth 7 = 0x37#7 := by decide
  rw [rvLui_eq]
  unfold RvInstr.decode
  simp only [hop, hnum, hrd, himm, toInt_extract imm (by decide : 0 + 20 ≤ 32), pow_zero,
    Int.ediv_one]
  rfl

theorem decode_rvAddi (rd rs1 : RvReg) (imm : BitVec 16) :
    RvInstr.decode (rvAddi rd rs1 imm) = some (.addi rd rs1 (Int.bmod imm.toInt (2 ^ 12))) := by
  obtain ⟨hop, hfunct3, hrs1, hrd, himm⟩ := rvItype_fields imm rs1 0x0 rd rvOpImm
  have hnum : rvOpImm.setWidth 7 = 0x13#7 := by decide
  unfold RvInstr.decode rvAddi
  simp only [hop, hnum, hfunct3, hrs1, hrd, himm, toInt_extract imm (by decide : 0 + 12 ≤ 16),
    pow_zero, Int.ediv_one]
  rfl

theorem decode_rvOri (rd rs1 : RvReg) (imm : BitVec 16) :
    RvInstr.decode (rvOri rd rs1 imm) = some (.ori rd rs1 (Int.bmod imm.toInt (2 ^ 12))) := by
  obtain ⟨hop, hfunct3, hrs1, hrd, himm⟩ := rvItype_fields imm rs1 0x6 rd rvOpImm
  have hnum : rvOpImm.setWidth 7 = 0x13#7 := by decide
  unfold RvInstr.decode rvOri
  simp only [hop, hnum, hfunct3, hrs1, hrd, himm, toInt_extract imm (by decide : 0 + 12 ≤ 16),
    pow_zero, Int.ediv_one]
  rfl

theorem decode_rvSlli (rd rs1 : RvReg) (shamt : BitVec 8) :
    RvInstr.decode (rvSlli rd rs1 shamt) = some (.slli rd rs1 (shamt.setWidth 6).toNat) := by
  obtain ⟨hop, hfunct3, hrs1, hrd, hfunct6, hshamt⟩ := rvSlli_fields rd rs1 shamt
  unfold RvInstr.decode
  simp only [hop, hfunct3, hrs1, hrd, hfunct6, hshamt]
  rfl

end Seraph
