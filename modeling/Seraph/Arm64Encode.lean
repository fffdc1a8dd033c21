import Seraph.InstructionFields

/-!
# ARM64 branches

The encoders of `arm64_encode.c` for branches and calls, and a decoder for these instructions of
A64. The offset is counted in words of four bytes ; a field keeps its low bits, with a sign
(`decode_arm64B`, `decode_arm64Bcond`, `decode_arm64Tbz`). The encoders check nothing.
-/

open InstrField

namespace Seraph

/-- `ARM64_Reg`, by number. -/
abbrev ArmReg := BitVec 5

/-- `ARM64_Cond`, by number. -/
abbrev ArmCond := BitVec 4

/-! ## Encoders -/

/-- `arm64_b`. -/
def arm64B (offset : BitVec 32) : BitVec 32 :=
  let imm26 := offset.sdiv 4
  0x14000000 ||| field 26 0 imm26

/-- `arm64_bl`. -/
def arm64Bl (offset : BitVec 32) : BitVec 32 :=
  let imm26 := offset.sdiv 4
  0x94000000 ||| field 26 0 imm26

/-- `arm64_bcond`. -/
def arm64Bcond (cond : ArmCond) (offset : BitVec 32) : BitVec 32 :=
  let imm19 := offset.sdiv 4
  0x54000000 ||| field 19 5 imm19 ||| field 4 0 (cond.setWidth 32)

/-- `arm64_br`. -/
def arm64Br (rn : ArmReg) : BitVec 32 :=
  0xD61F0000 ||| field 5 5 (rn.setWidth 32)

/-- `arm64_blr`. -/
def arm64Blr (rn : ArmReg) : BitVec 32 :=
  0xD63F0000 ||| field 5 5 (rn.setWidth 32)

/-- `ARM64_LR`. -/
def arm64Lr : ArmReg := 30

/-- `arm64_ret`. -/
def arm64Ret : BitVec 32 :=
  arm64Br arm64Lr

/-- `arm64_cbz`. -/
def arm64Cbz (rt : ArmReg) (offset : BitVec 32) : BitVec 32 :=
  let imm19 := offset.sdiv 4
  0xB4000000 ||| field 19 5 imm19 ||| field 5 0 (rt.setWidth 32)

/-- `arm64_cbnz`. -/
def arm64Cbnz (rt : ArmReg) (offset : BitVec 32) : BitVec 32 :=
  let imm19 := offset.sdiv 4
  0xB5000000 ||| field 19 5 imm19 ||| field 5 0 (rt.setWidth 32)

/-- `arm64_tbz`. -/
def arm64Tbz (rt : ArmReg) (bit : BitVec 8) (offset : BitVec 32) : BitVec 32 :=
  let imm14 := offset.sdiv 4
  let b5 := (bit >>> 5) &&& 1
  let b40 := bit &&& 0x1F
  (b5.setWidth 32 <<< 31) ||| 0x36000000 ||| field 5 19 (b40.setWidth 32) ||| field 14 5 imm14 |||
    field 5 0 (rt.setWidth 32)

/-- `arm64_tbnz`. -/
def arm64Tbnz (rt : ArmReg) (bit : BitVec 8) (offset : BitVec 32) : BitVec 32 :=
  let imm14 := offset.sdiv 4
  let b5 := (bit >>> 5) &&& 1
  let b40 := bit &&& 0x1F
  (b5.setWidth 32 <<< 31) ||| 0x37000000 ||| field 5 19 (b40.setWidth 32) ||| field 14 5 imm14 |||
    field 5 0 (rt.setWidth 32)

/-! ## Instructions -/

/-- Branches with their registers and offsets. -/
inductive ArmInstr where
  | b (offset : ℤ)
  | bl (offset : ℤ)
  | bcond (cond : ArmCond) (offset : ℤ)
  | br (rn : ArmReg)
  | blr (rn : ArmReg)
  | cbz (rt : ArmReg) (offset : ℤ)
  | cbnz (rt : ArmReg) (offset : ℤ)
  | tbz (rt : ArmReg) (bit : BitVec 6) (offset : ℤ)
  | tbnz (rt : ArmReg) (bit : BitVec 6) (offset : ℤ)
deriving DecidableEq, Repr

/-- The group of A64 whose bits 30 to 26 are 00101. -/
def ArmInstr.decodeImmediate (word : BitVec 32) : Option ArmInstr :=
  let imm26 := (extract 26 0 word).toInt
  some (if extract 1 31 word = 0 then b (4 * imm26) else bl (4 * imm26))

/-- The group whose bits 30 to 26 are 10101. -/
def ArmInstr.decodeConditional (word : BitVec 32) : Option ArmInstr :=
  let imm19 := (extract 19 5 word).toInt
  if extract 1 31 word = 0 then
    if extract 2 24 word = 0 ∧ extract 1 4 word = 0 then
      some (bcond (extract 4 0 word) (4 * imm19))
    else none
  else if extract 5 0 word = 0 then
    if extract 16 10 word = 0x87C0 then some (br (extract 5 5 word))
    else if extract 16 10 word = 0x8FC0 then some (blr (extract 5 5 word))
    else none
  else none

/-- The group whose bits 30 to 26 are 01101. -/
def ArmInstr.decodeCompare (word : BitVec 32) : Option ArmInstr :=
  let sf := extract 1 31 word
  let rt := extract 5 0 word
  if extract 1 25 word = 0 then
    let imm19 := (extract 19 5 word).toInt
    -- a comparison of 64 bits
    if sf = 0 then none
    else some (if extract 1 24 word = 0 then cbz rt (4 * imm19) else cbnz rt (4 * imm19))
  else
    let imm14 := (extract 14 5 word).toInt
    let bit := sf ++ extract 5 19 word
    some (if extract 1 24 word = 0 then tbz rt bit (4 * imm14) else tbnz rt bit (4 * imm14))

/-- The branch in a word. -/
def ArmInstr.decode (word : BitVec 32) : Option ArmInstr :=
  let group := extract 5 26 word
  if group = 0x05 then decodeImmediate word
  else if group = 0x15 then decodeConditional word
  else if group = 0x0D then decodeCompare word
  else none

/-! ## Decoding what was encoded -/

attribute [local simp] ArmInstr.decode ArmInstr.decodeImmediate ArmInstr.decodeConditional
  ArmInstr.decodeCompare

section

variable {word : BitVec 32}

theorem decode_of_immediate (h : extract 5 26 word = 0x05) :
    ArmInstr.decode word = ArmInstr.decodeImmediate word := by
  rw [ArmInstr.decode, if_pos h]

theorem decode_of_conditional (h : extract 5 26 word = 0x15) :
    ArmInstr.decode word = ArmInstr.decodeConditional word := by
  rw [ArmInstr.decode, h, if_neg (by decide), if_pos rfl]

theorem decode_of_compare (h : extract 5 26 word = 0x0D) :
    ArmInstr.decode word = ArmInstr.decodeCompare word := by
  rw [ArmInstr.decode, h, if_neg (by decide), if_neg (by decide), if_pos rfl]

end

theorem sdiv_four (offset : BitVec 32) : (offset.sdiv 4).toInt = offset.toInt.tdiv 4 :=
  BitVec.toInt_sdiv_of_ne_or_ne offset 4 (.inr (by decide))

/-- The offset in a field that counts words. -/
theorem toInt_words {w : ℕ} (offset : BitVec 32) (h : w ≤ 32) :
    ((offset.sdiv 4).setWidth w).toInt = Int.bmod (offset.toInt.tdiv 4) (2 ^ w) := by
  rw [BitVec.setWidth_eq_extractLsb' h]
  have hfield := toInt_extract (w := w) (k := 0) (offset.sdiv 4) (by omega)
  rwa [pow_zero, Int.ediv_one, sdiv_four] at hfield

/-- `b` and `bl`. -/
theorem decode_immediate (link : BitVec 32) (offset : BitVec 32) :
    ArmInstr.decode (field 1 31 link ||| field 5 26 0x05 ||| field 26 0 (offset.sdiv 4)) =
      some (if link.setWidth 1 = 0 then .b (4 * Int.bmod (offset.toInt.tdiv 4) (2 ^ 26))
        else .bl (4 * Int.bmod (offset.toInt.tdiv 4) (2 ^ 26))) := by
  rw [decode_of_immediate, ArmInstr.decodeImmediate]
  all_goals simp (disch := decide) only [extract_or, extract_field_same, extract_field_apart,
    BitVec.zero_or, BitVec.or_zero, toInt_words]
  rfl

theorem decode_arm64B (offset : BitVec 32) :
    ArmInstr.decode (arm64B offset) =
      some (.b (4 * Int.bmod (offset.toInt.tdiv 4) (2 ^ 26))) := by
  have hword : arm64B offset =
      field 1 31 0 ||| field 5 26 0x05 ||| field 26 0 (offset.sdiv 4) :=
    congrArg (· ||| field 26 0 (offset.sdiv 4)) (by decide)
  rw [hword, decode_immediate]
  rfl

theorem decode_arm64Bl (offset : BitVec 32) :
    ArmInstr.decode (arm64Bl offset) =
      some (.bl (4 * Int.bmod (offset.toInt.tdiv 4) (2 ^ 26))) := by
  have hword : arm64Bl offset =
      field 1 31 1 ||| field 5 26 0x05 ||| field 26 0 (offset.sdiv 4) :=
    congrArg (· ||| field 26 0 (offset.sdiv 4)) (by decide)
  rw [hword, decode_immediate]
  rfl

theorem decode_arm64Bcond (cond : ArmCond) (offset : BitVec 32) :
    ArmInstr.decode (arm64Bcond cond offset) =
      some (.bcond cond (4 * Int.bmod (offset.toInt.tdiv 4) (2 ^ 19))) := by
  have hword : arm64Bcond cond offset = field 5 26 0x15 ||| field 19 5 (offset.sdiv 4) |||
      field 4 0 (cond.setWidth 32) :=
    congrArg (· ||| field 19 5 (offset.sdiv 4) ||| field 4 0 (cond.setWidth 32)) (by decide)
  have hcond : (cond.setWidth 32).setWidth 4 = cond :=
    (BitVec.setWidth_setWidth_of_le cond (by decide)).trans (BitVec.setWidth_eq cond)
  rw [hword, decode_of_conditional, ArmInstr.decodeConditional]
  all_goals simp (disch := decide) only [extract_or, extract_field_same, extract_field_apart,
    BitVec.zero_or, BitVec.or_zero, toInt_words, hcond]
  · rfl
  · decide

theorem setWidth_armReg (r : ArmReg) : (r.setWidth 32).setWidth 5 = r :=
  (BitVec.setWidth_setWidth_of_le r (by decide)).trans (BitVec.setWidth_eq r)

/-- `br` and `blr`. -/
theorem decode_register (rn : ArmReg) (kind : BitVec 32) :
    ArmInstr.decode (field 1 31 1 ||| field 5 26 0x15 ||| field 16 10 kind |||
        field 5 5 (rn.setWidth 32)) =
      if kind.setWidth 16 = 0x87C0 then some (.br rn)
      else if kind.setWidth 16 = 0x8FC0 then some (.blr rn) else none := by
  rw [decode_of_conditional, ArmInstr.decodeConditional]
  all_goals simp (disch := decide) only [extract_or, extract_field_same, extract_field_apart,
    BitVec.zero_or, BitVec.or_zero, setWidth_armReg]
  · rfl
  · decide

theorem decode_arm64Br (rn : ArmReg) : ArmInstr.decode (arm64Br rn) = some (.br rn) := by
  have hword : arm64Br rn = field 1 31 1 ||| field 5 26 0x15 ||| field 16 10 0x87C0 |||
      field 5 5 (rn.setWidth 32) :=
    congrArg (· ||| field 5 5 (rn.setWidth 32)) (by decide)
  rw [hword, decode_register]
  rfl

theorem decode_arm64Blr (rn : ArmReg) : ArmInstr.decode (arm64Blr rn) = some (.blr rn) := by
  have hword : arm64Blr rn = field 1 31 1 ||| field 5 26 0x15 ||| field 16 10 0x8FC0 |||
      field 5 5 (rn.setWidth 32) :=
    congrArg (· ||| field 5 5 (rn.setWidth 32)) (by decide)
  rw [hword, decode_register]
  rfl

/-- `cbz` and `cbnz`. -/
theorem decode_compare (rt : ArmReg) (nonzero offset : BitVec 32) :
    ArmInstr.decode (field 1 31 1 ||| field 5 26 0x0D ||| field 1 24 nonzero |||
        field 19 5 (offset.sdiv 4) ||| field 5 0 (rt.setWidth 32)) =
      some (if nonzero.setWidth 1 = 0 then .cbz rt (4 * Int.bmod (offset.toInt.tdiv 4) (2 ^ 19))
        else .cbnz rt (4 * Int.bmod (offset.toInt.tdiv 4) (2 ^ 19))) := by
  rw [decode_of_compare, ArmInstr.decodeCompare]
  all_goals simp (disch := decide) only [extract_or, extract_field_same, extract_field_apart,
    BitVec.zero_or, BitVec.or_zero, toInt_words, setWidth_armReg]
  · rfl
  · decide

theorem decode_arm64Cbz (rt : ArmReg) (offset : BitVec 32) :
    ArmInstr.decode (arm64Cbz rt offset) =
      some (.cbz rt (4 * Int.bmod (offset.toInt.tdiv 4) (2 ^ 19))) := by
  have hword : arm64Cbz rt offset = field 1 31 1 ||| field 5 26 0x0D ||| field 1 24 0 |||
      field 19 5 (offset.sdiv 4) ||| field 5 0 (rt.setWidth 32) :=
    congrArg (· ||| field 19 5 (offset.sdiv 4) ||| field 5 0 (rt.setWidth 32)) (by decide)
  rw [hword, decode_compare]
  rfl

theorem decode_arm64Cbnz (rt : ArmReg) (offset : BitVec 32) :
    ArmInstr.decode (arm64Cbnz rt offset) =
      some (.cbnz rt (4 * Int.bmod (offset.toInt.tdiv 4) (2 ^ 19))) := by
  have hword : arm64Cbnz rt offset = field 1 31 1 ||| field 5 26 0x0D ||| field 1 24 1 |||
      field 19 5 (offset.sdiv 4) ||| field 5 0 (rt.setWidth 32) :=
    congrArg (· ||| field 19 5 (offset.sdiv 4) ||| field 5 0 (rt.setWidth 32)) (by decide)
  rw [hword, decode_compare]
  rfl

/-- The two parts of the number of a bit. -/
theorem bit_parts : ∀ bit : BitVec 8,
    (((bit >>> 5) &&& 1).setWidth 32 <<< 31 : BitVec 32) =
        field 1 31 ((bit >>> 5).setWidth 32) ∧
      ((bit >>> 5).setWidth 32).setWidth 1 ++ ((bit &&& 0x1F).setWidth 32).setWidth 5 =
        bit.setWidth 6 := by
  decide

/-- `tbz` and `tbnz`. -/
theorem decode_test (rt : ArmReg) (bit : BitVec 8) (nonzero offset : BitVec 32) :
    ArmInstr.decode ((((bit >>> 5) &&& 1).setWidth 32 <<< 31) |||
        (field 5 26 0x0D ||| field 1 25 1 ||| field 1 24 nonzero) |||
        field 5 19 ((bit &&& 0x1F).setWidth 32) ||| field 14 5 (offset.sdiv 4) |||
        field 5 0 (rt.setWidth 32)) =
      some (if nonzero.setWidth 1 = 0 then
          .tbz rt (bit.setWidth 6) (4 * Int.bmod (offset.toInt.tdiv 4) (2 ^ 14))
        else .tbnz rt (bit.setWidth 6) (4 * Int.bmod (offset.toInt.tdiv 4) (2 ^ 14))) := by
  rw [(bit_parts bit).1, decode_of_compare, ArmInstr.decodeCompare]
  all_goals simp (disch := decide) only [extract_or, extract_field_same, extract_field_apart,
    BitVec.zero_or, BitVec.or_zero, toInt_words, setWidth_armReg, (bit_parts bit).2]
  · rfl
  · decide

theorem decode_arm64Tbz (rt : ArmReg) (bit : BitVec 8) (offset : BitVec 32) :
    ArmInstr.decode (arm64Tbz rt bit offset) =
      some (.tbz rt (bit.setWidth 6) (4 * Int.bmod (offset.toInt.tdiv 4) (2 ^ 14))) := by
  have hop : (0x36000000 : BitVec 32) = field 5 26 0x0D ||| field 1 25 1 ||| field 1 24 0 := by
    decide
  unfold arm64Tbz
  rw [hop, decode_test]
  rfl

theorem decode_arm64Tbnz (rt : ArmReg) (bit : BitVec 8) (offset : BitVec 32) :
    ArmInstr.decode (arm64Tbnz rt bit offset) =
      some (.tbnz rt (bit.setWidth 6) (4 * Int.bmod (offset.toInt.tdiv 4) (2 ^ 14))) := by
  have hop : (0x37000000 : BitVec 32) = field 5 26 0x0D ||| field 1 25 1 ||| field 1 24 1 := by
    decide
  unfold arm64Tbnz
  rw [hop, decode_test]
  rfl

end Seraph
