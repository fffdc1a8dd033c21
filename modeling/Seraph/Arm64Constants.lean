import Seraph.Arm64Encode
import Seraph.ConstantLoading

/-!
# Loading a constant on ARM64

`arm64_emit_mov64` means to load the low 16 bits of a constant and to insert the others that are not
zero. The move instructions have 100101 in bits 28 to 23 ; the encoders shift a constant of eight
bits to bit 23 that begins with the bits for the size and the kind of the move. The first word then
has the bits of a load of two registers, of a size that is not allocated (`decode_arm64Movz`), and
the processor stops there. `constant_loaded_iff` is about both targets.
-/

open InstrField

namespace Seraph

/-! ## The emitted words -/

/-- `SF_64`. -/
def sf64 : BitVec 32 := 1 <<< 31

/-- `arm64_movz`. -/
def arm64Movz (rd : ArmReg) (imm16 : BitVec 16) (shift : BitVec 8) : BitVec 32 :=
  let hw := shift / 16
  sf64 ||| (0xD2#32 <<< 23) ||| field 2 21 (hw.setWidth 32) ||| field 16 5 (imm16.setWidth 32) |||
    field 5 0 (rd.setWidth 32)

/-- `arm64_movk`. -/
def arm64Movk (rd : ArmReg) (imm16 : BitVec 16) (shift : BitVec 8) : BitVec 32 :=
  let hw := shift / 16
  sf64 ||| (0xF2#32 <<< 23) ||| field 2 21 (hw.setWidth 32) ||| field 16 5 (imm16.setWidth 32) |||
    field 5 0 (rd.setWidth 32)

/-- The words that `arm64_emit_mov64` emits. -/
def arm64EmitMov64 (rd : ArmReg) (imm : BitVec 64) : List (BitVec 32) :=
  let chunk1 := (imm >>> 16).setWidth 16
  let chunk2 := (imm >>> 32).setWidth 16
  let chunk3 := (imm >>> 48).setWidth 16
  [arm64Movz rd (imm.setWidth 16) 0] ++
    (if chunk1 ≠ 0#16 then [arm64Movk rd chunk1 16] else []) ++
    (if chunk2 ≠ 0#16 then [arm64Movk rd chunk2 32] else []) ++
    (if chunk3 ≠ 0#16 then [arm64Movk rd chunk3 48] else [])

/-! ## Execution -/

/-- What a word is : a move of 16 bits into 64, a word that is not allocated, or something else. -/
inductive ArmMove where
  | movn (rd : ArmReg) (imm16 : BitVec 16) (hw : BitVec 2)
  | movz (rd : ArmReg) (imm16 : BitVec 16) (hw : BitVec 2)
  | movk (rd : ArmReg) (imm16 : BitVec 16) (hw : BitVec 2)
  | unallocated
  | other
deriving DecidableEq, Repr

/-- The moves are the words with 100101 in bits 28 to 23. Words with 101 in bits 29 to 27 and 00 in
bits 26 and 25 load and store two registers ; the size in bits 31 and 30 is not 11. -/
def ArmMove.decode (word : BitVec 32) : ArmMove :=
  let rd := extract 5 0 word
  let imm16 := extract 16 5 word
  let hw := extract 2 21 word
  if extract 6 23 word = 0x25 ∧ extract 1 31 word = 1 then
    if extract 2 29 word = 0 then movn rd imm16 hw
    else if extract 2 29 word = 2 then movz rd imm16 hw
    else if extract 2 29 word = 3 then movk rd imm16 hw
    else unallocated
  else if extract 3 27 word = 5 ∧ extract 2 25 word = 0 ∧ extract 2 30 word = 3 then unallocated
  else other

/-- The general registers. Number 31 is always 0 for a move. -/
abbrev ArmRegs := ArmReg → BitVec 64

/-- The number in a register. -/
def ArmRegs.read (regs : ArmRegs) (r : ArmReg) : BitVec 64 :=
  if r = 31 then 0 else regs r

/-- A register is set. -/
def ArmRegs.write (regs : ArmRegs) (r : ArmReg) (x : BitVec 64) : ArmRegs :=
  if r = 31 then regs else Function.update regs r x

/-- The registers after a move. A word that is not allocated raises an exception. -/
def ArmMove.exec (regs : ArmRegs) : ArmMove → Option ArmRegs
  | movn rd imm16 hw => some (regs.write rd (~~~(imm16.setWidth 64 <<< (16 * hw.toNat))))
  | movz rd imm16 hw => some (regs.write rd (imm16.setWidth 64 <<< (16 * hw.toNat)))
  | movk rd imm16 hw =>
    some (regs.write rd ((regs.read rd &&& ~~~(0xFFFF#64 <<< (16 * hw.toNat))) |||
      imm16.setWidth 64 <<< (16 * hw.toNat)))
  | unallocated | other => none

/-- Words are executed one after the other. -/
def armRun (words : List (BitVec 32)) (regs : ArmRegs) : Option ArmRegs :=
  words.foldlM (fun regs word => (ArmMove.decode word).exec regs) regs

/-- The emitted words leave the constant in the register and change no other. -/
def ArmLoaded (rd : ArmReg) (imm : BitVec 64) : Prop :=
  ∀ regs : ArmRegs, ∃ regs' : ArmRegs, armRun (arm64EmitMov64 rd imm) regs = some regs' ∧
    regs'.read rd = imm ∧ ∀ r, r ≠ rd → regs'.read r = regs.read r

/-- The first word is not allocated. -/
theorem decode_arm64Movz (rd : ArmReg) (imm16 : BitVec 16) (shift : BitVec 8) :
    ArmMove.decode (arm64Movz rd imm16 shift) = .unallocated := by
  have hmove : extract 6 23 (arm64Movz rd imm16 shift) = 0x12 := by
    have hword : sf64 ||| (0xD2#32 <<< 23) = field 2 30 3 ||| field 1 29 1 ||| field 6 23 0x12 := by
      decide
    rw [arm64Movz, hword]
    simp (disch := decide) only [extract_or, extract_field_same, extract_field_apart,
      BitVec.zero_or, BitVec.or_zero]
    decide
  have hpair : extract 3 27 (arm64Movz rd imm16 shift) = 5 ∧
      extract 2 25 (arm64Movz rd imm16 shift) = 0 ∧
      extract 2 30 (arm64Movz rd imm16 shift) = 3 := by
    have hword : sf64 ||| (0xD2#32 <<< 23) = field 2 30 3 ||| field 3 27 5 ||| field 2 23 2 := by
      decide
    rw [arm64Movz, hword]
    refine ⟨?_, ?_, ?_⟩
    all_goals simp (disch := decide) only [extract_or, extract_field_same, extract_field_apart,
      BitVec.zero_or, BitVec.or_zero]
    all_goals decide
  rw [ArmMove.decode, if_neg fun h => absurd (hmove.symm.trans h.1) (by decide), if_pos hpair]

theorem not_armLoaded (rd : ArmReg) (imm : BitVec 64) : ¬ ArmLoaded rd imm := by
  intro h
  obtain ⟨regs', hrun, -⟩ := h fun _ => 0
  rw [armRun, arm64EmitMov64, List.append_assoc, List.append_assoc, List.singleton_append,
    List.foldlM_cons, decode_arm64Movz] at hrun
  exact absurd hrun nofun

/-! ## Both targets -/

/-- A call of `rv_emit_li` or of `arm64_emit_mov64`. -/
inductive ConstantLoad where
  | riscv (rd : RvReg) (imm : BitVec 64)
  | arm64 (rd : ArmReg) (imm : BitVec 64)

namespace ConstantLoad

/-- The emitted words leave the constant in the register and change no other. -/
def Loaded : ConstantLoad → Prop
  | riscv rd imm => RvLoaded rd imm
  | arm64 rd imm => ArmLoaded rd imm

/-- The constant is one that the words can load. -/
def Fits : ConstantLoad → Prop
  | riscv rd imm => if rd = 0 then imm = 0 else RvFits imm.toInt
  | arm64 _ _ => False

theorem constant_loaded_iff (load : ConstantLoad) : load.Loaded ↔ load.Fits := by
  cases load with
  | riscv rd imm => exact rvLoaded_iff rd imm
  | arm64 rd imm => exact iff_false_intro (not_armLoaded rd imm)

/-- A register is left with 0x800 instead of 0x1800. -/
theorem not_loaded_riscv : ¬ (riscv 5 0x1800).Loaded := by
  rw [Loaded, rvLoaded_iff, RvFits]
  decide

end ConstantLoad

end Seraph
