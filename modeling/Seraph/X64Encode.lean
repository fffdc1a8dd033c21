import Mathlib.Tactic.NormNum
import Seraph.X86Format

/-!
# The x86-64 encoder

`x64_encode.c` : each function of the encoder appends the bytes of one instruction to the code
buffer, and is here the list of these bytes. `X64Request` is a call of one of its register, memory
and immediate forms, with `bytes` what it appends and `meaning` the instruction it is to encode.
-/

namespace Seraph

open X86

/-! ## Bytes -/

/-- `x64_emit_word`. -/
def x64EmitWord (w : BitVec 16) : List UInt8 :=
  [UInt8.ofNat w.toNat, UInt8.ofNat (w.toNat >>> 8)]

/-- `x64_emit_dword`. -/
def x64EmitDword (d : BitVec 32) : List UInt8 :=
  [UInt8.ofNat d.toNat, UInt8.ofNat (d.toNat >>> 8), UInt8.ofNat (d.toNat >>> 16),
    UInt8.ofNat (d.toNat >>> 24)]

/-- `x64_emit_qword`. -/
def x64EmitQword (q : BitVec 64) : List UInt8 :=
  (List.range 8).map fun i => UInt8.ofNat (q.toNat >>> (i * 8))

/-- `(uint8_t)(int8_t) imm`. -/
def x64Imm8 (imm : BitVec 32) : UInt8 :=
  UInt8.ofNat imm.toNat

/-- Whether an immediate or a displacement fits a signed byte. -/
def fitsByte (imm : BitVec 32) : Prop :=
  -128 ≤ imm.toInt ∧ imm.toInt ≤ 127

instance (imm : BitVec 32) : Decidable (fitsByte imm) :=
  inferInstanceAs (Decidable (_ ∧ _))

/-- `x64_rex`. -/
def x64Rex (w r x b : Bool) : UInt8 :=
  0x40 ||| (if w then 0x08 else 0) ||| (if r then 0x04 else 0) ||| (if x then 0x02 else 0) |||
    (if b then 0x01 else 0)

/-- `x64_modrm`. -/
def x64Modrm (mod reg rm : ℕ) : UInt8 :=
  UInt8.ofNat (((mod &&& 3) <<< 6) ||| ((reg &&& 7) <<< 3) ||| (rm &&& 7))

/-- `x64_sib`. -/
def x64Sib (scale index base : ℕ) : UInt8 :=
  UInt8.ofNat (((scale &&& 3) <<< 6) ||| ((index &&& 7) <<< 3) ||| (base &&& 7))

/-- `reg >= X64_R8`. -/
def x64NeedsRex (r : Reg) : Bool :=
  r.code ≥ 8

/-- The REX prefix of an instruction with two registers, where it needs one : `reg` is the register
in the middle of the ModRM byte, `rm` the one at its end. -/
def x64RexPair (size : Size) (reg rm : Reg) : List UInt8 :=
  if size = .qword ∨ x64NeedsRex reg ∨ x64NeedsRex rm then
    [x64Rex (size = .qword) (x64NeedsRex reg) false (x64NeedsRex rm)]
  else []

/-- The REX prefix of an instruction with one register, where it needs one. -/
def x64RexSingle (size : Size) (rm : Reg) : List UInt8 :=
  if size = .qword ∨ x64NeedsRex rm then [x64Rex (size = .qword) false false (x64NeedsRex rm)]
  else []

/-- The ModRM byte, SIB byte and displacement of `[base + disp]`, with `reg` in the middle of the
ModRM byte. -/
def x64Mem (reg : ℕ) (base : Reg) (disp : BitVec 32) : List UInt8 :=
  let baseLow := base.code &&& 7
  let rm := fun mod =>
    if baseLow = 4 then [x64Modrm mod (reg &&& 7) 4, x64Sib 0 4 baseLow]
    else [x64Modrm mod (reg &&& 7) baseLow]
  if disp = 0 ∧ baseLow ≠ 5 then rm 0
  else if fitsByte disp then rm 1 ++ [x64Imm8 disp]
  else rm 2 ++ x64EmitDword disp

/-! ## Moves -/

/-- `x64_mov_reg_imm64`. -/
def x64MovRegImm64 (dst : Reg) (imm : BitVec 64) : List UInt8 :=
  [x64Rex true false false (x64NeedsRex dst), UInt8.ofNat (0xB8 + (dst.code &&& 7))] ++
    x64EmitQword imm

/-- `x64_mov_reg_imm32`. -/
def x64MovRegImm32 (dst : Reg) (imm : BitVec 32) : List UInt8 :=
  [x64Rex true false false (x64NeedsRex dst), 0xC7, x64Modrm 3 0 (dst.code &&& 7)] ++
    x64EmitDword imm

/-- `x64_mov_reg_reg`. -/
def x64MovRegReg (dst src : Reg) (size : Size) : List UInt8 :=
  x64RexPair size src dst ++ [0x89, x64Modrm 3 (src.code &&& 7) (dst.code &&& 7)]

/-- `x64_mov_reg_mem`. -/
def x64MovRegMem (dst base : Reg) (disp : BitVec 32) (size : Size) : List UInt8 :=
  x64RexPair size dst base ++ [0x8B] ++ x64Mem dst.code base disp

/-- `x64_mov_mem_reg`. -/
def x64MovMemReg (base : Reg) (disp : BitVec 32) (src : Reg) (size : Size) : List UInt8 :=
  x64RexPair size src base ++ [0x89] ++ x64Mem src.code base disp

/-- `x64_mov_mem_imm`. -/
def x64MovMemImm (base : Reg) (disp imm : BitVec 32) (size : Size) : List UInt8 :=
  x64RexSingle size base ++ [0xC7] ++ x64Mem 0 base disp ++
    (if size = .byte then [x64Imm8 imm]
    else if size = .word then x64EmitWord (imm.setWidth 16)
    else x64EmitDword imm)

/-! ## Arithmetic -/

/-- `x64_alu_reg_reg`. -/
def x64AluRegReg (opcode : UInt8) (dst src : Reg) (size : Size) : List UInt8 :=
  x64RexPair size src dst ++ [opcode, x64Modrm 3 (src.code &&& 7) (dst.code &&& 7)]

/-- `x64_alu_reg_imm`. -/
def x64AluRegImm (opcodeExt : ℕ) (dst : Reg) (imm : BitVec 32) (size : Size) : List UInt8 :=
  x64RexSingle size dst ++
    (if fitsByte imm ∧ size ≠ .byte then
      [0x83, x64Modrm 3 opcodeExt (dst.code &&& 7), x64Imm8 imm]
    else [0x81, x64Modrm 3 opcodeExt (dst.code &&& 7)] ++ x64EmitDword imm)

/-- `x64_add_reg_mem` and `x64_adc_reg_mem`. -/
def x64AluRegMem (opcode : UInt8) (dst base : Reg) (disp : BitVec 32) (size : Size) :
    List UInt8 :=
  x64RexPair size dst base ++ [opcode] ++ x64Mem dst.code base disp

/-- The instructions of the third group and the shifts : one register, the operation in the middle
of the ModRM byte. -/
def x64Unary (opcode : UInt8) (opcodeExt : ℕ) (rm : Reg) (size : Size) : List UInt8 :=
  x64RexSingle size rm ++ [opcode, x64Modrm 3 opcodeExt (rm.code &&& 7)]

/-- `x64_add_reg_reg`. -/
def x64AddRegReg := x64AluRegReg 0x01

/-- `x64_add_reg_imm`. -/
def x64AddRegImm := x64AluRegImm 0

/-- `x64_sub_reg_reg`. -/
def x64SubRegReg := x64AluRegReg 0x29

/-- `x64_sub_reg_imm`. -/
def x64SubRegImm := x64AluRegImm 5

/-- `x64_imul_reg_reg`. -/
def x64ImulRegReg (dst src : Reg) (size : Size) : List UInt8 :=
  x64RexPair size dst src ++ [0x0F, 0xAF, x64Modrm 3 (dst.code &&& 7) (src.code &&& 7)]

/-- `x64_imul_reg_imm`. -/
def x64ImulRegImm (dst src : Reg) (imm : BitVec 32) (size : Size) : List UInt8 :=
  x64RexPair size dst src ++
    (if fitsByte imm then
      [0x6B, x64Modrm 3 (dst.code &&& 7) (src.code &&& 7), x64Imm8 imm]
    else [0x69, x64Modrm 3 (dst.code &&& 7) (src.code &&& 7)] ++ x64EmitDword imm)

/-- `x64_idiv_reg`. -/
def x64IdivReg := x64Unary 0xF7 7

/-- `x64_mul_reg`. -/
def x64MulReg := x64Unary 0xF7 4

/-- `x64_add_reg_mem`. -/
def x64AddRegMem := x64AluRegMem 0x03

/-- `x64_adc_reg_reg`. -/
def x64AdcRegReg := x64AluRegReg 0x11

/-- `x64_adc_reg_mem`. -/
def x64AdcRegMem := x64AluRegMem 0x13

/-- `x64_adc_reg_imm`. -/
def x64AdcRegImm := x64AluRegImm 2

/-- `x64_movsxd`. -/
def x64Movsxd (dst src : Reg) : List UInt8 :=
  [x64Rex true (x64NeedsRex dst) false (x64NeedsRex src), 0x63,
    x64Modrm 3 (dst.code &&& 7) (src.code &&& 7)]

/-- `x64_cqo`. -/
def x64Cqo : List UInt8 :=
  [x64Rex true false false false, 0x99]

/-- `x64_cdq`. -/
def x64Cdq : List UInt8 :=
  [0x99]

/-- `x64_neg_reg`. -/
def x64NegReg := x64Unary 0xF7 3

/-! ## Bits -/

/-- `x64_and_reg_reg`. -/
def x64AndRegReg := x64AluRegReg 0x21

/-- `x64_and_reg_imm`. -/
def x64AndRegImm := x64AluRegImm 4

/-- `x64_or_reg_reg`. -/
def x64OrRegReg := x64AluRegReg 0x09

/-- `x64_xor_reg_reg`. -/
def x64XorRegReg := x64AluRegReg 0x31

/-- `x64_not_reg`. -/
def x64NotReg := x64Unary 0xF7 2

/-- `x64_shift_reg`, by CL. -/
def x64ShiftReg (opcodeExt : ℕ) (reg : Reg) (size : Size) : List UInt8 :=
  x64Unary 0xD3 opcodeExt reg size

/-- `x64_shift_reg_imm`. -/
def x64ShiftRegImm (opcodeExt : ℕ) (reg : Reg) (imm : UInt8) (size : Size) : List UInt8 :=
  if imm = 1 then x64Unary 0xD1 opcodeExt reg size
  else x64Unary 0xC1 opcodeExt reg size ++ [imm]

/-- `x64_shl_reg_cl`. -/
def x64ShlRegCl := x64ShiftReg 4

/-- `x64_shl_reg_imm`. -/
def x64ShlRegImm := x64ShiftRegImm 4

/-- `x64_shr_reg_cl`. -/
def x64ShrRegCl := x64ShiftReg 5

/-- `x64_shr_reg_imm`. -/
def x64ShrRegImm := x64ShiftRegImm 5

/-- `x64_sar_reg_cl`. -/
def x64SarRegCl := x64ShiftReg 7

/-- `x64_sar_reg_imm`. -/
def x64SarRegImm := x64ShiftRegImm 7

/-! ## Comparisons -/

/-- `x64_cmp_reg_reg`. -/
def x64CmpRegReg := x64AluRegReg 0x39

/-- `x64_cmp_reg_imm`. -/
def x64CmpRegImm := x64AluRegImm 7

/-- `x64_test_reg_reg`. -/
def x64TestRegReg := x64AluRegReg 0x85

/-- The REX prefix of an instruction of no particular size, where the register needs one. -/
def x64RexReg (reg : Reg) : List UInt8 :=
  if x64NeedsRex reg then [x64Rex false false false true] else []

/-- `x64_setcc`. -/
def x64Setcc (cc : Cond) (reg : Reg) : List UInt8 :=
  x64RexReg reg ++ [0x0F, UInt8.ofNat (0x90 + cc.code), x64Modrm 3 0 (reg.code &&& 7)]

/-- `x64_cmovcc`. -/
def x64Cmovcc (cc : Cond) (dst src : Reg) (size : Size) : List UInt8 :=
  x64RexPair size dst src ++
    [0x0F, UInt8.ofNat (0x40 + cc.code), x64Modrm 3 (dst.code &&& 7) (src.code &&& 7)]

/-! ## Control flow and the stack -/

/-- `x64_jmp_reg`. -/
def x64JmpReg (reg : Reg) : List UInt8 :=
  x64RexReg reg ++ [0xFF, x64Modrm 3 4 (reg.code &&& 7)]

/-- `x64_call_reg`. -/
def x64CallReg (reg : Reg) : List UInt8 :=
  x64RexReg reg ++ [0xFF, x64Modrm 3 2 (reg.code &&& 7)]

/-- `x64_ret`. -/
def x64Ret : List UInt8 :=
  [0xC3]

/-- `x64_ret_imm`. -/
def x64RetImm (popBytes : BitVec 16) : List UInt8 :=
  [0xC2] ++ x64EmitWord popBytes

/-- `x64_push_reg`. -/
def x64PushReg (reg : Reg) : List UInt8 :=
  x64RexReg reg ++ [UInt8.ofNat (0x50 + (reg.code &&& 7))]

/-- `x64_push_imm`. -/
def x64PushImm (imm : BitVec 32) : List UInt8 :=
  if fitsByte imm then [0x6A, x64Imm8 imm] else [0x68] ++ x64EmitDword imm

/-- `x64_pop_reg`. -/
def x64PopReg (reg : Reg) : List UInt8 :=
  x64RexReg reg ++ [UInt8.ofNat (0x58 + (reg.code &&& 7))]

/-- `x64_enter`. -/
def x64Enter (frameSize : BitVec 16) (nestingLevel : UInt8) : List UInt8 :=
  [0xC8] ++ x64EmitWord frameSize ++ [nestingLevel]

/-- `x64_leave`. -/
def x64Leave : List UInt8 :=
  [0xC9]

/-! ## Other instructions -/

/-- `x64_nop`. -/
def x64Nop : List UInt8 :=
  [0x90]

/-- `x64_lea`. -/
def x64Lea (dst base : Reg) (disp : BitVec 32) : List UInt8 :=
  [x64Rex true (x64NeedsRex dst) false (x64NeedsRex base), 0x8D] ++ x64Mem dst.code base disp

/-- The encoding of a scale. -/
def x64ScaleEnc (scale : ℕ) : ℕ :=
  if scale = 2 then 1 else if scale = 4 then 2 else if scale = 8 then 3 else 0

/-- `x64_lea_sib`. -/
def x64LeaSib (dst base index : Reg) (scale : ℕ) (disp : BitVec 32) : List UInt8 :=
  let baseLow := base.code &&& 7
  let sib := x64Sib (x64ScaleEnc scale) (index.code &&& 7) baseLow
  [x64Rex true (x64NeedsRex dst) (x64NeedsRex index) (x64NeedsRex base), 0x8D] ++
    (if disp = 0 ∧ baseLow ≠ 5 then [x64Modrm 0 (dst.code &&& 7) 4, sib]
    else if fitsByte disp then [x64Modrm 1 (dst.code &&& 7) 4, sib, x64Imm8 disp]
    else [x64Modrm 2 (dst.code &&& 7) 4, sib] ++ x64EmitDword disp)

/-- `x64_movzx`. -/
def x64Movzx (dst src : Reg) (dstSize srcSize : Size) : List UInt8 :=
  x64RexPair dstSize dst src ++
    [0x0F, if srcSize = .byte then 0xB6 else 0xB7, x64Modrm 3 (dst.code &&& 7) (src.code &&& 7)]

/-- `x64_movsx`. -/
def x64Movsx (dst src : Reg) (dstSize srcSize : Size) : List UInt8 :=
  x64RexPair dstSize dst src ++
    (if srcSize = .dword ∧ dstSize = .qword then [0x63]
    else [0x0F, if srcSize = .byte then 0xBE else 0xBF]) ++
    [x64Modrm 3 (dst.code &&& 7) (src.code &&& 7)]

/-- `x64_int3`. -/
def x64Int3 : List UInt8 :=
  [0xCC]

/-- `x64_syscall`. -/
def x64Syscall : List UInt8 :=
  [0x0F, 0x05]

/-- `x64_hlt`. -/
def x64Hlt : List UInt8 :=
  [0xF4]

/-- `x64_cli`. -/
def x64Cli : List UInt8 :=
  [0xFA]

/-- `x64_sti`. -/
def x64Sti : List UInt8 :=
  [0xFB]

/-- `x64_ud2`. -/
def x64Ud2 : List UInt8 :=
  [0x0F, 0x0B]

/-! ## Requests -/

/-- A call of a register, memory or immediate form of the encoder. -/
inductive X64Request where
  | movRegImm64 (dst : Reg) (imm : BitVec 64)
  | movRegImm32 (dst : Reg) (imm : BitVec 32)
  | movRegReg (dst src : Reg) (size : Size)
  | movRegMem (dst base : Reg) (disp : BitVec 32) (size : Size)
  | movMemReg (base : Reg) (disp : BitVec 32) (src : Reg) (size : Size)
  | movMemImm (base : Reg) (disp imm : BitVec 32) (size : Size)
  | addRegReg (dst src : Reg) (size : Size)
  | addRegImm (dst : Reg) (imm : BitVec 32) (size : Size)
  | subRegReg (dst src : Reg) (size : Size)
  | subRegImm (dst : Reg) (imm : BitVec 32) (size : Size)
  | imulRegReg (dst src : Reg) (size : Size)
  | imulRegImm (dst src : Reg) (imm : BitVec 32) (size : Size)
  | idivReg (divisor : Reg) (size : Size)
  | mulReg (src : Reg) (size : Size)
  | addRegMem (dst base : Reg) (disp : BitVec 32) (size : Size)
  | adcRegReg (dst src : Reg) (size : Size)
  | adcRegMem (dst base : Reg) (disp : BitVec 32) (size : Size)
  | adcRegImm (dst : Reg) (imm : BitVec 32) (size : Size)
  | movsxd (dst src : Reg)
  | negReg (reg : Reg) (size : Size)
  | andRegReg (dst src : Reg) (size : Size)
  | andRegImm (dst : Reg) (imm : BitVec 32) (size : Size)
  | orRegReg (dst src : Reg) (size : Size)
  | xorRegReg (dst src : Reg) (size : Size)
  | notReg (reg : Reg) (size : Size)
  | shlRegCl (reg : Reg) (size : Size)
  | shlRegImm (reg : Reg) (imm : UInt8) (size : Size)
  | shrRegCl (reg : Reg) (size : Size)
  | shrRegImm (reg : Reg) (imm : UInt8) (size : Size)
  | sarRegCl (reg : Reg) (size : Size)
  | sarRegImm (reg : Reg) (imm : UInt8) (size : Size)
  | cmpRegReg (dst src : Reg) (size : Size)
  | cmpRegImm (reg : Reg) (imm : BitVec 32) (size : Size)
  | testRegReg (dst src : Reg) (size : Size)
  | setcc (cc : Cond) (reg : Reg)
  | cmovcc (cc : Cond) (dst src : Reg) (size : Size)
  | jmpReg (reg : Reg)
  | callReg (reg : Reg)
  | retImm (popBytes : BitVec 16)
  | pushReg (reg : Reg)
  | pushImm (imm : BitVec 32)
  | popReg (reg : Reg)
  | enter (frameSize : BitVec 16) (nestingLevel : UInt8)
  | lea (dst base : Reg) (disp : BitVec 32)
  | leaSib (dst base index : Reg) (scale : ℕ) (disp : BitVec 32)
  | movzx (dst src : Reg) (dstSize srcSize : Size)
  | movsx (dst src : Reg) (dstSize srcSize : Size)

namespace X64Request

/-- The bytes the encoder appends. -/
def bytes : X64Request → List UInt8
  | movRegImm64 dst imm => x64MovRegImm64 dst imm
  | movRegImm32 dst imm => x64MovRegImm32 dst imm
  | movRegReg dst src size => x64MovRegReg dst src size
  | movRegMem dst base disp size => x64MovRegMem dst base disp size
  | movMemReg base disp src size => x64MovMemReg base disp src size
  | movMemImm base disp imm size => x64MovMemImm base disp imm size
  | addRegReg dst src size => x64AddRegReg dst src size
  | addRegImm dst imm size => x64AddRegImm dst imm size
  | subRegReg dst src size => x64SubRegReg dst src size
  | subRegImm dst imm size => x64SubRegImm dst imm size
  | imulRegReg dst src size => x64ImulRegReg dst src size
  | imulRegImm dst src imm size => x64ImulRegImm dst src imm size
  | idivReg divisor size => x64IdivReg divisor size
  | mulReg src size => x64MulReg src size
  | addRegMem dst base disp size => x64AddRegMem dst base disp size
  | adcRegReg dst src size => x64AdcRegReg dst src size
  | adcRegMem dst base disp size => x64AdcRegMem dst base disp size
  | adcRegImm dst imm size => x64AdcRegImm dst imm size
  | movsxd dst src => x64Movsxd dst src
  | negReg reg size => x64NegReg reg size
  | andRegReg dst src size => x64AndRegReg dst src size
  | andRegImm dst imm size => x64AndRegImm dst imm size
  | orRegReg dst src size => x64OrRegReg dst src size
  | xorRegReg dst src size => x64XorRegReg dst src size
  | notReg reg size => x64NotReg reg size
  | shlRegCl reg size => x64ShlRegCl reg size
  | shlRegImm reg imm size => x64ShlRegImm reg imm size
  | shrRegCl reg size => x64ShrRegCl reg size
  | shrRegImm reg imm size => x64ShrRegImm reg imm size
  | sarRegCl reg size => x64SarRegCl reg size
  | sarRegImm reg imm size => x64SarRegImm reg imm size
  | cmpRegReg dst src size => x64CmpRegReg dst src size
  | cmpRegImm reg imm size => x64CmpRegImm reg imm size
  | testRegReg dst src size => x64TestRegReg dst src size
  | setcc cc reg => x64Setcc cc reg
  | cmovcc cc dst src size => x64Cmovcc cc dst src size
  | jmpReg reg => x64JmpReg reg
  | callReg reg => x64CallReg reg
  | retImm popBytes => x64RetImm popBytes
  | pushReg reg => x64PushReg reg
  | pushImm imm => x64PushImm imm
  | popReg reg => x64PopReg reg
  | enter frameSize nestingLevel => x64Enter frameSize nestingLevel
  | lea dst base disp => x64Lea dst base disp
  | leaSib dst base index scale disp => x64LeaSib dst base index scale disp
  | movzx dst src dstSize srcSize => x64Movzx dst src dstSize srcSize
  | movsx dst src dstSize srcSize => x64Movsx dst src dstSize srcSize

/-- The operand `[base + disp]`. -/
def mem (base : Reg) (disp : BitVec 32) : Operand :=
  .mem ⟨some base, none, disp.toInt, false⟩

/-- The instruction that a request asks for, with the operands in the order the format has them. -/
def meaning : X64Request → Instr
  | movRegImm64 dst imm => ⟨.mov, .qword, [.reg .qword dst, .imm imm.toInt]⟩
  | movRegImm32 dst imm => ⟨.mov, .qword, [.reg .qword dst, .imm imm.toInt]⟩
  | movRegReg dst src size => ⟨.mov, size, [.reg size dst, .reg size src]⟩
  | movRegMem dst base disp size => ⟨.mov, size, [.reg size dst, mem base disp]⟩
  | movMemReg base disp src size => ⟨.mov, size, [mem base disp, .reg size src]⟩
  | movMemImm base disp imm size => ⟨.mov, size, [mem base disp, .imm imm.toInt]⟩
  | addRegReg dst src size => ⟨.add, size, [.reg size dst, .reg size src]⟩
  | addRegImm dst imm size => ⟨.add, size, [.reg size dst, .imm imm.toInt]⟩
  | subRegReg dst src size => ⟨.sub, size, [.reg size dst, .reg size src]⟩
  | subRegImm dst imm size => ⟨.sub, size, [.reg size dst, .imm imm.toInt]⟩
  | imulRegReg dst src size => ⟨.imul, size, [.reg size dst, .reg size src]⟩
  | imulRegImm dst src imm size => ⟨.imul, size, [.reg size dst, .reg size src, .imm imm.toInt]⟩
  | idivReg divisor size => ⟨.idiv, size, [.reg size divisor]⟩
  | mulReg src size => ⟨.mul, size, [.reg size src]⟩
  | addRegMem dst base disp size => ⟨.add, size, [.reg size dst, mem base disp]⟩
  | adcRegReg dst src size => ⟨.adc, size, [.reg size dst, .reg size src]⟩
  | adcRegMem dst base disp size => ⟨.adc, size, [.reg size dst, mem base disp]⟩
  | adcRegImm dst imm size => ⟨.adc, size, [.reg size dst, .imm imm.toInt]⟩
  | movsxd dst src => ⟨.movsx, .qword, [.reg .qword dst, .reg .dword src]⟩
  | negReg reg size => ⟨.neg, size, [.reg size reg]⟩
  | andRegReg dst src size => ⟨.and, size, [.reg size dst, .reg size src]⟩
  | andRegImm dst imm size => ⟨.and, size, [.reg size dst, .imm imm.toInt]⟩
  | orRegReg dst src size => ⟨.or, size, [.reg size dst, .reg size src]⟩
  | xorRegReg dst src size => ⟨.xor, size, [.reg size dst, .reg size src]⟩
  | notReg reg size => ⟨.not, size, [.reg size reg]⟩
  | shlRegCl reg size => ⟨.shl, size, [.reg size reg, .reg .byte .rcx]⟩
  | shlRegImm reg imm size => ⟨.shl, size, [.reg size reg, .imm imm.toNat]⟩
  | shrRegCl reg size => ⟨.shr, size, [.reg size reg, .reg .byte .rcx]⟩
  | shrRegImm reg imm size => ⟨.shr, size, [.reg size reg, .imm imm.toNat]⟩
  | sarRegCl reg size => ⟨.sar, size, [.reg size reg, .reg .byte .rcx]⟩
  | sarRegImm reg imm size => ⟨.sar, size, [.reg size reg, .imm imm.toNat]⟩
  | cmpRegReg dst src size => ⟨.cmp, size, [.reg size dst, .reg size src]⟩
  | cmpRegImm reg imm size => ⟨.cmp, size, [.reg size reg, .imm imm.toInt]⟩
  | testRegReg dst src size => ⟨.test, size, [.reg size dst, .reg size src]⟩
  | setcc cc reg => ⟨.set cc, .byte, [.reg .byte reg]⟩
  | cmovcc cc dst src size => ⟨.cmov cc, size, [.reg size dst, .reg size src]⟩
  | jmpReg reg => ⟨.jmp, .qword, [.reg .qword reg]⟩
  | callReg reg => ⟨.call, .qword, [.reg .qword reg]⟩
  | retImm popBytes => ⟨.ret, .qword, [.imm popBytes.toNat]⟩
  | pushReg reg => ⟨.push, .qword, [.reg .qword reg]⟩
  | pushImm imm => ⟨.push, .qword, [.imm imm.toInt]⟩
  | popReg reg => ⟨.pop, .qword, [.reg .qword reg]⟩
  | enter frameSize nestingLevel =>
    ⟨.enter, .qword, [.imm frameSize.toNat, .imm nestingLevel.toNat]⟩
  | lea dst base disp => ⟨.lea, .qword, [.reg .qword dst, mem base disp]⟩
  | leaSib dst base index scale disp =>
    ⟨.lea, .qword,
      [.reg .qword dst, .mem ⟨some base, some (index, scale), disp.toInt, false⟩]⟩
  | movzx dst src dstSize srcSize => ⟨.movzx, dstSize, [.reg dstSize dst, .reg srcSize src]⟩
  | movsx dst src dstSize srcSize => ⟨.movsx, dstSize, [.reg dstSize dst, .reg srcSize src]⟩

end X64Request

end Seraph
