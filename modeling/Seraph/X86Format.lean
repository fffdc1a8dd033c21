import Mathlib.Algebra.Group.Nat.Defs
import Mathlib.Data.Int.Notation
import Mathlib.Data.Nat.Notation

/-!
# The x86-64 instruction format

A decoder for the general-purpose instructions of x86-64 : legacy operand-size prefix, REX prefix,
opcode, ModRM byte, SIB byte, displacement and immediate. `decode` gives the instruction at the
start of a list of bytes, with the size and the operands the format gives them, and the bytes
behind it. A byte register numbered 4 to 7 is the high byte of one of the first four registers
unless there is a REX prefix.
-/

namespace X86

/-- The general-purpose registers. -/
inductive Reg where
  | rax | rcx | rdx | rbx | rsp | rbp | rsi | rdi
  | r8 | r9 | r10 | r11 | r12 | r13 | r14 | r15
deriving DecidableEq, Repr

namespace Reg

/-- The number of a register. -/
def code : Reg → ℕ
  | rax => 0
  | rcx => 1
  | rdx => 2
  | rbx => 3
  | rsp => 4
  | rbp => 5
  | rsi => 6
  | rdi => 7
  | r8 => 8
  | r9 => 9
  | r10 => 10
  | r11 => 11
  | r12 => 12
  | r13 => 13
  | r14 => 14
  | r15 => 15

/-- The register with a number. -/
def ofCode : ℕ → Reg
  | 0 => rax
  | 1 => rcx
  | 2 => rdx
  | 3 => rbx
  | 4 => rsp
  | 5 => rbp
  | 6 => rsi
  | 7 => rdi
  | 8 => r8
  | 9 => r9
  | 10 => r10
  | 11 => r11
  | 12 => r12
  | 13 => r13
  | 14 => r14
  | _ => r15

@[simp] theorem ofCode_code (r : Reg) : ofCode r.code = r := by
  cases r <;> rfl

theorem code_inj {r s : Reg} : r.code = s.code ↔ r = s := by
  refine ⟨fun h => ?_, fun h => h ▸ rfl⟩
  rw [← ofCode_code r, h, ofCode_code]

end Reg

/-- The condition codes. -/
inductive Cond where
  | o | no | b | ae | e | ne | be | a | s | ns | p | np | l | ge | le | g
deriving DecidableEq, Repr

namespace Cond

/-- The number of a condition. -/
def code : Cond → ℕ
  | o => 0
  | no => 1
  | b => 2
  | ae => 3
  | e => 4
  | ne => 5
  | be => 6
  | a => 7
  | s => 8
  | ns => 9
  | p => 10
  | np => 11
  | l => 12
  | ge => 13
  | le => 14
  | g => 15

/-- The condition with a number. -/
def ofCode : ℕ → Cond
  | 0 => o
  | 1 => no
  | 2 => b
  | 3 => ae
  | 4 => e
  | 5 => ne
  | 6 => be
  | 7 => a
  | 8 => s
  | 9 => ns
  | 10 => p
  | 11 => np
  | 12 => l
  | 13 => ge
  | 14 => le
  | _ => g

end Cond

/-- Operand sizes. -/
inductive Size where
  | byte
  | word
  | dword
  | qword
deriving DecidableEq, Repr

/-- A memory operand : `rip` says that the displacement is relative to the next instruction. -/
structure MemRef where
  base : Option Reg
  index : Option (Reg × ℕ)
  disp : ℤ
  rip : Bool
deriving DecidableEq, Repr

/-- Operands. `high r` is the second byte of `r`. -/
inductive Operand where
  | reg (size : Size) (r : Reg)
  | high (r : Reg)
  | mem (m : MemRef)
  | imm (v : ℤ)
deriving DecidableEq, Repr

/-- Operations. -/
inductive Op where
  | mov | add | or | adc | sbb | and | sub | xor | cmp | test | bt
  | imul | mul | idiv | div | neg | not
  | rol | ror | rcl | rcr | shl | shr | sar
  | lea | movzx | movsx | set (c : Cond) | cmov (c : Cond) | jcc (c : Cond)
  | jmp | call | ret | push | pop | enter | leave
  | nop | int3 | syscall | hlt | cli | sti | ud2 | convert
deriving DecidableEq, Repr

/-- A decoded instruction : its operation, operand size and operands, the destination first. -/
structure Instr where
  op : Op
  size : Size
  operands : List Operand
deriving DecidableEq, Repr

/-- The bits of a REX prefix. -/
structure Rex where
  w : Bool
  r : Bool
  x : Bool
  b : Bool
deriving DecidableEq, Repr

/-- The prefixes of an instruction. -/
structure Prefixes where
  operandSize : Bool
  rex : Option Rex
deriving DecidableEq, Repr

namespace Prefixes

/-- A bit of the REX prefix, which is clear if there is none. -/
def bit (p : Prefixes) (f : Rex → Bool) : Bool :=
  (p.rex.map f).getD false

/-- The extension of a register number. -/
def extend (p : Prefixes) (f : Rex → Bool) (n : ℕ) : ℕ :=
  if p.bit f then n + 8 else n

/-- The operand size of an instruction that is not one of bytes. -/
def size (p : Prefixes) : Size :=
  if p.bit Rex.w then .qword else if p.operandSize then .word else .dword

/-- The register operand with a number. -/
def register (p : Prefixes) (size : Size) (n : ℕ) : Operand :=
  if size = .byte ∧ p.rex = none ∧ 4 ≤ n then .high (Reg.ofCode (n - 4))
  else .reg size (Reg.ofCode n)

end Prefixes

/-! ### Numbers in the code -/

/-- A signed byte. -/
def takeByte : List UInt8 → Option (ℤ × List UInt8)
  | b :: bs => some ((BitVec.ofNat 8 b.toNat).toInt, bs)
  | _ => none

/-- A byte without sign. -/
def takeByteUnsigned : List UInt8 → Option (ℤ × List UInt8)
  | b :: bs => some (b.toNat, bs)
  | _ => none

/-- A word without sign. -/
def takeWordUnsigned : List UInt8 → Option (ℤ × List UInt8)
  | b :: c :: bs => some (b.toNat + 256 * c.toNat, bs)
  | _ => none

/-- A signed word. -/
def takeWord : List UInt8 → Option (ℤ × List UInt8)
  | b :: c :: bs => some ((BitVec.ofNat 16 (b.toNat + 256 * c.toNat)).toInt, bs)
  | _ => none

/-- A signed doubleword. -/
def takeDword : List UInt8 → Option (ℤ × List UInt8)
  | b :: c :: d :: e :: bs =>
    some ((BitVec.ofNat 32
      (b.toNat + 256 * c.toNat + 256 ^ 2 * d.toNat + 256 ^ 3 * e.toNat)).toInt, bs)
  | _ => none

/-- A signed quadword. -/
def takeQword : List UInt8 → Option (ℤ × List UInt8)
  | b :: c :: d :: e :: f :: g :: h :: i :: bs =>
    some ((BitVec.ofNat 64
      (b.toNat + 256 * c.toNat + 256 ^ 2 * d.toNat + 256 ^ 3 * e.toNat +
        256 ^ 4 * (f.toNat + 256 * g.toNat + 256 ^ 2 * h.toNat + 256 ^ 3 * i.toNat))).toInt, bs)
  | _ => none

/-- An immediate of an operand size : a quadword instruction has a doubleword. -/
def takeImm : Size → List UInt8 → Option (ℤ × List UInt8)
  | .byte => takeByte
  | .word => takeWord
  | .dword => takeDword
  | .qword => takeDword

/-! ### ModRM -/

/-- The displacement of a memory operand. -/
def takeDisp : ℕ → List UInt8 → Option (ℤ × List UInt8)
  | 1 => takeByte
  | 2 => takeDword
  | _ => fun bs => some (0, bs)

/-- The operand of a SIB byte. -/
def takeSib (p : Prefixes) (mod : ℕ) : List UInt8 → Option (MemRef × List UInt8)
  | [] => none
  | b :: bs => do
    let scale := b.toNat / 64
    let index := p.extend Rex.x (b.toNat / 8 % 8)
    let base := b.toNat % 8
    let index := if index = 4 then none else some (Reg.ofCode index, 2 ^ scale)
    if base = 5 ∧ mod = 0 then
      let (disp, bs) ← takeDword bs
      return (⟨none, index, disp, false⟩, bs)
    else
      let (disp, bs) ← takeDisp mod bs
      return (⟨some (Reg.ofCode (p.extend Rex.b base)), index, disp, false⟩, bs)

/-- The memory operand of a ModRM byte. -/
def takeMem (p : Prefixes) (mod rm : ℕ) (bs : List UInt8) : Option (MemRef × List UInt8) :=
  if rm = 4 then takeSib p mod bs
  else if rm = 5 ∧ mod = 0 then do
    let (disp, bs) ← takeDword bs
    return (⟨none, none, disp, true⟩, bs)
  else do
    let (disp, bs) ← takeDisp mod bs
    return (⟨some (Reg.ofCode (p.extend Rex.b rm)), none, disp, false⟩, bs)

/-- A ModRM byte with what belongs to it : the number in its middle, and the operand of the given
size. -/
def takeModrm (p : Prefixes) (size : Size) : List UInt8 → Option (ℕ × Operand × List UInt8)
  | [] => none
  | b :: bs =>
    let mod := b.toNat / 64
    let reg := b.toNat / 8 % 8
    let rm := b.toNat % 8
    if mod = 3 then some (reg, p.register size (p.extend Rex.b rm), bs)
    else (takeMem p mod rm bs).map fun m => (reg, .mem m.1, m.2)

/-! ### Opcodes -/

/-- The operations of the first eight rows of the table, and of the first group. -/
def aluOp : ℕ → Op
  | 0 => .add
  | 1 => .or
  | 2 => .adc
  | 3 => .sbb
  | 4 => .and
  | 5 => .sub
  | 6 => .xor
  | _ => .cmp

/-- The shifts of the second group. -/
def shiftOp : ℕ → Op
  | 0 => .rol
  | 1 => .ror
  | 2 => .rcl
  | 3 => .rcr
  | 5 => .shr
  | 7 => .sar
  | _ => .shl

/-- The third group, without its immediate forms. -/
def unaryOp : ℕ → Option Op
  | 2 => some .not
  | 3 => some .neg
  | 4 => some .mul
  | 5 => some .imul
  | 6 => some .div
  | 7 => some .idiv
  | _ => none

/-- `op r/m, r`. -/
def rmReg (p : Prefixes) (op : Op) (size : Size) (bs : List UInt8) :
    Option (Instr × List UInt8) := do
  let (reg, rm, bs) ← takeModrm p size bs
  return (⟨op, size, [rm, p.register size (p.extend Rex.r reg)]⟩, bs)

/-- `op r, r/m`, with the size of each operand. -/
def regRm (p : Prefixes) (op : Op) (size source : Size) (bs : List UInt8) :
    Option (Instr × List UInt8) := do
  let (reg, rm, bs) ← takeModrm p source bs
  return (⟨op, size, [p.register size (p.extend Rex.r reg), rm]⟩, bs)

/-- `op r/m, imm`, where the middle of the ModRM byte gives the operation. -/
def rmImm (p : Prefixes) (op : ℕ → Option Op) (size : Size)
    (take : List UInt8 → Option (ℤ × List UInt8)) (bs : List UInt8) :
    Option (Instr × List UInt8) := do
  let (reg, rm, bs) ← takeModrm p size bs
  let op ← op reg
  let (v, bs) ← take bs
  return (⟨op, size, [rm, .imm v]⟩, bs)

/-- `op r/m`, where the middle of the ModRM byte gives the operation. -/
def rmOnly (p : Prefixes) (op : ℕ → Option Op) (size : Size) (bs : List UInt8) :
    Option (Instr × List UInt8) := do
  let (reg, rm, bs) ← takeModrm p size bs
  return (⟨← op reg, size, [rm]⟩, bs)

/-- The opcodes after `0F`. -/
def decodeTwoByte (p : Prefixes) (opcode : ℕ) (bs : List UInt8) : Option (Instr × List UInt8) :=
  if opcode = 0x05 then some (⟨.syscall, .qword, []⟩, bs)
  else if opcode = 0x0B then some (⟨.ud2, .qword, []⟩, bs)
  else if opcode = 0x1F then rmOnly p (fun _ => some .nop) p.size bs
  else if opcode / 16 = 4 then regRm p (.cmov (Cond.ofCode (opcode % 16))) p.size p.size bs
  else if opcode / 16 = 8 then do
    let (v, bs) ← takeDword bs
    return (⟨.jcc (Cond.ofCode (opcode % 16)), .qword, [.imm v]⟩, bs)
  else if opcode / 16 = 9 then
    rmOnly p (fun _ => some (.set (Cond.ofCode (opcode % 16)))) .byte bs
  else if opcode = 0xAF then regRm p .imul p.size p.size bs
  else if opcode = 0xB6 then regRm p .movzx p.size .byte bs
  else if opcode = 0xBA then
    rmImm p (fun n => if n = 4 then some .bt else none) p.size takeByteUnsigned bs
  else if opcode = 0xB7 then regRm p .movzx p.size .word bs
  else if opcode = 0xBE then regRm p .movsx p.size .byte bs
  else if opcode = 0xBF then regRm p .movsx p.size .word bs
  else none

/-- The opcodes of one byte. -/
def decodeOneByte (p : Prefixes) (opcode : ℕ) (bs : List UInt8) : Option (Instr × List UInt8) :=
  if opcode < 0x40 ∧ opcode % 8 = 0 then rmReg p (aluOp (opcode / 8)) .byte bs
  else if opcode < 0x40 ∧ opcode % 8 = 1 then rmReg p (aluOp (opcode / 8)) p.size bs
  else if opcode < 0x40 ∧ opcode % 8 = 2 then regRm p (aluOp (opcode / 8)) .byte .byte bs
  else if opcode < 0x40 ∧ opcode % 8 = 3 then regRm p (aluOp (opcode / 8)) p.size p.size bs
  else if opcode / 8 = 10 then
    some (⟨.push, .qword, [.reg .qword (Reg.ofCode (p.extend Rex.b (opcode % 8)))]⟩, bs)
  else if opcode / 8 = 11 then
    some (⟨.pop, .qword, [.reg .qword (Reg.ofCode (p.extend Rex.b (opcode % 8)))]⟩, bs)
  else if opcode = 0x63 then regRm p .movsx p.size .dword bs
  else if opcode = 0x68 then do
    let (v, bs) ← takeDword bs
    return (⟨.push, .qword, [.imm v]⟩, bs)
  else if opcode = 0x69 then do
    let (reg, rm, bs) ← takeModrm p p.size bs
    let (v, bs) ← takeImm p.size bs
    return (⟨.imul, p.size, [p.register p.size (p.extend Rex.r reg), rm, .imm v]⟩, bs)
  else if opcode = 0x6A then do
    let (v, bs) ← takeByte bs
    return (⟨.push, .qword, [.imm v]⟩, bs)
  else if opcode = 0x6B then do
    let (reg, rm, bs) ← takeModrm p p.size bs
    let (v, bs) ← takeByte bs
    return (⟨.imul, p.size, [p.register p.size (p.extend Rex.r reg), rm, .imm v]⟩, bs)
  else if opcode = 0x80 then rmImm p (fun n => some (aluOp n)) .byte takeByte bs
  else if opcode = 0x81 then rmImm p (fun n => some (aluOp n)) p.size (takeImm p.size) bs
  else if opcode = 0x83 then rmImm p (fun n => some (aluOp n)) p.size takeByte bs
  else if opcode = 0x84 then rmReg p .test .byte bs
  else if opcode = 0x85 then rmReg p .test p.size bs
  else if opcode = 0x88 then rmReg p .mov .byte bs
  else if opcode = 0x89 then rmReg p .mov p.size bs
  else if opcode = 0x8A then regRm p .mov .byte .byte bs
  else if opcode = 0x8B then regRm p .mov p.size p.size bs
  else if opcode = 0x8D then regRm p .lea p.size p.size bs
  else if opcode = 0x90 ∧ p.bit Rex.b = false then some (⟨.nop, p.size, []⟩, bs)
  else if opcode = 0x99 then some (⟨.convert, p.size, []⟩, bs)
  else if opcode / 8 = 22 then do
    let (v, bs) ← takeByte bs
    return (⟨.mov, .byte, [p.register .byte (p.extend Rex.b (opcode % 8)), .imm v]⟩, bs)
  else if opcode / 8 = 23 then
    let r := Reg.ofCode (p.extend Rex.b (opcode % 8))
    if p.size = .qword then do
      let (v, bs) ← takeQword bs
      return (⟨.mov, .qword, [.reg .qword r, .imm v]⟩, bs)
    else do
      let (v, bs) ← takeImm p.size bs
      return (⟨.mov, p.size, [.reg p.size r, .imm v]⟩, bs)
  else if opcode = 0xC1 then rmImm p (fun n => some (shiftOp n)) p.size takeByteUnsigned bs
  else if opcode = 0xC2 then do
    let (v, bs) ← takeWordUnsigned bs
    return (⟨.ret, .qword, [.imm v]⟩, bs)
  else if opcode = 0xC3 then some (⟨.ret, .qword, []⟩, bs)
  else if opcode = 0xC6 then
    rmImm p (fun n => if n = 0 then some .mov else none) .byte takeByte bs
  else if opcode = 0xC7 then
    rmImm p (fun n => if n = 0 then some .mov else none) p.size (takeImm p.size) bs
  else if opcode = 0xC8 then do
    let (v, bs) ← takeWordUnsigned bs
    let (n, bs) ← takeByteUnsigned bs
    return (⟨.enter, .qword, [.imm v, .imm n]⟩, bs)
  else if opcode = 0xC9 then some (⟨.leave, .qword, []⟩, bs)
  else if opcode = 0xCC then some (⟨.int3, .qword, []⟩, bs)
  else if opcode = 0xD1 then
    rmImm p (fun n => some (shiftOp n)) p.size (fun bs => some (1, bs)) bs
  else if opcode = 0xD3 then do
    let (i, bs) ← rmOnly p (fun n => some (shiftOp n)) p.size bs
    return (⟨i.op, i.size, i.operands ++ [.reg .byte .rcx]⟩, bs)
  else if opcode = 0xE8 then do
    let (v, bs) ← takeDword bs
    return (⟨.call, .qword, [.imm v]⟩, bs)
  else if opcode = 0xE9 then do
    let (v, bs) ← takeDword bs
    return (⟨.jmp, .qword, [.imm v]⟩, bs)
  else if opcode = 0xF4 then some (⟨.hlt, .qword, []⟩, bs)
  else if opcode = 0xF7 then
    (rmOnly p unaryOp p.size bs).or
      (rmImm p (fun n => if n = 0 then some .test else none) p.size (takeImm p.size) bs)
  else if opcode = 0xFA then some (⟨.cli, .qword, []⟩, bs)
  else if opcode = 0xFB then some (⟨.sti, .qword, []⟩, bs)
  else if opcode = 0xFF then
    rmOnly p (fun n => if n = 2 then some .call else if n = 4 then some .jmp else none) .qword bs
  else none

/-- An opcode with its operands. -/
def decodeOpcode (p : Prefixes) : List UInt8 → Option (Instr × List UInt8)
  | [] => none
  | b :: bs =>
    if b = 0x0F then
      match bs with
      | [] => none
      | c :: bs => decodeTwoByte p c.toNat bs
    else decodeOneByte p b.toNat bs

/-- The REX prefix of a byte, if it is one. -/
def rexOf (b : UInt8) : Option Rex :=
  if b.toNat / 16 = 4 then
    some ⟨b.toNat / 8 % 2 = 1, b.toNat / 4 % 2 = 1, b.toNat / 2 % 2 = 1, b.toNat % 2 = 1⟩
  else none

/-- An instruction behind its operand-size prefix. -/
def decodeRex (operandSize : Bool) : List UInt8 → Option (Instr × List UInt8)
  | [] => none
  | b :: bs =>
    match rexOf b with
    | some rex => decodeOpcode ⟨operandSize, some rex⟩ bs
    | none => decodeOpcode ⟨operandSize, none⟩ (b :: bs)

/-- The instruction at the start of the code, and the code behind it. -/
def decode : List UInt8 → Option (Instr × List UInt8)
  | [] => none
  | b :: bs => if b = 0x66 then decodeRex true bs else decodeRex false (b :: bs)

end X86
