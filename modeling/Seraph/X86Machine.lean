import Mathlib.Logic.Function.Basic
import Seraph.ByteMemory
import Seraph.X86Format

/-!
# An x86-64 machine

What the general-purpose instructions do : registers, flags, a memory of bytes and the list of the
memory accesses so far. A flag that an instruction leaves undefined is `none`, and a condition that
reads one is a fault of the model, so that nothing rests on it. `step` is one instruction ; calls,
returns and system calls leave the code at hand, with the machine as it is then.
-/

namespace X86

/-- The bits of an operand size. -/
def Size.bits : Size → ℕ
  | .byte => 8
  | .word => 16
  | .dword => 32
  | .qword => 64

/-- The bytes of an operand size. -/
def Size.bytes : Size → ℕ
  | .byte => 1
  | .word => 2
  | .dword => 4
  | .qword => 8

/-! ### Memory -/

/-- A byte at each address. -/
abbrev Bytes := BitVec 64 → UInt8

namespace Bytes

/-- The memory from an address on. -/
def view (m : Bytes) (a : BitVec 64) : ByteMem.Memory :=
  fun i => m (a + BitVec.ofNat 64 i)

/-- The number in the `n` bytes at an address. -/
def load (m : Bytes) (a : BitVec 64) (n : ℕ) : BitVec 64 :=
  BitVec.ofNat 64 ((m.view a).load 0 n)

/-- The memory with a number in the `n` bytes at an address. -/
def store (m : Bytes) (a : BitVec 64) (n : ℕ) (v : BitVec 64) : Bytes :=
  fun x => if (x - a).toNat < n then UInt8.ofNat (v.toNat / 256 ^ (x - a).toNat) else m x

variable (m : Bytes) (a : BitVec 64) (v : BitVec 64)

/-- A store and a load of the same quadword. -/
@[simp] theorem load_store_same : (m.store a 8 v).load a 8 = v := by
  have hview : ((m.store a 8 v).view a).load 0 8 = ((m.view a).store 0 8 v.toNat).load 0 8 := by
    refine ByteMem.Memory.load_congr fun i hi => ?_
    have hlt : i < 8 := by
      have hi' : i < 0 + 8 := hi.2
      omega
    have hoff : (a + BitVec.ofNat 64 i - a).toNat = i := by
      rw [BitVec.add_comm, BitVec.add_sub_cancel, BitVec.toNat_ofNat]
      omega
    simp only [view, store, ByteMem.Memory.store, hoff]
    simp [hlt]
  rw [load, hview, ByteMem.Memory.load_store_of_lt _ v.isLt, BitVec.ofNat_toNat, BitVec.setWidth_eq]

/-- A load depends on the bytes that it reads. -/
theorem load_congr {m' : Bytes} {k : ℕ}
    (h : ∀ i < k, m' (a + BitVec.ofNat 64 i) = m (a + BitVec.ofNat 64 i)) :
    m'.load a k = m.load a k := by
  refine congrArg (BitVec.ofNat 64) (ByteMem.Memory.load_congr fun i hi => h i ?_)
  have hi' : i < 0 + k := hi.2
  omega

end Bytes

/-! ### Machines -/

/-- The status flags. -/
structure Flags where
  carry : Option Bool
  zero : Option Bool
  sign : Option Bool
  overflow : Option Bool
  parity : Option Bool

/-- No flag is defined. -/
def Flags.undefined : Flags :=
  ⟨none, none, none, none, none⟩

/-- An access of the memory. -/
structure Access where
  isStore : Bool
  address : BitVec 64
  len : ℕ
deriving DecidableEq

/-- A machine. -/
structure Machine where
  regs : Reg → BitVec 64
  flags : Flags
  mem : Bytes
  accesses : List Access

/-- Why a machine stops. -/
inductive Fault where
  | divide
  | undefinedOpcode
  | breakpoint
  | undefinedFlag
  | unmodelled
deriving DecidableEq

/-- Where the code at hand is left. -/
inductive Exit where
  | call (target : BitVec 64)
  | ret (target : BitVec 64)
  | jump (target : BitVec 64)
  | syscall
deriving DecidableEq

/-- What an instruction comes to. -/
inductive Step where
  | next (m : Machine)
  | leave (e : Exit) (m : Machine)
  | fault (f : Fault)

namespace Machine

/-- The machine with a register set. -/
def setReg (m : Machine) (r : Reg) (v : BitVec 64) : Machine :=
  { m with regs := Function.update m.regs r v }

/-- The machine with its flags set. -/
def setFlags (m : Machine) (flags : Flags) : Machine :=
  { m with flags }

/-- The number in the `n` bytes at an address, and the machine that has read it. -/
def load (m : Machine) (a : BitVec 64) (n : ℕ) : BitVec 64 × Machine :=
  (m.mem.load a n, { m with accesses := m.accesses ++ [⟨false, a, n⟩] })

/-- The machine with a number stored in the `n` bytes at an address. -/
def store (m : Machine) (a : BitVec 64) (n : ℕ) (v : BitVec 64) : Machine :=
  { m with mem := m.mem.store a n v, accesses := m.accesses ++ [⟨true, a, n⟩] }

/-- The address of a memory operand that is not relative to the next instruction. -/
def address (m : Machine) (r : MemRef) : BitVec 64 :=
  (r.base.map m.regs).getD 0 +
    (r.index.map fun i => m.regs i.1 * BitVec.ofNat 64 i.2).getD 0 + BitVec.ofInt 64 r.disp

/-- What an operand holds, without its sign. -/
def read (m : Machine) (size : Size) : Operand → BitVec 64 × Machine
  | .reg s r => (((m.regs r).setWidth s.bits).setWidth 64, m)
  | .high r => ((((m.regs r) >>> 8).setWidth 8).setWidth 64, m)
  | .mem r => m.load (m.address r) size.bytes
  | .imm v => (((BitVec.ofInt 64 v).setWidth size.bits).setWidth 64, m)

/-- A number written to an operand. A doubleword register is extended with zeros, a smaller one
keeps the bits above. -/
def write (m : Machine) (size : Size) (v : BitVec 64) : Operand → Machine
  | .reg .qword r => m.setReg r v
  | .reg .dword r => m.setReg r ((v.setWidth 32).setWidth 64)
  | .reg s r =>
    m.setReg r ((m.regs r >>> s.bits <<< s.bits) ||| (v.setWidth s.bits).setWidth 64)
  | .high r =>
    m.setReg r ((m.regs r &&& ~~~0xFF00#64) ||| ((v.setWidth 8).setWidth 64 <<< 8))
  | .mem r => m.store (m.address r) size.bytes v
  | .imm _ => m

end Machine

/-! ### Flags -/

/-- Whether the low byte has an even number of bits set. -/
def parity {w : ℕ} (r : BitVec w) : Bool :=
  ((List.range 8).filter fun i => r.getLsbD i).length % 2 = 0

/-- The flags of a sum. -/
def addFlags {w : ℕ} (x y : BitVec w) : Flags :=
  ⟨some (x.uaddOverflow y), some (x + y = 0), some (x + y).msb, some (x.saddOverflow y),
    some (parity (x + y))⟩

/-- The flags of a difference. -/
def subFlags {w : ℕ} (x y : BitVec w) : Flags :=
  ⟨some (x.usubOverflow y), some (x - y = 0), some (x - y).msb, some (x.ssubOverflow y),
    some (parity (x - y))⟩

/-- The flags of a bitwise result. -/
def logicFlags {w : ℕ} (r : BitVec w) : Flags :=
  ⟨some false, some (r = 0), some r.msb, some false, some (parity r)⟩

/-- The flags of a signed product. -/
def mulFlags {w : ℕ} (x y : BitVec w) : Flags :=
  ⟨some (x.smulOverflow y), none, none, some (x.smulOverflow y), none⟩

/-- Whether a condition holds, if the flags it reads are defined. -/
def Flags.holds (f : Flags) : Cond → Option Bool
  | .o => f.overflow
  | .no => f.overflow.map not
  | .b => f.carry
  | .ae => f.carry.map not
  | .e => f.zero
  | .ne => f.zero.map not
  | .be => do return (← f.carry) || (← f.zero)
  | .a => do return !((← f.carry) || (← f.zero))
  | .s => f.sign
  | .ns => f.sign.map not
  | .p => f.parity
  | .np => f.parity.map not
  | .l => do return (← f.sign) != (← f.overflow)
  | .ge => do return (← f.sign) == (← f.overflow)
  | .le => do return (← f.zero) || ((← f.sign) != (← f.overflow))
  | .g => do return !(← f.zero) && ((← f.sign) == (← f.overflow))

/-! ### Instructions -/

/-- An operation of two operands that is written to the first. -/
def binary {w : ℕ} (op : Op) (x y : BitVec w) : Option (BitVec w × Flags) :=
  match op with
  | .add => some (x + y, addFlags x y)
  | .sub => some (x - y, subFlags x y)
  | .and => some (x &&& y, logicFlags (x &&& y))
  | .or => some (x ||| y, logicFlags (x ||| y))
  | .xor => some (x ^^^ y, logicFlags (x ^^^ y))
  | .imul => some (x * y, mulFlags x y)
  | _ => none

/-- An operation of two operands that only sets flags. -/
def compare {w : ℕ} (op : Op) (x y : BitVec w) (flags : Flags) : Option Flags :=
  match op with
  | .cmp => some (subFlags x y)
  | .test => some (logicFlags (x &&& y))
  | .bt => some ⟨some (x.getLsbD (y.toNat % w)), flags.zero, none, none, none⟩
  | _ => none

/-- The signed quotient and remainder of `rdx:rax`, unless the quotient does not fit. -/
def signedDivide (m : Machine) (divisor : BitVec 64) : Step :=
  let dividend := (m.regs .rdx ++ m.regs .rax).toInt
  let quotient := dividend.tdiv divisor.toInt
  if divisor = 0 ∨ quotient < -9223372036854775808 ∨
      9223372036854775808 ≤ quotient then .fault .divide
  else
    .next (((m.setReg .rax (BitVec.ofInt 64 quotient)).setReg .rdx
      (BitVec.ofInt 64 (dividend.tmod divisor.toInt))).setFlags .undefined)

/-- A number pushed on the stack. -/
def Machine.push (m : Machine) (v : BitVec 64) : Machine :=
  (m.setReg .rsp (m.regs .rsp - 8)).store (m.regs .rsp - 8) 8 v

/-- A number popped from the stack. -/
def Machine.pop (m : Machine) : BitVec 64 × Machine :=
  let r := m.load (m.regs .rsp) 8
  (r.1, r.2.setReg .rsp (m.regs .rsp + 8))

/-- One instruction. -/
def step (i : Instr) (m : Machine) : Step :=
  match i.op, i.operands with
  | .mov, [d, s] =>
    let r := m.read i.size s
    .next (r.2.write i.size r.1 d)
  | .movzx, [d, .reg s r] => .next (m.write i.size (m.read s (.reg s r)).1 d)
  | .lea, [d, .mem r] => if r.rip then .fault .unmodelled else .next (m.write i.size (m.address r) d)
  | .neg, [d] =>
    let r := m.read i.size d
    let x := r.1.setWidth i.size.bits
    .next ((r.2.write i.size ((0 - x).setWidth 64) d).setFlags (subFlags 0 x))
  | .not, [d] =>
    let r := m.read i.size d
    .next (r.2.write i.size (~~~r.1) d)
  | .convert, [] =>
    if i.size = .qword then .next (m.setReg .rdx (if (m.regs .rax).msb then -1 else 0))
    else .fault .unmodelled
  | .idiv, [s] =>
    if i.size = .qword then
      let r := m.read i.size s
      signedDivide r.2 r.1
    else .fault .unmodelled
  | .set c, [d] =>
    match m.flags.holds c with
    | some b => .next (m.write .byte (if b then 1 else 0) d)
    | none => .fault .undefinedFlag
  | .cmov c, [d, s] =>
    let r := m.read i.size s
    let r' := r.2.read i.size d
    match m.flags.holds c with
    | some b => .next (r'.2.write i.size (if b then r.1 else r'.1) d)
    | none => .fault .undefinedFlag
  | .push, [s] =>
    let r := m.read .qword s
    .next (r.2.push r.1)
  | .pop, [d] =>
    let r := m.pop
    .next (r.2.write .qword r.1 d)
  | .call, [.reg .qword r] => .leave (.call (m.regs r)) m
  | .jmp, [.reg .qword r] => .leave (.jump (m.regs r)) m
  | .ret, [] =>
    let r := m.pop
    .leave (.ret r.1) r.2
  | .syscall, [] => .leave .syscall m
  | .ud2, [] => .fault .undefinedOpcode
  | .int3, [] => .fault .breakpoint
  | .nop, [] => .next m
  | op, [d, s] =>
    let r := m.read i.size d
    let r' := r.2.read i.size s
    let x := r.1.setWidth i.size.bits
    let y := r'.1.setWidth i.size.bits
    match binary op x y, compare op x y m.flags with
    | some (v, flags), _ => .next ((r'.2.write i.size (v.setWidth 64) d).setFlags flags)
    | none, some flags => .next (r'.2.setFlags flags)
    | none, none => .fault .unmodelled
  | .imul, [d, s, .imm v] =>
    let r := m.read i.size s
    let x := r.1.setWidth i.size.bits
    let y := (BitVec.ofInt 64 v).setWidth i.size.bits
    .next ((r.2.write i.size ((x * y).setWidth 64) d).setFlags (mulFlags x y))
  | _, _ => .fault .unmodelled

/-! ### What the updates of a machine leave alone -/

namespace Machine

variable (m : Machine) (r r' : Reg) (v : BitVec 64) (flags : Flags) (a : BitVec 64) (n : ℕ)

/-- A write to a register changes that register only. -/
@[simp] theorem regs_setReg : (m.setReg r v).regs r' = if r' = r then v else m.regs r' :=
  Function.update_apply m.regs r v r'

@[simp] theorem flags_setReg : (m.setReg r v).flags = m.flags :=
  rfl

@[simp] theorem mem_setReg : (m.setReg r v).mem = m.mem :=
  rfl

@[simp] theorem accesses_setReg : (m.setReg r v).accesses = m.accesses :=
  rfl

@[simp] theorem regs_setFlags : (m.setFlags flags).regs = m.regs :=
  rfl

@[simp] theorem flags_setFlags : (m.setFlags flags).flags = flags :=
  rfl

@[simp] theorem mem_setFlags : (m.setFlags flags).mem = m.mem :=
  rfl

@[simp] theorem accesses_setFlags : (m.setFlags flags).accesses = m.accesses :=
  rfl

/-- A load returns the bytes of the memory. -/
@[simp] theorem fst_load : (m.load a n).1 = m.mem.load a n :=
  rfl

@[simp] theorem regs_load : (m.load a n).2.regs = m.regs :=
  rfl

@[simp] theorem flags_load : (m.load a n).2.flags = m.flags :=
  rfl

@[simp] theorem mem_load : (m.load a n).2.mem = m.mem :=
  rfl

/-- A load is recorded. -/
@[simp] theorem accesses_load : (m.load a n).2.accesses = m.accesses ++ [⟨false, a, n⟩] :=
  rfl

@[simp] theorem regs_store : (m.store a n v).regs = m.regs :=
  rfl

@[simp] theorem flags_store : (m.store a n v).flags = m.flags :=
  rfl

/-- A store changes the bytes of the memory. -/
@[simp] theorem mem_store : (m.store a n v).mem = m.mem.store a n v :=
  rfl

/-- A store is recorded. -/
@[simp] theorem accesses_store : (m.store a n v).accesses = m.accesses ++ [⟨true, a, n⟩] :=
  rfl

/-- The last write to a register counts. -/
@[simp] theorem setReg_setReg (v' : BitVec 64) : (m.setReg r v).setReg r v' = m.setReg r v' := by
  simp [setReg]

/-- The address of a base and a displacement. -/
@[simp] theorem address_base (disp : ℤ) :
    m.address ⟨some r, none, disp, false⟩ = m.regs r + BitVec.ofInt 64 disp := by
  simp [address]

end Machine

/-! ### Quadwords -/

section quadwords

variable (m : Machine) (d s : Reg) (r : MemRef) (v : ℤ)

attribute [local simp] step Machine.read Machine.write Size.bits Size.bytes binary compare

/-- `mov` between registers. -/
@[simp] theorem step_mov_reg :
    step ⟨.mov, .qword, [.reg .qword d, .reg .qword s]⟩ m = .next (m.setReg d (m.regs s)) := by
  simp [step, Machine.read, Machine.write, Size.bits]

/-- `mov` of a constant. -/
@[simp] theorem step_mov_imm :
    step ⟨.mov, .qword, [.reg .qword d, .imm v]⟩ m = .next (m.setReg d (BitVec.ofInt 64 v)) := by
  simp [step, Machine.read, Machine.write, Size.bits]

/-- `mov` from memory. -/
@[simp] theorem step_mov_load :
    step ⟨.mov, .qword, [.reg .qword d, .mem r]⟩ m =
      .next ((m.load (m.address r) 8).2.setReg d (m.mem.load (m.address r) 8)) :=
  rfl

/-- `mov` to memory. -/
@[simp] theorem step_mov_store :
    step ⟨.mov, .qword, [.mem r, .reg .qword s]⟩ m =
      .next (m.store (m.address r) 8 (m.regs s)) := by
  simp [step, Machine.read, Machine.write, Size.bits, Size.bytes]

/-- `add` wraps around. -/
@[simp] theorem step_add :
    step ⟨.add, .qword, [.reg .qword d, .reg .qword s]⟩ m =
      .next ((m.setReg d (m.regs d + m.regs s)).setFlags (addFlags (m.regs d) (m.regs s))) := by
  simp [step, Machine.read, Machine.write, Size.bits, binary]
  rfl

/-- `sub` wraps around. -/
@[simp] theorem step_sub :
    step ⟨.sub, .qword, [.reg .qword d, .reg .qword s]⟩ m =
      .next ((m.setReg d (m.regs d - m.regs s)).setFlags (subFlags (m.regs d) (m.regs s))) := by
  simp [step, Machine.read, Machine.write, Size.bits, binary]
  rfl

/-- `imul` keeps the low half of the product. -/
@[simp] theorem step_imul :
    step ⟨.imul, .qword, [.reg .qword d, .reg .qword s]⟩ m =
      .next ((m.setReg d (m.regs d * m.regs s)).setFlags (mulFlags (m.regs d) (m.regs s))) := by
  simp [step, Machine.read, Machine.write, Size.bits, binary]
  rfl

/-- `cmp` sets the flags of a subtraction. -/
@[simp] theorem step_cmp :
    step ⟨.cmp, .qword, [.reg .qword d, .reg .qword s]⟩ m =
      .next (m.setFlags (subFlags (m.regs d) (m.regs s))) := by
  simp [step, Machine.read, Size.bits, binary, compare]

/-- `test` sets the flags of an `and`. -/
@[simp] theorem step_test :
    step ⟨.test, .qword, [.reg .qword d, .reg .qword s]⟩ m =
      .next (m.setFlags (logicFlags (m.regs d &&& m.regs s))) := by
  simp [step, Machine.read, Size.bits, binary, compare]
  rfl

/-- `bt` of bit 63 puts the sign into the carry. -/
@[simp] theorem step_bt_sign :
    step ⟨.bt, .qword, [.reg .qword d, .imm 63]⟩ m =
      .next (m.setFlags ⟨some (m.regs d).msb, m.flags.zero, none, none, none⟩) := by
  have h : ((BitVec.ofInt 64 63).setWidth 64).toNat % 64 = 63 := by decide
  simp [step, Machine.read, Size.bits, binary, compare, BitVec.msb_eq_getLsbD_last]

/-- `push` stores below the stack pointer. -/
@[simp] theorem step_push :
    step ⟨.push, .qword, [.reg .qword s]⟩ m = .next (m.push (m.regs s)) := by
  simp [step, Machine.read, Size.bits]

/-- `neg` subtracts from zero. -/
@[simp] theorem step_neg :
    step ⟨.neg, .qword, [.reg .qword d]⟩ m =
      .next ((m.setReg d (-m.regs d)).setFlags (subFlags 0 (m.regs d))) := by
  simp only [← BitVec.zero_sub]
  simp [step, Machine.read, Machine.write, Size.bits]
  rfl

/-- `cqo` spreads the sign of RAX over RDX. -/
@[simp] theorem step_cqo :
    step ⟨.convert, .qword, []⟩ m = .next (m.setReg .rdx (if (m.regs .rax).msb then -1 else 0)) :=
  rfl

/-- A byte that is set and then extended. -/
theorem step_set_movzx {c : Cond} {b : Bool} (h : m.flags.holds c = some b) :
    ∃ m', step ⟨.set c, .byte, [.reg .byte d]⟩ m = .next m' ∧
      step ⟨.movzx, .qword, [.reg .qword d, .reg .byte d]⟩ m' =
        .next (m.setReg d (if b then 1 else 0)) := by
  refine ⟨m.write .byte (if b then 1 else 0) (.reg .byte d), ?_, ?_⟩
  · simp [step, h]
  · have hbyte (x v : BitVec 64) : ((x >>> 8 <<< 8) ||| (v.setWidth 8).setWidth 64).setWidth 8 =
        v.setWidth 8 := by
      ext i hi
      simp
    simp only [step, Machine.read, Machine.write, Size.bits, Machine.regs_setReg, if_true,
      Machine.setReg_setReg, hbyte]
    cases b <;> rfl

/-- `idiv` divides, or faults. -/
@[simp] theorem step_idiv :
    step ⟨.idiv, .qword, [.reg .qword s]⟩ m = signedDivide m (m.regs s) := by
  simp [step, Machine.read, Size.bits]

end quadwords

end X86
