import Seraph.Celestial
import Seraph.X64Labels

/-!
# Lowering to x86-64

`celestial_to_x64.c` : values and their places, the arithmetic, the comparisons, the calls and the
capabilities. A lowering is the list of what it emits. `nextId` is `labels->next_id`, the identifier
of the next label that is created ; `intervals` is `regalloc.intervals` after the prologue.
-/

namespace Seraph

open X86

/-! ## Values -/

/-- `Celestial_Value`, as the back end reads it : `fn` is `fnptr.fn`. -/
structure X64Value where
  kind : ValueKind
  id : UInt32
  constant : BitVec 64
  fn : ℕ

/-- `X64_LiveInterval` : `physReg` is `X64_NONE` for `none`. -/
structure X64LiveInterval where
  vregId : UInt32
  start : ℕ
  stop : ℕ
  physReg : Option Reg
  spillOffset : BitVec 32
  isParam : Bool
  isCalleeSave : Bool

/-- `Celestial_Instr`, as the back end reads it. -/
structure X64Instr where
  opcode : CirOpcode
  operands : List X64Value
  result : Option X64Value
  callee : Option ℕ

/-- `GP_ALLOC_ORDER`. -/
def gpAllocOrder : List Reg :=
  [.rsi, .r8, .r9, .r10, .r11, .rbx, .r12, .r13, .r14, .r15]

/-- `SERAPH_X64_VOID_VALUE`. -/
def x64VoidValue : BitVec 64 :=
  0x8000000000000000

/-- `SERAPH_VBIT_VOID`. -/
def x64VbitVoid : BitVec 64 :=
  0xFF

/-- `x64_get_value_location` : the register and the stack offset of a value, if it has a place. -/
def x64GetValueLocation (intervals : List X64LiveInterval) (value : X64Value) :
    Option (Option Reg × BitVec 32) :=
  if value.kind = .param ∨ value.kind = .vreg then
    (intervals.find? fun i => i.vregId = value.id).map fun i => (i.physReg, i.spillOffset)
  else none

/-- `emit_move_if_needed`. -/
def emitMoveIfNeeded (dst src : Reg) : List Emission :=
  if dst ≠ src then [.bytes (x64MovRegReg dst src .qword)] else []

/-- `x64_load_value`, whose callers ignore what it returns. -/
def x64LoadValue (intervals : List X64LiveInterval) (value : Option X64Value) (dst : Reg) :
    List Emission :=
  match value with
  | none => []
  | some value =>
    if value.kind = .const then
      if -2147483648 ≤ value.constant.toInt ∧ value.constant.toInt ≤ 2147483647 then
        [.bytes (x64MovRegImm32 dst (value.constant.setWidth 32))]
      else [.bytes (x64MovRegImm64 dst value.constant)]
    else if value.kind = .voidConst then [.bytes (x64MovRegImm64 dst x64VoidValue)]
    else if value.kind = .fnptr then
      [.fnptr [if dst.code ≥ 8 then 0x4C else 0x48, 0x8D,
        UInt8.ofNat (((dst.code &&& 7) <<< 3) ||| 0x05)] value.fn]
    else
      match x64GetValueLocation intervals value with
      | none => []
      | some (some src, _) => emitMoveIfNeeded dst src
      | some (none, offset) =>
        if offset ≠ -1 then [.bytes (x64MovRegMem dst .rbp offset .qword)] else []

/-- `x64_store_value`. -/
def x64StoreValue (intervals : List X64LiveInterval) (src : Reg) (value : X64Value) :
    List Emission :=
  match x64GetValueLocation intervals value with
  | none => []
  | some (some dst, _) => emitMoveIfNeeded dst src
  | some (none, offset) =>
    if offset ≠ -1 then [.bytes (x64MovMemReg .rbp offset src .qword)] else []

/-! ## Jumps and the VOID test -/

/-- `x64_jmp_label`. -/
def x64JmpLabel (labelId : UInt32) : Emission :=
  .jump [0xE9] labelId 4

/-- `x64_jcc_label`. -/
def x64JccLabel (cc : Cond) (labelId : UInt32) : Emission :=
  .jump [0x0F, UInt8.ofNat (0x80 + cc.code)] labelId 4

/-- The bytes of `bt reg, 63`. -/
def x64Bt63 (reg : Reg) : List UInt8 :=
  [x64Rex true false false (x64NeedsRex reg), 0x0F, 0xBA, x64Modrm 3 4 (reg.code &&& 7), 63]

/-- `x64_emit_void_check`. -/
def x64EmitVoidCheck (reg : Reg) (voidLabel : UInt32) : List Emission :=
  [.bytes (x64Bt63 reg), x64JccLabel .b voidLabel]

/-! ## Results -/

/-- The register a result is left in, and its stack offset : `RAX` for a value that has no
register. -/
def x64ResultLocation (intervals : List X64LiveInterval) (result : Option X64Value) :
    Reg × BitVec 32 :=
  match result with
  | none => (.rax, -1)
  | some value =>
    match x64GetValueLocation intervals value with
    | none => (.rax, -1)
    | some (reg, offset) => (reg.getD .rax, offset)

/-- The end of a lowering, which has the result in a register. -/
def x64StoreResult (intervals : List X64LiveInterval) (result : Option X64Value) (src : Reg) :
    List Emission :=
  let location := x64ResultLocation intervals result
  if result.isSome then
    emitMoveIfNeeded location.1 src ++
      (if location.2 ≠ -1 then [.bytes (x64MovMemReg .rbp location.2 location.1 .qword)] else [])
  else []

/-- The end of a lowering that has the result, if there is one, in `RAX`. -/
def x64StoreOptional (intervals : List X64LiveInterval) (result : Option X64Value) :
    List Emission :=
  match result with
  | some value => x64StoreValue intervals .rax value
  | none => []

/-! ## Arithmetic -/

/-- Both operands are loaded into `RAX` and `RCX`, and tested for VOID. -/
def x64LoadOperands (intervals : List X64LiveInterval) (operands : List X64Value)
    (voidLabel : UInt32) : List Emission :=
  x64LoadValue intervals operands[0]? .rax ++ x64LoadValue intervals operands[1]? .rcx ++
    x64EmitVoidCheck .rax voidLabel ++ x64EmitVoidCheck .rcx voidLabel

/-- The part of a division behind the tests for VOID : `take` brings the result to `RAX`. -/
def x64EmitDivide (zeroLabel doneLabel : UInt32) (take : List Emission) : List Emission :=
  [.bytes (x64TestRegReg .rcx .rcx .qword), x64JccLabel .e zeroLabel, .bytes x64Cqo,
    .bytes (x64IdivReg .rcx .qword)] ++ take ++
    [x64JmpLabel doneLabel, .defineLabel zeroLabel, .bytes (x64MovRegImm64 .rax x64VoidValue),
      .defineLabel doneLabel]

/-- The VOID path of an operation of two operands. -/
def x64EmitVoidPath (voidLabel endLabel : UInt32) : List Emission :=
  [.createLabel, x64JmpLabel endLabel, .defineLabel voidLabel,
    .bytes (x64MovRegImm64 .rax x64VoidValue), .defineLabel endLabel]

/-- `x64_lower_arithmetic`, or nothing for another instruction. -/
def x64LowerArithmetic (intervals : List X64LiveInterval) (nextId : UInt32) (instr : X64Instr) :
    Option (List Emission) :=
  let hasVoid := instr.opcode ≠ .neg ∧ instr.operands.length ≥ 2
  let voidLabel := if hasVoid then nextId else 0
  let create := if hasVoid then [Emission.createLabel] else []
  let nextId := if hasVoid then nextId + 1 else nextId
  let load := x64LoadOperands intervals instr.operands voidLabel
  let store := x64StoreResult intervals instr.result .rax
  let void := fun endLabel => if voidLabel ≠ 0 then x64EmitVoidPath voidLabel endLabel else []
  match instr.opcode with
  | .add =>
    some (create ++ load ++
      [.bytes (x64AddRegReg .rax .rcx .qword), x64JccLabel .o voidLabel] ++ void nextId ++ store)
  | .sub =>
    some (create ++ load ++
      [.bytes (x64SubRegReg .rax .rcx .qword), x64JccLabel .o voidLabel] ++ void nextId ++ store)
  | .mul =>
    some (create ++ load ++
      [.bytes (x64ImulRegReg .rax .rcx .qword), x64JccLabel .o voidLabel] ++ void nextId ++ store)
  | .div =>
    some (create ++ [.createLabel, .createLabel] ++ load ++
      x64EmitDivide nextId (nextId + 1) [] ++ void (nextId + 2) ++ store)
  | .mod =>
    some (create ++ [.createLabel, .createLabel] ++ load ++
      x64EmitDivide nextId (nextId + 1) [.bytes (x64MovRegReg .rax .rdx .qword)] ++
      void (nextId + 2) ++ store)
  | .neg =>
    some ([.createLabel, .createLabel] ++ x64LoadValue intervals instr.operands[0]? .rax ++
      x64EmitVoidCheck .rax nextId ++
      [.bytes (x64NegReg .rax .qword), x64JmpLabel (nextId + 1), .defineLabel nextId,
        .bytes (x64MovRegImm64 .rax x64VoidValue), .defineLabel (nextId + 1)] ++ store)
  | _ => none

/-! ## Comparisons -/

/-- `x64_cc_from_cir_cmp`. -/
def x64CcFromCirCmp : CirOpcode → Cond
  | .eq => .e
  | .ne => .ne
  | .lt => .l
  | .le => .le
  | .gt => .g
  | .ge => .ge
  | .ult => .b
  | .ule => .be
  | .ugt => .a
  | .uge => .ae
  | _ => .e

/-- `x64_lower_comparison`. -/
def x64LowerComparison (intervals : List X64LiveInterval) (nextId : UInt32) (instr : X64Instr) :
    List Emission :=
  x64LoadValue intervals instr.operands[0]? .rax ++ x64LoadValue intervals instr.operands[1]? .rcx ++
    [.createLabel, .createLabel] ++ x64EmitVoidCheck .rax nextId ++ x64EmitVoidCheck .rcx nextId ++
    [.bytes (x64CmpRegReg .rax .rcx .qword), .bytes (x64Setcc (x64CcFromCirCmp instr.opcode) .rax),
      .bytes (x64Movzx .rax .rax .qword .byte), x64JmpLabel (nextId + 1), .defineLabel nextId,
      .bytes (x64MovRegImm64 .rax x64VbitVoid), .defineLabel (nextId + 1)] ++
    x64StoreResult intervals instr.result .rax

/-! ## Calls -/

/-- `ARG_REGS`. -/
def argRegs : List Reg :=
  [.rdi, .rsi, .rdx, .rcx, .r8, .r9]

/-- `SYSCALL_ARG_REGS`. -/
def syscallArgRegs : List Reg :=
  [.rdi, .rsi, .rdx, .r10, .r8, .r9]

/-- An argument that goes on the stack. -/
def x64PushArgument (intervals : List X64LiveInterval) (value : X64Value) : List Emission :=
  x64LoadValue intervals (some value) .rax ++ [.bytes (x64PushReg .rax)]

/-- The arguments of a direct call, from the last one to the first. -/
def x64PassArguments (intervals : List X64LiveInterval) (operands : List X64Value) :
    List Emission :=
  operands.zipIdx.reverse.flatMap fun operand =>
    match argRegs[operand.2]? with
    | some reg => x64LoadValue intervals (some operand.1) reg
    | none => x64PushArgument intervals operand.1

/-- Values that are loaded into registers, in this order. -/
def x64LoadRegisters (intervals : List X64LiveInterval) (loads : List (Reg × X64Value)) :
    List Emission :=
  loads.flatMap fun load => x64LoadValue intervals (some load.2) load.1

/-- What follows a call : the stack arguments are dropped and the result is stored. -/
def x64FinishCall (intervals : List X64LiveInterval) (stackArgs : ℕ) (result : Option X64Value) :
    List Emission :=
  (if stackArgs > 0 then
    [.bytes (x64AddRegImm .rsp (BitVec.ofNat 32 (stackArgs * 8)) .qword)] else []) ++
    x64StoreOptional intervals result

/-- `x64_lower_control_flow`, for the calls. -/
def x64LowerControlFlow (intervals : List X64LiveInterval) (instr : X64Instr) :
    Option (List Emission) :=
  match instr.opcode, instr.operands with
  | .call, operands =>
    instr.callee.map fun callee =>
      x64PassArguments intervals operands ++ [.call 0xE8 callee] ++
        x64FinishCall intervals (operands.length - 6) instr.result
  | .callIndirect, target :: arguments =>
    some (x64LoadValue intervals (some target) .r10 ++
      (arguments.drop 6).reverse.flatMap (x64PushArgument intervals) ++
      x64LoadRegisters intervals (argRegs.zip arguments) ++
      [.bytes [x64Rex false false false true, 0xFF, x64Modrm 3 2 (Reg.code .r10 &&& 7)]] ++
      x64FinishCall intervals (arguments.length - 6) instr.result)
  | .syscall, number :: arguments =>
    some (x64LoadValue intervals (some number) .rax ++
      x64LoadRegisters intervals (syscallArgRegs.zip arguments) ++ [.bytes x64Syscall] ++
      x64FinishCall intervals 0 instr.result)
  | _, _ => none

/-! ## Capabilities -/

/-- `SERAPH_CAP_LENGTH_OFFSET` ; the base is at the start. -/
def capLengthOffset : BitVec 32 :=
  8

/-- `SERAPH_CAP_GEN_OFFSET`. -/
def capGenOffset : BitVec 32 :=
  16

/-- `SERAPH_CAP_PERMS_OFFSET`. -/
def capPermsOffset : BitVec 32 :=
  24

/-- `SERAPH_CAP_PERM_READ`. -/
def x64PermRead : BitVec 32 :=
  1

/-- `SERAPH_CAP_PERM_WRITE`. -/
def x64PermWrite : BitVec 32 :=
  2

/-- `SERAPH_CAP_PERM_DERIVE`. -/
def x64PermDerive : BitVec 32 :=
  8

/-- The bytes that the generation check compares `R10` by : meant to be `cmp r10, [r14 + 0]`. -/
def x64CmpGeneration : List UInt8 :=
  [x64Rex true true false false, 0x3B, x64Modrm 2 (Reg.code .r10 &&& 7) (Reg.code .r14 &&& 7)] ++
    x64EmitDword 0

/-- The bytes of `test r10, mask`. -/
def x64TestPermissions (permMask : BitVec 32) : List UInt8 :=
  [x64Rex true false false true, 0xF7, x64Modrm 3 0 (Reg.code .r10 &&& 7)] ++ x64EmitDword permMask

/-- `x64_emit_cap_gen_check`. -/
def x64EmitCapGenCheck (capReg : Reg) (failLabel : UInt32) : List Emission :=
  [.bytes (x64MovRegMem .r10 capReg capGenOffset .qword), .bytes x64CmpGeneration,
    x64JccLabel .l failLabel]

/-- `x64_emit_cap_bounds_check`. -/
def x64EmitCapBoundsCheck (capReg offsetReg : Reg) (failLabel : UInt32) : List Emission :=
  [.bytes (x64MovRegMem .r10 capReg capLengthOffset .qword),
    .bytes (x64CmpRegReg offsetReg .r10 .qword), x64JccLabel .ae failLabel]

/-- `x64_emit_cap_perm_check`. -/
def x64EmitCapPermCheck (capReg : Reg) (permMask : BitVec 32) (failLabel : UInt32) :
    List Emission :=
  [.bytes (x64MovRegMem .r10 capReg capPermsOffset .qword), .bytes (x64TestPermissions permMask),
    x64JccLabel .e failLabel]

/-- `R10` is set to the address that a capability is used at. -/
def x64EmitCapAddress : List Emission :=
  [.bytes (x64MovRegMem .r10 .rdi 0 .qword), .bytes (x64AddRegReg .r10 .rsi .qword)]

/-- A field of a new capability in the frame. -/
def x64StoreCapField (offset field : BitVec 32) (src : Reg) : Emission :=
  .bytes (x64MovMemReg .rbp (offset + field) src .qword)

/-- A field is copied from the parent to a new capability. -/
def x64CopyCapField (offset field : BitVec 32) : List Emission :=
  [.bytes (x64MovRegMem .rax .rdi field .qword), x64StoreCapField offset field .rax]

/-- The end of `CIR_CAP_NARROW` and `CIR_CAP_SPLIT` : a capability of generation VOID on failure,
which leaves the permissions alone. -/
def x64EmitCapFailure (offset : BitVec 32) (failLabel doneLabel : UInt32) : List Emission :=
  [x64JmpLabel doneLabel, .defineLabel failLabel, .bytes (x64XorRegReg .rax .rax .qword),
    x64StoreCapField offset 0 .rax, x64StoreCapField offset capLengthOffset .rax,
    .bytes (x64MovRegImm64 .rax x64VoidValue), x64StoreCapField offset capGenOffset .rax,
    .defineLabel doneLabel]

/-- The offset in the frame that `CIR_CAP_NARROW` and `CIR_CAP_SPLIT` put their capability at, whose
register they do not look at. -/
def x64ResultOffset (intervals : List X64LiveInterval) (result : X64Value) : BitVec 32 :=
  ((x64GetValueLocation intervals result).getD (none, -1)).2

/-- `x64_lower_capability_op`, for the accesses and the derivations. -/
def x64LowerCapability (intervals : List X64LiveInterval) (nextId : UInt32) (instr : X64Instr) :
    Option (List Emission) :=
  let load := fun (i : ℕ) dst => x64LoadValue intervals instr.operands[i]? dst
  match instr.opcode with
  | .capLoad =>
    some ([.createLabel, .createLabel] ++ load 0 .rdi ++ load 1 .rsi ++
      x64EmitCapGenCheck .rdi nextId ++ x64EmitCapBoundsCheck .rdi .rsi nextId ++
      x64EmitCapPermCheck .rdi x64PermRead nextId ++ x64EmitCapAddress ++
      [.bytes (x64MovRegMem .rax .r10 0 .qword), x64JmpLabel (nextId + 1), .defineLabel nextId,
        .bytes (x64MovRegImm64 .rax x64VoidValue), .defineLabel (nextId + 1)] ++
      x64StoreOptional intervals instr.result)
  | .capStore =>
    some ([.createLabel] ++ load 0 .rdi ++ load 1 .rsi ++ load 2 .rax ++
      x64EmitCapGenCheck .rdi nextId ++ x64EmitCapBoundsCheck .rdi .rsi nextId ++
      x64EmitCapPermCheck .rdi x64PermWrite nextId ++ x64EmitCapAddress ++
      [.bytes (x64MovMemReg .r10 0 .rax .qword), .defineLabel nextId])
  | .capNarrow =>
    match instr.result with
    | some result =>
      if instr.operands.length < 3 then none
      else
        let offset := x64ResultOffset intervals result
        some ([.createLabel, .createLabel] ++ load 0 .rdi ++ load 1 .rsi ++ load 2 .rdx ++
          x64EmitCapPermCheck .rdi x64PermDerive nextId ++
          [.bytes (x64MovRegMem .r10 .rdi capLengthOffset .qword),
            .bytes (x64MovRegReg .r11 .rsi .qword), .bytes (x64AddRegReg .r11 .rdx .qword),
            .bytes (x64CmpRegReg .r11 .r10 .qword), x64JccLabel .a nextId,
            .bytes (x64MovRegMem .rax .rdi 0 .qword), .bytes (x64AddRegReg .rax .rsi .qword),
            x64StoreCapField offset 0 .rax, x64StoreCapField offset capLengthOffset .rdx] ++
          x64CopyCapField offset capGenOffset ++ x64CopyCapField offset capPermsOffset ++
          x64EmitCapFailure offset nextId (nextId + 1))
    | none => none
  | .capSplit =>
    match instr.result with
    | some result =>
      if instr.operands.length < 2 then none
      else
        let offset := x64ResultOffset intervals result
        some ([.createLabel, .createLabel] ++ load 0 .rdi ++ load 1 .rsi ++
          x64EmitCapPermCheck .rdi x64PermDerive nextId ++
          [.bytes (x64MovRegMem .r10 .rdi capLengthOffset .qword),
            .bytes (x64CmpRegReg .rsi .r10 .qword), x64JccLabel .ae nextId] ++
          x64CopyCapField offset 0 ++ [x64StoreCapField offset capLengthOffset .rsi] ++
          x64CopyCapField offset capGenOffset ++ x64CopyCapField offset capPermsOffset ++
          x64EmitCapFailure offset nextId (nextId + 1))
    | none => none
  | _ => none

/-- `x64_lower_instruction`, for the arithmetic, the comparisons, the calls and the capabilities. -/
def x64LowerInstruction (intervals : List X64LiveInterval) (nextId : UInt32) (instr : X64Instr) :
    Option (List Emission) :=
  match instr.opcode with
  | .add | .sub | .mul | .div | .mod | .neg => x64LowerArithmetic intervals nextId instr
  | .eq | .ne | .lt | .le | .gt | .ge | .ult | .ule | .ugt | .uge =>
    some (x64LowerComparison intervals nextId instr)
  | .call | .callIndirect | .syscall => x64LowerControlFlow intervals instr
  | .capLoad | .capStore | .capNarrow | .capSplit => x64LowerCapability intervals nextId instr
  | _ => none

end Seraph
