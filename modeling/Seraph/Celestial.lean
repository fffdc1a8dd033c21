import Mathlib.Logic.Function.Basic

/-!
# The Celestial intermediate representation

A function is a list of blocks, a block a list of instructions. Values and instructions are objects
at addresses, which the instructions share : a pass changes them in place.

Left out are names, source lines and what only the creation of a module reads. Of a type only its
kind is kept.
-/

namespace Seraph

/-- `Celestial_Value *`, not null. -/
abbrev ValuePtr := UInt64

/-- `Celestial_Instr *`, not null. -/
abbrev InstrPtr := UInt64

/-- `Celestial_Block *`, not null. -/
abbrev BlockPtr := UInt64

/-- `Celestial_Type_Kind`. -/
inductive TypeKind where
  | void | bool
  | i8 | i16 | i32 | i64
  | u8 | u16 | u32 | u64
  | scalar | dual | galactic
  | capability | struct | array | slice | str | enum | function
  | voidable | substrate | pointer
deriving DecidableEq, Repr

/-- The kinds from `CIR_TYPE_I8` to `CIR_TYPE_U64`. -/
def TypeKind.isInteger : TypeKind → Bool
  | i8 | i16 | i32 | i64 | u8 | u16 | u32 | u64 => true
  | _ => false

/-- `Celestial_Value_Kind`. -/
inductive ValueKind where
  | const
  | vreg
  | param
  | global
  | voidConst
  | string
  | fnptr
deriving DecidableEq, Repr

/-- `Celestial_Opcode`. -/
inductive CirOpcode where
  | add | sub | mul | div | mod | neg
  | and | or | xor | not | shl | shr | sar
  | eq | ne | lt | le | gt | ge | ult | ule | ugt | uge
  | voidTest | voidProp | voidAssert | voidCoalesce | voidConst
  | capCreate | capLoad | capStore | capCheck | capNarrow | capSplit | capRevoke
  | load | store | alloca | memcpy | memset
  | substrateEnter | substrateExit
  | atlasLoad | atlasStore | atlasBegin | atlasCommit | atlasRollback
  | aetherLoad | aetherStore | aetherSync
  | jump | branch | switch | call | callIndirect | syscall | tailCall | ret
  | galacticAdd | galacticMul | galacticDiv | galacticPredict | galacticExtract | galacticInsert
  | chrononNow | chrononDelta | chrononBudget | chrononYield
  | trunc | zext | sext | bitcast | toScalar | fromScalar | toGalactic | fromGalactic
  | extractField | insertField | extractElem | insertElem | gep
  | nop | phi | select | unreachable | trap
deriving DecidableEq, Repr

/-- `Celestial_Value` : `constant` is `constant.i64`, `vregDef` is `vreg.def`. -/
structure CirValue where
  kind : ValueKind
  type : TypeKind
  constant : BitVec 64
  vregDef : Option InstrPtr
deriving DecidableEq, Repr

/-- `Celestial_Instr`, with the name of `callee`. -/
structure CirInstr where
  opcode : CirOpcode
  result : Option ValuePtr
  operands : List (Option ValuePtr)
  target1 : Option BlockPtr
  target2 : Option BlockPtr
  callee : Option String
  effects : UInt32
deriving DecidableEq, Repr

/-- `Celestial_Block`. -/
structure CirBlock where
  id : BlockPtr
  instrs : List InstrPtr
deriving DecidableEq, Repr

/-- `Celestial_Function`. -/
structure CirFunction where
  blocks : List CirBlock
  declaredEffects : UInt32
deriving DecidableEq, Repr

/-- The instructions of a function, in the order in which the passes go through them. -/
def CirFunction.instrs (fn : CirFunction) : List InstrPtr :=
  fn.blocks.flatMap CirBlock.instrs

/-- `Celestial_Module`, with the values and the instructions at their addresses. -/
structure CirModule where
  functions : List CirFunction
  values : ValuePtr → CirValue
  instrs : InstrPtr → CirInstr

namespace CirModule

variable (m : CirModule)

/-- The instructions of a module. -/
def instrList : List InstrPtr :=
  m.functions.flatMap CirFunction.instrs

/-- An instruction gets another opcode. -/
def setOpcode (i : InstrPtr) (opcode : CirOpcode) : CirModule :=
  { m with instrs := Function.update m.instrs i { m.instrs i with opcode := opcode } }

variable {m} {i j : InstrPtr} {opcode : CirOpcode}

theorem setOpcode_self :
    (m.setOpcode i opcode).instrs i = { m.instrs i with opcode := opcode } :=
  Function.update_self ..

theorem setOpcode_of_ne (h : j ≠ i) : (m.setOpcode i opcode).instrs j = m.instrs j :=
  Function.update_of_ne h ..

end CirModule

end Seraph
