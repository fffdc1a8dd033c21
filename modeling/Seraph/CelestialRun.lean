import Mathlib.Data.Nat.Notation
import Seraph.Celestial

/-!
# Executions of the intermediate representation

What an instruction does is a parameter (`Meaning`) : it computes a result, goes to another block or
leaves the function, from its operands, from the block that was left last and from memory. A run
goes from instruction to instruction (`CirModule.step`).
-/

namespace Seraph

/-- The `switch` of `has_side_effects`. -/
def CirOpcode.hasSideEffects : CirOpcode → Bool
  | jump | branch | ret | call | callIndirect | syscall | tailCall | trap | unreachable => true
  | store | capStore | atlasStore | aetherStore | memcpy | memset => true
  | substrateEnter | substrateExit | atlasBegin | atlasCommit | atlasRollback | aetherSync => true
  | capRevoke => true
  | _ => false

/-- What an execution shows : writes to memory, calls, traps and everything that can leave a block
or a function. The back ends write to memory for `insertField` and `insertElem`, too. -/
def CirOpcode.isEssential : CirOpcode → Bool
  | voidProp | voidAssert | switch | insertField | insertElem => true
  | op => op.hasSideEffects

/-- What an instruction does. -/
inductive Outcome (V M : Type*) where
  | next (value : V) (memory : M)
  | goto (block : BlockPtr) (memory : M)
  | leave (value : V) (memory : M)

/-- What the instructions mean, for values `V` and a memory `M`. -/
structure Meaning (V M : Type*) where
  const : CirValue → V
  exec : CirInstr → List (Option V) → BlockPtr → M → Outcome V M
  /-- Only essential instructions write to memory or leave the block. -/
  plain : ∀ i os b memory, i.opcode.isEssential = false → ∃ v, exec i os b memory = .next v memory

/-- Where an execution is. -/
structure Point (V M : Type*) where
  block : BlockPtr
  /-- The instructions of the block that are left. -/
  rest : List InstrPtr
  /-- The block before this one. -/
  previous : BlockPtr
  memory : M
  /-- The values computed so far. -/
  env : ValuePtr → V

/-- An execution goes on, has left the function with a value, or has run out of its block. -/
inductive Progress (V M : Type*) where
  | running (point : Point V M)
  | left (value : V) (memory : M)
  | stuck (memory : M)

namespace CirModule

variable {V M : Type*} (m : CirModule) (fn : CirFunction) (meaning : Meaning V M)

/-- The operand of an instruction, where the execution has computed `env`. -/
def operandValue (env : ValuePtr → V) (v : ValuePtr) : V :=
  if (m.values v).kind = .const then meaning.const (m.values v) else env v

/-- The values of the operands, `none` where an operand or its value is missing. -/
def operandValues (env : ValuePtr → V) (i : InstrPtr) : List (Option V) :=
  (m.instrs i).operands.map (Option.map (m.operandValue meaning env))

/-- A block is entered at its first instruction. -/
def enter (block previous : BlockPtr) (memory : M) (env : ValuePtr → V) : Progress V M :=
  match fn.blocks.find? fun b => b.id == block with
  | none => .stuck memory
  | some b => .running ⟨block, b.instrs, previous, memory, env⟩

/-- The values computed once `result` is. -/
def define (env : ValuePtr → V) (result : Option ValuePtr) (value : V) : ValuePtr → V :=
  match result with
  | none => env
  | some v => Function.update env v value

/-- The next instruction. -/
def step (point : Point V M) : Progress V M :=
  match point.rest with
  | [] => .stuck point.memory
  | i :: rest =>
    if (m.instrs i).opcode = .nop then .running { point with rest := rest }
    else
      match meaning.exec (m.instrs i) (m.operandValues meaning point.env i) point.previous
        point.memory with
      | .next value memory =>
        .running { point with
          rest := rest
          memory := memory
          env := define point.env (m.instrs i).result value }
      | .goto block memory => enter fn block point.block memory point.env
      | .leave value memory => .left value memory

/-- An execution of `n` instructions. -/
def runFor : ℕ → Progress V M → Progress V M
  | 0, p => p
  | n + 1, .running point => runFor n (m.step fn meaning point)
  | _ + 1, p => p

end CirModule

/-- What can be seen of an execution : the memory, where it is, and the value it has left with. -/
def Progress.seen {V M : Type*} : Progress V M → Option (BlockPtr × List InstrPtr) × Option V × M
  | .running point => (some (point.block, point.rest), none, point.memory)
  | .left value memory => (none, some value, memory)
  | .stuck memory => (none, none, memory)

end Seraph
