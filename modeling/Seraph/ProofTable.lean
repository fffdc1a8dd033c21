import Seraph.Ast

/-!
# Proof obligations

The proof table with its counters, and the pass that fills it. The arena from which proofs and
their texts come may run out : `fits n` says whether it has room for the `n`-th request, and a proof
that has no room is dropped.
-/

namespace Seraph

/-- `Seraph_Proof_Kind`. -/
inductive ProofKind where
  | bounds | void | effect | permission | generation | substrate | type | init | overflow | null
  | invariant | termination | voidKind
deriving DecidableEq, Repr

/-- `Seraph_Proof_Status`. -/
inductive ProofStatus where
  | proven | assumed | runtime | failed | skipped
deriving DecidableEq, Repr

/-- What a proof holds for its kind. -/
inductive ProofDetail where
  | none
  | bounds (arraySize indexMin indexMax : UInt64)
  | effects (required allowed : BitVec 32)
deriving DecidableEq, Repr

/-- `Seraph_Proof`. -/
structure Proof where
  kind : ProofKind
  status : ProofStatus
  loc : SourceLoc
  description : Option String
  detail : ProofDetail
deriving DecidableEq, Repr

/-- `Seraph_Proof_Table`, with the number of requests that its arena has got. -/
structure ProofTable where
  proofs : List Proof
  count : ℕ
  provenCount : ℕ
  runtimeCount : ℕ
  failedCount : ℕ
  requests : ℕ
deriving DecidableEq, Repr

namespace ProofTable

/-- `seraph_proof_table_init`. -/
def init : ProofTable :=
  ⟨[], 0, 0, 0, 0, 0⟩

variable (fits : ℕ → Bool) (t : ProofTable)

/-- `seraph_proof_add`. -/
def add (proof : Proof) : ProofTable :=
  let t' := { t with requests := t.requests + 1 }
  if fits t.requests then
    { t' with
      proofs := proof :: t.proofs
      count := t.count + 1
      provenCount := if proof.status = .proven then t.provenCount + 1 else t.provenCount
      runtimeCount := if proof.status = .runtime then t.runtimeCount + 1 else t.runtimeCount
      failedCount := if proof.status = .failed then t.failedCount + 1 else t.failedCount }
  else t'

/-- A proof is added with a text, which is copied into the arena first. -/
def addDescribed (proof : Proof) (desc : String) : ProofTable :=
  { t with requests := t.requests + 1 }.add fits
    { proof with description := if fits t.requests then some desc else none }

/-- `seraph_proof_add_bounds`. -/
def addBounds (loc : SourceLoc) (arraySize indexMin indexMax : UInt64) (status : ProofStatus) :
    ProofTable :=
  t.addDescribed fits ⟨.bounds, status, loc, none, .bounds arraySize indexMin indexMax⟩
    (match status with
    | .proven =>
      if arraySize > 0 ∧ indexMax < arraySize then "array access proven in bounds"
      else "bounds check required"
    | .runtime => "runtime bounds check inserted"
    | _ => "bounds check status unknown")

/-- `seraph_proof_add_void`. -/
def addVoid (loc : SourceLoc) (description : Option String) (status : ProofStatus) : ProofTable :=
  match description with
  | some desc => t.addDescribed fits ⟨.void, status, loc, none, .none⟩ desc
  | none => t.add fits ⟨.void, status, loc, some "VOID handling verified", .none⟩

/-- `seraph_proof_add_effect`. -/
def addEffect (loc : SourceLoc) (required allowed : BitVec 32) (status : ProofStatus) :
    ProofTable :=
  t.add fits ⟨.effect, status, loc,
    some (if required &&& ~~~allowed = 0 then "effects within allowed set"
      else "effect violation detected"), .effects required allowed⟩

/-- `seraph_proof_add_type`. -/
def addType (loc : SourceLoc) (description : Option String) (status : ProofStatus) : ProofTable :=
  match description with
  | some desc => t.addDescribed fits ⟨.type, status, loc, none, .none⟩ desc
  | none => t.add fits ⟨.type, status, loc, some "type constraint satisfied", .none⟩

mutual

/-- `seraph_proof_generate_expr`. -/
def generateExpr (t : ProofTable) : Ast → ProofTable
  | .index loc object i =>
    generateExpr (generateExpr
      (t.addBounds fits loc 0 0 0xFFFFFFFFFFFFFFFF .runtime) object) i
  | .voidProp loc operand _ =>
    generateExpr (t.addVoid fits loc (some "VOID propagated via ??") .proven) operand
  | .voidAssert loc operand =>
    generateExpr (t.addVoid fits loc (some "VOID assertion !! may panic") .runtime) operand
  | .binary loc op left right =>
    generateExpr (generateExpr
      (if op = .slash ∨ op = .percent then
        t.addVoid fits loc (some "division may produce VOID (div by zero)") .runtime
      else t) left) right
  | .call _ callee args => generateExprs (generateExpr t callee) args
  | .block _ stmts expr => generateExpr (generateStmts t stmts) expr
  | .ifExpr _ cond thenBranch elseBranch =>
    generateExpr (generateExpr (generateExpr t cond) thenBranch) elseBranch
  | .matchExpr _ scrutinee arms => generateArms (generateExpr t scrutinee) arms
  | .unary _ _ operand => generateExpr t operand
  | .field _ object _ => generateExpr t object
  | _ => t

/-- The loops over expressions. -/
def generateExprs (t : ProofTable) : List Ast → ProofTable
  | [] => t
  | arg :: args => generateExprs (generateExpr t arg) args

/-- The loop over the arms of a `match`. -/
def generateArms (t : ProofTable) : List Ast → ProofTable
  | [] => t
  | .matchArm _ _ _ body :: arms => generateArms (generateExpr t body) arms
  | _ :: arms => generateArms t arms

/-- `seraph_proof_generate_stmt`. -/
def generateStmt (t : ProofTable) : Ast → ProofTable
  | .exprStmt _ expr => generateExpr t expr
  | .returnStmt _ expr => generateExpr t expr
  | .whileStmt _ cond body => generateStmt (generateExpr t cond) body
  | .forStmt _ _ iterable body => generateStmt (generateExpr t iterable) body
  | .letDecl loc _ _ init _ _ | .constDecl loc _ _ init _ _ =>
    (generateExpr t init).addType fits loc (some "variable initialized at declaration") .proven
  | .block _ stmts expr => generateExpr (generateStmts t stmts) expr
  | .persist loc body =>
    generateStmt (t.add fits ⟨.substrate, .runtime, loc,
      some "persist block requires Atlas transaction", .none⟩) body
  | .aether loc body =>
    generateStmt (t.add fits ⟨.substrate, .runtime, loc,
      some "aether block requires network context", .none⟩) body
  | .recover loc tryBody elseBody =>
    generateStmt (generateStmt
      (t.addVoid fits loc (some "recover block handles VOID values") .proven) tryBody) elseBody
  | _ => t

/-- The loops over statements. -/
def generateStmts (t : ProofTable) : List Ast → ProofTable
  | [] => t
  | stmt :: stmts => generateStmts (generateStmt t stmt) stmts

end

/-- `seraph_proof_generate_fn`. -/
def generateFn : Ast → ProofTable
  | .fnDecl loc _ _ _ body _ isPure _ _ =>
    (t.addEffect fits loc 0 (if isPure then 0 else 0xFF) .proven).generateStmt fits body
  | _ => t

/-- `seraph_proof_generate`. -/
def generate : Ast → ProofTable
  | .module _ decls => decls.foldl (fun t decl => t.generateFn fits decl) t
  | _ => t

end ProofTable

end Seraph
