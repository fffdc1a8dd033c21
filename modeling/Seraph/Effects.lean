import Seraph.Ast
import Seraph.Words

/-!
# Effects of Seraphim functions

Effect inference over expressions, statements and blocks, and the check of a function against the
effects that it declares. A result `none` is undefined behaviour : for a method call, the code reads
the name of the method as the list of arguments.
-/

namespace Seraph

/-- `Seraph_Effect_Flags`. -/
abbrev EffectFlags := BitVec 32

namespace EffectFlags

/-- `SERAPH_EFFECT_NONE` : a pure function. -/
def none : EffectFlags := 0x00

/-- `SERAPH_EFFECT_VOID`. -/
def void : EffectFlags := 0x01

/-- `SERAPH_EFFECT_PERSIST`. -/
def persist : EffectFlags := 0x02

/-- `SERAPH_EFFECT_NETWORK`. -/
def network : EffectFlags := 0x04

/-- `SERAPH_EFFECT_TIMER`. -/
def timer : EffectFlags := 0x08

/-- `SERAPH_EFFECT_IO`. -/
def io : EffectFlags := 0x10

/-- `SERAPH_EFFECT_ALL`. -/
def all : EffectFlags := 0xFF

/-- `seraph_effect_subset`. -/
def subset (sub super : EffectFlags) : Bool :=
  sub &&& ~~~super = 0

/-- `seraph_effect_print`. -/
def print (set : EffectFlags) : String :=
  if set = none then "[pure]"
  else if set = all then "[unsafe]"
  else
    let names := [(void, "VOID"), (persist, "PERSIST"), (network, "NETWORK"), (timer, "TIMER"),
      (io, "IO")].filter fun name => set &&& name.1 ≠ 0
    "effects(" ++ ", ".intercalate (names.map Prod.snd) ++ ")"

/-- `seraph_effect_for_operator`. -/
def forOperator : TokenType → EffectFlags
  | .slash | .percent => void
  | .lbracket => void
  | .voidProp | .voidAssert => void
  | _ => none

end EffectFlags

/-- `Seraph_Effect_Diag`. -/
structure EffectDiag where
  loc : SourceLoc
  message : String
  required : EffectFlags
  allowed : EffectFlags
deriving DecidableEq, Repr

/-- `Seraph_Effect_Context`, without the arena. The stack holds `allowed` and `inferred` of the
functions around the current one. -/
structure EffectContext where
  allowed : EffectFlags
  inferred : EffectFlags
  fnStack : List (EffectFlags × EffectFlags)
  diagnostics : List EffectDiag
  errorCount : ℕ
deriving DecidableEq, Repr

/-- A function on the context that may be undefined. -/
abbrev EffectM := StateT EffectContext Option

namespace EffectContext

variable (ctx : EffectContext)

/-- `seraph_effect_context_init`. -/
def init : EffectContext :=
  ⟨.all, .none, [], [], 0⟩

/-- The depth of `fn_stack`. -/
def maxDepth : ℕ := 32

/-- `seraph_effect_enter_fn`. -/
def enterFn (declared : EffectFlags) : EffectContext :=
  if ctx.fnStack.length ≥ maxDepth then ctx
  else
    { ctx with
      fnStack := (ctx.allowed, ctx.inferred) :: ctx.fnStack
      allowed := declared
      inferred := .none }

/-- `seraph_effect_exit_fn`. -/
def exitFn : Vbit × EffectContext :=
  match ctx.fnStack with
  | [] => (.void, ctx)
  | (allowed, inferred) :: rest =>
    (if ctx.inferred.subset ctx.allowed then .true else .false,
      { ctx with fnStack := rest, allowed := allowed, inferred := inferred })

/-- `seraph_effect_add`. -/
def add (effect : EffectFlags) : EffectContext :=
  { ctx with inferred := ctx.inferred ||| effect }

/-- `seraph_effect_check`. -/
def check (effect : EffectFlags) : Vbit :=
  if effect.subset ctx.allowed then .true else .false

/-- `seraph_effect_violation`. -/
def violation (loc : SourceLoc) (required allowed : EffectFlags) : EffectContext :=
  { ctx with
    errorCount := ctx.errorCount + 1
    diagnostics :=
      ⟨loc, "effect violation: " ++ required.print ++ " required but only " ++ allowed.print ++
        " allowed", required, allowed⟩ :: ctx.diagnostics }

/-- `seraph_effect_error`. -/
def error (loc : SourceLoc) (message : String) : EffectContext :=
  { ctx with
    errorCount := ctx.errorCount + 1
    diagnostics := ⟨loc, message, .none, .none⟩ :: ctx.diagnostics }

end EffectContext

namespace Effects

/-- The end of `seraph_effect_infer_expr`. -/
def conclude (loc : SourceLoc) (effects : EffectFlags) : EffectM EffectFlags := fun ctx =>
  let ctx := ctx.add effects
  some (effects, if ctx.check effects = .true then ctx else ctx.violation loc effects ctx.allowed)

/-- The effects of a callee, `seraph_effect_from_fn_type` of the type that it has in the type
context. Without a type context, nothing is looked up. -/
def calleeEffects (types : Option (Ast → EffectFlags)) (callee : Ast) : EffectFlags :=
  match types with
  | none => .none
  | some effects => effects callee

variable (types : Option (Ast → EffectFlags))

mutual

/-- `seraph_effect_infer_expr`. -/
def inferExpr : Ast → EffectM EffectFlags
  | .null | .void _ => pure .none
  | .voidLit loc => conclude loc .void
  | .binary loc op left right => do
    let effects ← inferExpr left
    let effects := effects ||| (← inferExpr right)
    conclude loc (effects ||| .forOperator op)
  | .unary loc op operand => do
    let effects ← inferExpr operand
    conclude loc (effects ||| .forOperator op)
  | .voidProp loc operand _ => do
    let effects ← inferExpr operand
    conclude loc (effects ||| .void)
  | .voidAssert loc operand => do
    let effects ← inferExpr operand
    conclude loc (effects ||| .void)
  | .call loc callee args => do
    let effects ← inferExpr callee
    let effects := effects ||| calleeEffects types callee
    let effects ← inferExprs effects args
    conclude loc effects
  -- `call.args` is where a method call has `method`, the text of its name
  | .methodCall .. => fun _ => none
  | .field loc object _ => do
    let effects ← inferExpr object
    conclude loc effects
  | .index loc object i => do
    let effects ← inferExpr object
    let effects := effects ||| (← inferExpr i)
    conclude loc (effects ||| .void)
  | .block loc stmts expr => do
    let effects ← inferStmts .none stmts
    let effects := effects ||| (← inferExpr expr)
    conclude loc effects
  | .ifExpr loc cond thenBranch elseBranch => do
    let effects ← inferExpr cond
    let effects := effects ||| (← inferBlock thenBranch)
    let effects := effects ||| (← inferBlock elseBranch)
    conclude loc effects
  | .matchExpr loc scrutinee arms => do
    let effects ← inferExpr scrutinee
    let effects ← inferArms effects arms
    conclude loc effects
  | .range loc start stop _ => do
    let effects ← inferExpr start
    let effects := effects ||| (← inferExpr stop)
    conclude loc effects
  | node => conclude node.loc .none

/-- The loops over operands. -/
def inferExprs (effects : EffectFlags) : List Ast → EffectM EffectFlags
  | [] => pure effects
  | arg :: args => do
    let effects := effects ||| (← inferExpr arg)
    inferExprs effects args

/-- The arms of a `match` ; the parser puts nothing else into the list. -/
def inferArms (effects : EffectFlags) : List Ast → EffectM EffectFlags
  | [] => pure effects
  | .matchArm _ _ _ body :: arms => do
    let effects := effects ||| (← inferBlock body)
    inferArms effects arms
  | _ :: arms => inferArms effects arms

/-- `seraph_effect_infer_stmt`. -/
def inferStmt : Ast → EffectM EffectFlags
  | .exprStmt _ expr => inferExpr expr
  | .returnStmt _ expr => inferExpr expr
  | .whileStmt _ cond body => do
    let effects ← inferExpr cond
    return effects ||| (← inferBlock body)
  | .forStmt _ _ iterable body => do
    let effects ← inferExpr iterable
    return effects ||| (← inferBlock body)
  | .letDecl _ _ _ init _ _ | .constDecl _ _ _ init _ _ => inferExpr init
  | _ => pure .none

/-- The loops over statements. -/
def inferStmts (effects : EffectFlags) : List Ast → EffectM EffectFlags
  | [] => pure effects
  | stmt :: stmts => do
    let effects := effects ||| (← inferStmt stmt)
    inferStmts effects stmts

/-- `seraph_effect_infer_block`. -/
def inferBlock : Ast → EffectM EffectFlags
  | .block _ stmts expr => do
    let effects ← inferStmts .none stmts
    return effects ||| (← inferExpr expr)
  | _ => pure .none

end

/-- `effects_from_ast`. -/
def effectsFromAst (effects : Ast) (isPure : Bool) : EffectFlags :=
  if isPure then .none
  else
    match effects with
    | .null => .all
    | .effectList _ flags => flags
    | _ => .all

/-- `seraph_effect_check_fn`. -/
def checkFn : Ast → EffectM Vbit
  | .fnDecl loc name _ _ body effects isPure _ _ => do
    let declared := effectsFromAst effects isPure
    modify (·.enterFn declared)
    let _ ← inferBlock types body
    let result ← modifyGet EffectContext.exitFn
    if result ≠ .true then
      modify fun ctx => ctx.error loc ("function '" ++ name ++ "' declares " ++ declared.print ++
        " but has " ++ ctx.inferred.print)
    return result
  | _ => pure .void

/-- `seraph_effect_check_module`. -/
def checkModule : Ast → EffectM Vbit
  | .module _ decls =>
    decls.foldlM (fun result decl => do
      match decl with
      | .fnDecl .. => return if (← checkFn types decl) = .true then result else .false
      | _ => return result) .true
  | _ => pure .void

end Effects

end Seraph
