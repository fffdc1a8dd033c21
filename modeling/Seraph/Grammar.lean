import Seraph.Parser

/-!
# The grammar of Seraphim

The functions of the parser for types, expressions, statements and declarations. Those that are
called from within one another are in `Parsers` ; `parsers fuel` are those of them that go at most
`fuel` calls deep. A node that the parser fills later is built at the end, but asks the arena where
the source does.
-/

namespace Seraph

open Parse

/-- `parse_expr_bp`, `seraph_parse_type`, `seraph_parse_block` and `parse_if_expr`. -/
structure Parsers where
  exprBp : ℕ → Parse Ast
  type : Parse Ast
  block : Parse Ast
  ifExpr : Parse Ast

/-- `seraph_ast_append`. -/
def Ast.append (list : List Ast) : Ast → List Ast
  | .null => list
  | node => list ++ [node]

/-- A test for NULL. -/
def Ast.isNull : Ast → Bool
  | .null => true
  | _ => false

namespace Parsers

variable (R : Parsers)

/-- `seraph_parse_expr`. -/
def expr : Parse Ast :=
  R.exprBp 0

/-! ## Types -/

/-- A round of the loop over the parameters of a function type. -/
def fnTypeParam (params : List Ast) : Parse (List Ast × Bool) := do
  let params := Ast.append params (← R.type)
  return (params, ← separator .rparen)

/-- `fn(A, B, C) -> R`, after `fn`. -/
def fnType (fuel : ℕ) (loc : SourceLoc) : Parse Ast := do
  if !(← room) then return ← node (.void loc)
  if !(← consumed .lparen "expected '(' after 'fn' in type") then return ← node (.void loc)
  let params ← repeatUntil .rparen R.fnTypeParam fuel []
  if !(← consumed .rparen "expected ')' after function parameters") then
    return ← node (.void loc)
  if ← accept .arrow then return .fnType loc params (← R.type)
  return .fnType loc params .null

/-- The substrate of a reference type. -/
def substrate : Parse UInt32 := do
  if ← accept .volatile then return 1
  if ← accept .atlas then return 2
  if ← accept .aether then return 3
  return 0

/-- `&T`, `&mut T`, after `&`. -/
def refType (loc : SourceLoc) : Parse Ast := do
  let isMut ← accept .mut
  let substrate ← substrate
  let inner ← R.type
  node (.refType loc inner isMut substrate)

/-- `[T; N]`, after `[`. -/
def arrayType (loc : SourceLoc) : Parse Ast := do
  let elemType ← R.type
  let size ← ifSo (← accept .semicolon) R.expr
  let _ ← consume .rbracket "expected ']' after array type"
  node (if size.isNull then .sliceType loc elemType else .arrayType loc elemType size)

/-- `seraph_parse_type`. -/
def parseType (fuel : ℕ) : Parse Ast := do
  let some tok ← current | node (.void .zero)
  match tok.type with
  | .voidProp =>
    let _ ← advance
    let inner ← R.type
    node (.voidType tok.loc inner)
  | .fn =>
    let _ ← advance
    R.fnType fuel tok.loc
  | .star =>
    let _ ← advance
    let inner ← R.type
    node (.pointerType tok.loc inner)
  | .bitAnd =>
    let _ ← advance
    R.refType tok.loc
  | .lbracket =>
    let _ ← advance
    R.arrayType tok.loc
  | .u8 | .u16 | .u32 | .u64 | .i8 | .i16 | .i32 | .i64 | .bool | .char | .scalar | .dual
  | .galactic | .f32 | .f64 =>
    let _ ← advance
    node (.primType tok.loc tok.type)
  | .ident =>
    let _ ← advance
    node (.namedType tok.loc tok.lexeme)
  | _ =>
    error tok.loc "expected type" "expected type"
    node (.void tok.loc)

/-! ## Expressions -/

/-- A round of the loops over arguments and over the elements of an array. -/
def argument (close : TokenType) (args : List Ast) : Parse (List Ast × Bool) := do
  let args := Ast.append args (← R.expr)
  return (args, ← separator close)

/-- A round of the loop over the arguments of a method. -/
def methodArgument (args : List Ast) : Parse (List Ast × Bool) := do
  let args := Ast.append args (← R.expr)
  return (args, ← accept .comma)

/-- Field access or a method call, after the dot. -/
def member (fuel : ℕ) (loc : SourceLoc) (lhs : Ast) : Parse (Ast × Bool) := do
  let some fieldTok ← consume .ident "expected field name" | return (lhs, false)
  if ← accept .lparen then
    if !(← room) then return (lhs, false)
    let args ← repeatUntil .rparen R.methodArgument fuel []
    let _ ← consume .rparen "expected ')' after method arguments"
    return (.methodCall loc lhs fieldTok.lexeme args, true)
  else
    return (← node (.field loc lhs fieldTok.lexeme), true)

/-- The right operand of a binary operator or of a range. -/
def rightOperand (op : Token) (lhs : Ast) (rightBp : ℕ) : Parse (Ast × Bool) := do
  let rhs ← R.exprBp rightBp
  if op.type = .range ∨ op.type = .rangeIncl then
    if !(← room) then return (lhs, false)
    return (.range op.loc lhs rhs (op.type = .rangeIncl), true)
  return (← node (.binary op.loc op.type lhs rhs), true)

/-- A binary operator, a cast or a range. -/
def binaryRound (minBp : ℕ) (op : Token) (lhs : Ast) : Parse (Ast × Bool) := do
  let bp := op.type.precedence
  if bp = 0 ∨ bp < minBp then return (lhs, false)
  let _ ← advance
  if op.type = .as then
    let targetType ← R.type
    return (← node (.cast op.loc lhs targetType), true)
  R.rightOperand op lhs (if op.type.isRightAssoc then bp else bp + 1)

/-- A round of the loop of `parse_expr_bp`. -/
def operatorRound (minBp fuel : ℕ) (lhs : Ast) : Parse (Ast × Bool) := do
  let some op ← current | return (lhs, false)
  match op.type with
  | .voidProp =>
    let _ ← advance
    if !(← room) then return (lhs, false)
    return (.voidProp op.loc lhs .null, true)
  | .voidAssert =>
    let _ ← advance
    if !(← room) then return (lhs, false)
    return (.voidAssert op.loc lhs, true)
  | .lparen =>
    let _ ← advance
    if !(← room) then return (lhs, false)
    let args ← repeatUntil .rparen (R.argument .rparen) fuel []
    let _ ← consume .rparen "expected ')' after arguments"
    return (.call op.loc lhs args, true)
  | .dot =>
    let _ ← advance
    R.member fuel op.loc lhs
  | .lbracket =>
    let _ ← advance
    let idx ← R.expr
    let _ ← consume .rbracket "expected ']' after index"
    if !(← room) then return (lhs, false)
    return (.index op.loc lhs idx, true)
  | _ => R.binaryRound minBp op lhs

/-- A round of the loop over the fields of a struct initializer. -/
def fieldInit (fields : List Ast) : Parse (List Ast × Bool) := do
  let some fieldTok ← consume .ident "expected field name" | return (fields, false)
  let _ ← consume .colon "expected ':' after field name"
  let value ← R.expr
  let fields := Ast.append fields (← node (.fieldInit fieldTok.loc fieldTok.lexeme value))
  return (fields, ← separator .rbrace)

/-- The tokens after `Name {` that make it a struct initializer. -/
def startsStructInit (p : Parser) : Bool :=
  p.check .lbrace &&
    ((p.peek 1).any (·.type = .rbrace) ||
      (p.peek 1).any (·.type = .ident) && (p.peek 2).any (·.type = .colon))

/-- A struct initializer, after its name. -/
def structInit (fuel : ℕ) (tok : Token) : Parse Ast := do
  let typePath ← node (.ident tok.loc tok.lexeme)
  let _ ← advance
  if !(← room) then return .null
  let fields ← repeatUntil .rbrace R.fieldInit fuel []
  let _ ← consume .rbrace "expected '\x7d' after struct initializer"
  return .structInit tok.loc typePath fields

/-- An identifier or a struct initializer. -/
def identOrStructInit (fuel : ℕ) (tok : Token) : Parse Ast := do
  let _ ← advance
  if startsStructInit (← get) then R.structInit fuel tok
  else node (.ident tok.loc tok.lexeme)

/-- A round of the loop over the parameters of a closure. -/
def closureParam (params : List Ast) : Parse (List Ast × Bool) := do
  let some paramTok ← consume .ident "expected parameter name" | return (params, false)
  let paramType ← ifSo (← accept .colon) R.type
  let params := Ast.append params (← node (.param paramTok.loc paramTok.lexeme paramType))
  return (params, ← separator .bitOr)

/-- The body of a closure. -/
def closureBody : Parse Ast := do
  if ← check .lbrace then R.block else R.expr

/-- A closure, after the opening `|`. -/
def closure (fuel : ℕ) (loc : SourceLoc) : Parse Ast := do
  if !(← room) then return .null
  let params ← repeatUntil .bitOr R.closureParam fuel []
  if !(← consumed .bitOr "expected '|' after closure parameters") then
    return ← node (.void loc)
  let retType ← ifSo (← accept .arrow) R.type
  let body ← R.closureBody
  return .closure loc params retType body

/-- What follows `else`. -/
def elseBranch : Parse Ast := do
  if ← check .if then R.ifExpr else R.block

/-- `parse_if_expr`. -/
def parseIfExpr : Parse Ast := do
  let some ifTok ← consume .if "expected 'if'" | node (.void (← get).currentLoc)
  let cond ← R.expr
  let thenBranch ← R.block
  let elseBranch ← ifSo (← accept .else) R.elseBranch
  node (.ifExpr ifTok.loc cond thenBranch elseBranch)

/-- The pattern that a token stands for. -/
def patternKind (tok : Token) : PatternKind :=
  match tok.type with
  | .ident => .ident tok.lexeme
  | .intLiteral => .int tok.value.int
  | _ => .other

/-- A round of the loop over the arms of a match. -/
def matchArm (arms : List Ast) : Parse (List Ast × Bool) := do
  if !(← room) then return (arms, false)
  let loc := (← get).currentLoc
  let some patTok ← advance | return (arms, false)
  let _ ← consume .fatArrow "expected '=>' in match arm"
  let body ← R.expr
  if !(← room) then return (arms, false)
  let arms := arms ++ [.matchArm loc (.pattern loc (patternKind patTok)) .null body]
  let _ ← accept .comma
  return (arms, true)

/-- `parse_match_expr`. -/
def parseMatchExpr (fuel : ℕ) : Parse Ast := do
  let some matchTok ← consume .match "expected 'match'" | node (.void (← get).currentLoc)
  let scrutinee ← R.expr
  if !(← room) then return .null
  let _ ← consume .lbrace "expected '\x7b' after match expression"
  let arms ← repeatUntil .rbrace R.matchArm fuel []
  let _ ← consume .rbrace "expected '\x7d' after match arms"
  return .matchExpr matchTok.loc scrutinee arms

/-- `parse_primary`. -/
def parsePrimary (fuel : ℕ) : Parse Ast := do
  let some tok ← current | node (.void .zero)
  match tok.type with
  | .intLiteral =>
    let _ ← advance
    node (.intLit tok.loc tok.value.int tok.numSuffix)
  | .floatLiteral =>
    let _ ← advance
    node (.floatLit tok.loc tok.value.float tok.numSuffix)
  | .stringLiteral =>
    let _ ← advance
    node (.stringLit tok.loc tok.value.string)
  | .charLiteral =>
    let _ ← advance
    node (.charLit tok.loc tok.value.char)
  | .true =>
    let _ ← advance
    node (.boolLit tok.loc true)
  | .false =>
    let _ ← advance
    node (.boolLit tok.loc false)
  | .voidLit =>
    let _ ← advance
    node (.voidLit tok.loc)
  | .ident => R.identOrStructInit fuel tok
  | .lparen =>
    let _ ← advance
    let expr ← R.expr
    let _ ← consume .rparen "expected ')' after expression"
    return expr
  | .lbrace => R.block
  | .if => R.parseIfExpr
  | .match => R.parseMatchExpr fuel
  | .minus | .not | .bitNot | .bitAnd | .star =>
    let _ ← advance
    let operand ← R.exprBp 12
    node (.unary tok.loc tok.type operand)
  | .lbracket =>
    let _ ← advance
    if !(← room) then return .null
    let elements ← repeatUntil .rbracket (R.argument .rbracket) fuel []
    let _ ← consume .rbracket "expected ']' after array elements"
    return .array tok.loc elements
  | .bitOr =>
    let _ ← advance
    R.closure fuel tok.loc
  | _ =>
    error tok.loc "expected expression" "expected expression"
    node (.void tok.loc)

/-- `parse_expr_bp`. -/
def parseExprBp (fuel minBp : ℕ) : Parse Ast := do
  let lhs ← R.parsePrimary fuel
  if lhs.isVoid then return lhs
  repeatWhile .list (fun p => !p.atEnd) (R.operatorRound minBp fuel) fuel lhs

/-! ## Statements -/

/-- The part of `parse_let_decl` after the name. -/
def letRest (loc : SourceLoc) (isMut : Bool) (nameTok : Token) : Parse Ast := do
  if !(← room) then return .null
  let type ← ifSo (← accept .colon) R.type
  let hasInit ← accept .assign
  let init ← ifSo hasInit R.expr
  if !hasInit && type.isNull then
    let msg := "expected '=' in let declaration (type inference requires initializer)"
    error loc msg msg
    return ← node (.void loc)
  let _ ← consume .semicolon "expected ';' after let declaration"
  return .letDecl loc nameTok.lexeme type init isMut false

/-- `parse_let_decl`. -/
def letDecl : Parse Ast := do
  let loc := (← get).currentLoc
  let _ ← accept .let
  let isMut ← accept .mut
  let some nameTok ← consume .ident "expected variable name" | node (.void loc)
  R.letRest loc isMut nameTok

/-- `parse_for_stmt`. -/
def forStmt : Parse Ast := do
  let some forTok ← consume .for "expected 'for'" | node (.void (← get).currentLoc)
  let some varTok ← consume .ident "expected loop variable" | node (.void forTok.loc)
  let _ ← consume .in "expected 'in' after loop variable"
  let iter ← R.expr
  let body ← R.block
  node (.forStmt forTok.loc varTok.lexeme iter body)

/-- `parse_while_stmt`. -/
def whileStmt : Parse Ast := do
  let some whileTok ← consume .while "expected 'while'" | node (.void (← get).currentLoc)
  let cond ← R.expr
  let body ← R.block
  node (.whileStmt whileTok.loc cond body)

/-- `parse_persist_stmt`. -/
def persistStmt : Parse Ast := do
  let some persistTok ← consume .persist "expected 'persist'" | node (.void (← get).currentLoc)
  let body ← R.block
  node (.persist persistTok.loc body)

/-- `parse_aether_stmt`. -/
def aetherStmt : Parse Ast := do
  let some aetherTok ← consume .aetherBlock "expected 'aether'" |
    node (.void (← get).currentLoc)
  let body ← R.block
  node (.aether aetherTok.loc body)

/-- `parse_recover_stmt`. -/
def recoverStmt : Parse Ast := do
  let some recoverTok ← consume .recover "expected 'recover'" | node (.void (← get).currentLoc)
  let tryBody ← R.block
  if !(← consumed .else "expected 'else' after recover block") then
    return ← node (.void recoverTok.loc)
  let elseBody ← R.block
  node (.recover recoverTok.loc tryBody elseBody)

/-- `return`, `break` or `continue`, with its semicolon. -/
def returnStmt (loc : SourceLoc) : Parse Ast := do
  let _ ← advance
  if !(← room) then return .null
  let expr ← ifSo (!(← check .semicolon)) R.expr
  let _ ← consume .semicolon "expected ';' after return"
  return .returnStmt loc expr

/-- `break` or `continue` with its semicolon. -/
def jumpStmt (ast : Ast) (msg : String) : Parse Ast := do
  let _ ← advance
  if !(← room) then return .null
  let _ ← consume .semicolon msg
  return ast

/-- An expression statement. -/
def exprStmt : Parse Ast := do
  let expr ← R.expr
  if expr.isVoid then return expr
  if !(← room) then return .null
  let _ ← consume .semicolon "expected ';' after expression"
  return .exprStmt expr.loc expr

/-- `seraph_parse_stmt`. -/
def parseStmt : Parse Ast := do
  let some tok ← current | return .null
  match tok.type with
  | .let | .const => R.letDecl
  | .return => R.returnStmt tok.loc
  | .break => jumpStmt (.breakStmt tok.loc) "expected ';' after break"
  | .continue => jumpStmt (.continueStmt tok.loc) "expected ';' after continue"
  | .for => R.forStmt
  | .while => R.whileStmt
  | .if => R.parseIfExpr
  | .persist => R.persistStmt
  | .aetherBlock => R.aetherStmt
  | .recover => R.recoverStmt
  | _ => R.exprStmt

/-- `is_stmt_start`. -/
def isStmtStart : TokenType → Bool
  | .let | .const | .return | .break | .continue | .for | .while | .persist | .aetherBlock
  | .recover => true
  | _ => false

/-- The expressions that need no semicolon after them. -/
def needsNoSemicolon : Ast → Bool
  | .ifExpr .. | .matchExpr .. | .block .. | .persist .. | .aether .. | .recover .. => true
  | _ => false

/-- The part of a block behind an expression. -/
def afterExpr (fuel : ℕ) (expr : Ast) (block : List Ast × Ast) :
    Parse ((List Ast × Ast) × Bool) := do
  if ← accept .semicolon then
    if !(← room) then return (block, false)
    return ((block.1 ++ [.exprStmt expr.loc expr], block.2), true)
  if ← check .rbrace then return ((block.1, expr), true)
  if needsNoSemicolon expr then
    if !(← room) then return (block, false)
    return ((block.1 ++ [.exprStmt expr.loc expr], block.2), true)
  error (← get).currentLoc "expected ';' after expression" "expected ';' after expression"
  recoverFromPanic fuel
  return (block, true)

/-- A round of the loop of `seraph_parse_block`. -/
def blockRound (fuel : ℕ) (block : List Ast × Ast) : Parse ((List Ast × Ast) × Bool) := do
  let some tok ← current | return (block, false)
  if isStmtStart tok.type then
    let stmt ← R.parseStmt
    recoverFromPanic fuel
    return (if stmt.isVoid then block else (block.1 ++ [stmt], block.2), true)
  let expr ← R.expr
  if expr.isVoid then
    recoverFromPanic fuel
    return (block, true)
  let next ← afterExpr fuel expr block
  if !next.2 then return next
  recoverFromPanic fuel
  return next

/-- `seraph_parse_block`. -/
def parseBlock (fuel : ℕ) : Parse Ast := do
  let some lbrace ← consume .lbrace "expected '\x7b'" | node (.void (← get).currentLoc)
  if !(← room) then return .null
  let block ← repeatWhile .stmts (fun p => !p.check .rbrace && !p.atEnd) (R.blockRound fuel) fuel
    ([], .null)
  let _ ← consume .rbrace "expected '\x7d' after block"
  return .block lbrace.loc block.1 block.2

/-! ## Declarations -/

/-- A round of the loop over the parameters of a function. -/
def fnParam (params : List Ast) : Parse (List Ast × Bool) := do
  let some paramName ← consume .ident "expected parameter name" | return (params, false)
  if !(← consumed .colon "expected ':' after parameter name") then return (params, false)
  let paramType ← R.type
  let params := Ast.append params (← node (.param paramName.loc paramName.lexeme paramType))
  if ← check .rparen then return (params, true)
  return (params, ← consumed .comma "expected ',' or ')' after parameter")

/-- `parse_fn_decl`. -/
def fnDecl (fuel : ℕ) : Parse Ast := do
  let some fnTok ← consume .fn "expected 'fn'" | node (.void (← get).currentLoc)
  let some nameTok ← consume .ident "expected function name" | node (.void fnTok.loc)
  if !(← room) then return .null
  if !(← consumed .lparen "expected '(' after function name") then
    return ← node (.void fnTok.loc)
  let params ← repeatUntil .rparen R.fnParam fuel []
  if !(← consumed .rparen "expected ')' after parameters") then
    return ← node (.void fnTok.loc)
  let retType ← ifSo (← accept .arrow) R.type
  if ← accept .semicolon then
    return .fnDecl fnTok.loc nameTok.lexeme params retType .null .null false false true
  let body ← R.block
  return .fnDecl fnTok.loc nameTok.lexeme params retType body .null false false false

/-- A round of the loop over the fields of a struct. -/
def structField (fields : List Ast) : Parse (List Ast × Bool) := do
  let some fieldName ← consume .ident "expected field name" | return (fields, false)
  if !(← consumed .colon "expected ':' after field name") then return (fields, false)
  let fieldType ← R.type
  if !(← room) then return (fields, false)
  let fields := fields ++ [.fieldDef fieldName.loc fieldName.lexeme fieldType]
  let _ ← accept .comma
  return (fields, true)

/-- `parse_struct_decl`. -/
def structDecl (fuel : ℕ) : Parse Ast := do
  let some structTok ← consume .struct "expected 'struct'" | node (.void (← get).currentLoc)
  let some nameTok ← consume .ident "expected struct name" | node (.void structTok.loc)
  if !(← room) then return .null
  if !(← consumed .lbrace "expected '\x7b' after struct name") then
    return ← node (.void structTok.loc)
  let fields ← repeatUntil .rbrace R.structField fuel []
  let _ ← consume .rbrace "expected '\x7d' after struct fields"
  return .structDecl structTok.loc nameTok.lexeme fields

/-- The data of a variant, after the opening parenthesis. -/
def variantData : Parse Ast := do
  let data ← R.type
  let _ ← consume .rparen "expected ')' after variant data"
  return data

/-- A round of the loop over the variants of an enum. -/
def enumVariant (variants : List Ast) : Parse (List Ast × Bool) := do
  let some varName ← consume .ident "expected variant name" | return (variants, false)
  if !(← room) then return (variants, false)
  let data ← ifSo (← accept .lparen) R.variantData
  let _ ← accept .comma
  return (variants ++ [.enumVariant varName.loc varName.lexeme data], true)

/-- `parse_enum_decl`. -/
def enumDecl (fuel : ℕ) : Parse Ast := do
  let some enumTok ← consume .enum "expected 'enum'" | node (.void (← get).currentLoc)
  let some nameTok ← consume .ident "expected enum name" | node (.void enumTok.loc)
  if !(← room) then return .null
  if !(← consumed .lbrace "expected '\x7b' after enum name") then
    return ← node (.void enumTok.loc)
  let variants ← repeatUntil .rbrace R.enumVariant fuel []
  let _ ← consume .rbrace "expected '\x7d' after enum variants"
  return .enumDecl enumTok.loc nameTok.lexeme variants

/-- `fn_decl.is_method = 1`. -/
def asMethod : Ast → Ast
  | .fnDecl loc name params retType body effects isPure _ isForward =>
    .fnDecl loc name params retType body effects isPure true isForward
  | ast => ast

/-- A round of the loop over the methods of an `impl`. -/
def implMethod (fuel : ℕ) (methods : List Ast) : Parse (List Ast × Bool) := do
  if !(← check .fn) then
    error (← get).currentLoc "expected 'fn' in impl block" "expected 'fn' in impl block"
    return (methods, false)
  let method ← R.fnDecl fuel
  if method.isVoid then return (methods, false)
  return (methods ++ [asMethod method], true)

/-- `parse_impl_decl`. -/
def implDecl (fuel : ℕ) : Parse Ast := do
  let some implTok ← consume .impl "expected 'impl'" | node (.void (← get).currentLoc)
  let some typeTok ← consume .ident "expected type name after 'impl'" | node (.void implTok.loc)
  let typeNode ← node (.ident typeTok.loc typeTok.lexeme)
  if !(← room) then return .null
  if !(← consumed .lbrace "expected '\x7b' after impl type") then
    return ← node (.void implTok.loc)
  let methods ← repeatUntil .rbrace (R.implMethod fuel) fuel []
  let _ ← consume .rbrace "expected '\x7d' after impl methods"
  return .implDecl implTok.loc typeNode methods

end Parsers

/-! ## Effect annotations -/

namespace Parse

/-- The effect that a name stands for. -/
def namedEffect (lexeme : String) : Option EffectFlags :=
  if lexeme = "void" then some EffectFlags.void
  else if lexeme = "persist" then some EffectFlags.persist
  else if lexeme = "network" then some EffectFlags.network
  else if lexeme = "timer" then some EffectFlags.timer
  else if lexeme = "io" then some EffectFlags.io
  else none

/-- The effect that a token adds, with the diagnostics for a token that is none. -/
def effectOf (tok : Token) : Parse EffectFlags :=
  match tok.type with
  | .effectVoid => return EffectFlags.void
  | .effectPersist => return EffectFlags.persist
  | .effectNetwork => return EffectFlags.network
  | .effectTimer => return EffectFlags.timer
  | .effectIo => return EffectFlags.io
  | .ident =>
    match namedEffect tok.lexeme with
    | some effect => return effect
    | none => do
      warning tok.loc "unknown effect '%.*s'" ("unknown effect '" ++ tok.lexeme ++ "'")
      return EffectFlags.none
  | _ => do
    error tok.loc "expected effect name" "expected effect name"
    return EffectFlags.none

end Parse

/-! ## The module -/

namespace Parsers

variable (R : Parsers)

/-- The bodies of the four functions, with `R` for the calls in them. -/
def step (fuel : ℕ) : Parsers where
  exprBp := R.parseExprBp fuel
  type := R.parseType fuel
  block := R.parseBlock fuel
  ifExpr := R.parseIfExpr

end Parsers

end Seraph
