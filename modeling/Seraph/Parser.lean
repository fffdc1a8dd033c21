import Seraph.Effects

/-!
# The parser of Seraphim

From an array of tokens to the syntax tree. The arena answers through `granted`, the k-th request
for memory. A loop of the source is `repeatWhile`, which notes the place where each of its rounds
begins. The functions that call themselves take fuel : a run that gives no result has used it up.

The main lemma is in the module on how it ends.
-/

namespace Seraph

/-- `Seraph_Parser_Diag`. -/
structure ParserDiag where
  loc : SourceLoc
  message : String
  isError : Bool
deriving DecidableEq, Repr

/-- The loop over declarations, the loop over the statements of a block, or another one. -/
inductive LoopKind where
  | decls | stmts | list
deriving DecidableEq, Repr

/-- A round of a loop and the position at which it begins. -/
structure Round where
  loop : LoopKind
  pos : ℕ
deriving DecidableEq, Repr

/-- `Seraph_Parser`. The last two fields are for the proofs : the requests to the arena and the
rounds that have begun, the latest first. -/
structure Parser where
  tokens : List Token
  pos : ℕ
  diagnostics : List ParserDiag
  errorCount : ℕ
  warningCount : ℕ
  inPanic : Bool
  requests : ℕ
  rounds : List Round
deriving DecidableEq, Repr

namespace Parser

/-- `seraph_parser_init`. -/
def init (tokens : List Token) : Parser :=
  ⟨tokens, 0, [], 0, 0, false, 0, []⟩

/-- `seraph_parser_current`. -/
def current (p : Parser) : Option Token :=
  p.tokens[p.pos]?

/-- `peek`. -/
def peek (p : Parser) (n : ℕ) : Option Token :=
  p.tokens[p.pos + n]?

/-- The type of the current token. -/
def type (p : Parser) : Option TokenType :=
  p.current.map Token.type

/-- `seraph_parser_at_end`. -/
def atEnd (p : Parser) : Bool :=
  p.type = none || p.type = some .eof

/-- `seraph_parser_check`. -/
def check (p : Parser) (ty : TokenType) : Bool :=
  p.type = some ty

/-- `current_loc`. -/
def currentLoc (p : Parser) : SourceLoc :=
  (p.current.map Token.loc).getD .zero

/-- The token before the current one ends a statement. -/
def afterSemicolon (p : Parser) : Bool :=
  p.pos > 0 && p.tokens[p.pos - 1]?.map Token.type = some .semicolon

end Parser

/-- A part of the parser. -/
def Parse (α : Type) : Type :=
  (ℕ → Bool) → Parser → Option α × Parser

instance : Monad Parse where
  pure a := fun _ p => (some a, p)
  bind m f := fun granted p =>
    match m granted p with
    | (some a, q) => f a granted q
    | (none, q) => (none, q)

namespace Parse

variable {α : Type}

/-- The fuel is used up. -/
def noFuel : Parse α := fun _ p => (none, p)

/-- The state of the parser. -/
def get : Parse Parser := fun _ p => (some p, p)

/-- Change the state. -/
def modify (f : Parser → Parser) : Parse Unit := fun _ p => (some (), f p)

/-- `seraph_parser_current`, as a step. -/
def current : Parse (Option Token) := fun _ p => (some p.current, p)

/-- `seraph_parser_check`, as a step. -/
def check (ty : TokenType) : Parse Bool := fun _ p => (some (p.check ty), p)

/-- A request to the arena. -/
def room : Parse Bool := fun granted p =>
  (some (granted p.requests), { p with requests := p.requests + 1 })

/-- A new node, if there is room. -/
def node (ast : Ast) : Parse Ast := do
  if ← room then return ast else return .null

/-- `if (b) x = m;`, where `x` is NULL before. -/
def ifSo (b : Bool) (m : Parse Ast) : Parse Ast :=
  if b then m else return .null

/-- `while (cond) { round }`. A round answers whether it goes on, or breaks. -/
def repeatWhile (kind : LoopKind) (cond : Parser → Bool) (round : α → Parse (α × Bool)) :
    ℕ → α → Parse α
  | 0, _ => noFuel
  | fuel + 1, a => do
    let p ← get
    if cond p then
      modify fun p => { p with rounds := ⟨kind, p.pos⟩ :: p.rounds }
      let next ← round a
      if next.2 then repeatWhile kind cond round fuel next.1 else return next.1
    else return a

/-- `while (!check(p, ty) && !at_end(p)) { round }`. -/
def repeatUntil (ty : TokenType) (round : α → Parse (α × Bool)) (fuel : ℕ) (a : α) : Parse α :=
  repeatWhile .list (fun p => !p.check ty && !p.atEnd) round fuel a

/-! ## Tokens and errors -/

/-- `seraph_parser_advance`. -/
def advance : Parse (Option Token) := fun _ p =>
  if p.atEnd then (some none, p) else (some p.current, { p with pos := p.pos + 1 })

/-- `seraph_parser_match`. -/
def accept (ty : TokenType) : Parse Bool := do
  if ← check ty then
    let _ ← advance
    return true
  else return false

/-- The diagnostic of an error or a warning. -/
def report (isError : Bool) (loc : SourceLoc) (format message : String) : Parse Unit := do
  if ← room then
    let fits ← room
    modify fun p =>
      { p with diagnostics := ⟨loc, if fits then message else format, isError⟩ :: p.diagnostics }

/-- `seraph_parser_error`. -/
def error (loc : SourceLoc) (format message : String) : Parse Unit := do
  let p ← get
  if p.inPanic then return ()
  modify fun p => { p with inPanic := true, errorCount := p.errorCount + 1 }
  report true loc format message

/-- `seraph_parser_warning`. -/
def warning (loc : SourceLoc) (format message : String) : Parse Unit := do
  modify fun p => { p with warningCount := p.warningCount + 1 }
  report false loc format message

/-- `seraph_parser_consume`. -/
def consume (ty : TokenType) (msg : String) : Parse (Option Token) := do
  if ← check ty then advance
  else
    let p ← get
    error p.currentLoc "%s, got %s" (msg ++ ", got " ++ (p.type.map TokenType.typeName).getD "EOF")
    return none

/-- `consume` where only success matters. -/
def consumed (ty : TokenType) (msg : String) : Parse Bool := do
  return (← consume ty msg).isSome

/-- `if (!check(p, close)) { if (!match(p, COMMA)) break; }`. -/
def separator (close : TokenType) : Parse Bool := do
  if ← check close then return true
  accept .comma

end Parse

/-- The declaration keywords at which `seraph_parser_synchronize` stops. -/
def TokenType.isSyncPoint : TokenType → Bool
  | fn | .let | const | struct | enum | use | impl | foreign | type => Bool.true
  | _ => Bool.false

namespace Parse

/-- A round of `seraph_parser_synchronize`. -/
def syncRound : Parse (Unit × Bool) := do
  let p ← get
  if p.afterSemicolon then return ((), false)
  if p.type.any TokenType.isSyncPoint then return ((), false)
  let _ ← advance
  return ((), true)

/-- `seraph_parser_synchronize`. -/
def synchronize (fuel : ℕ) : Parse Unit := do
  modify fun p => { p with inPanic := false }
  repeatWhile .list (fun p => !p.atEnd) (fun _ => syncRound) fuel ()

/-- `if (p->in_panic) seraph_parser_synchronize(p);` -/
def recoverFromPanic (fuel : ℕ) : Parse Unit := do
  let p ← get
  if p.inPanic then synchronize fuel

end Parse

end Seraph
