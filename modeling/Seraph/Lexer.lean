import Seraph.Loops
import Seraph.Token
import Seraph.Words

/-!
# The lexer of Seraphim

From the bytes of a source to its tokens. A token points into the source : `lexeme` is an offset.
The arena answers through `granted`, the k-th request for memory ; what `strtod` makes of a text
is a parameter as well. `examined` is the end of the part of the source that `strtoull` and `strtod`
have looked at. They stop at the first byte that cannot continue the number, with no regard for the
length of the source.
-/

namespace Seraph

/-- `Seraph_Token.value`, with the member that the scanner set. -/
inductive LexValue where
  | unset
  | int (value : UInt64)
  | float (bits : UInt64)
  | string (start len : ℕ)
  | char (value : UInt8)
deriving DecidableEq, Repr

/-- `Seraph_Token` with its pointers into the source. -/
structure LexToken where
  type : TokenType
  loc : SourceLoc
  lexeme : Option ℕ
  lexemeLen : ℕ
  value : LexValue
  numSuffix : NumSuffix
deriving DecidableEq, Repr

/-- `Seraph_Lexer_Diag` : the format of the message and its arguments, or the format alone where
the arena has no room for the message. -/
structure LexerDiag where
  loc : SourceLoc
  format : String
  args : List UInt8
deriving DecidableEq, Repr

/-- What is outside of the lexer : `strtod` from a text to the bits of its value, and whether the
arena grants its k-th request. -/
structure LexEnv where
  strtod : List UInt8 → UInt64
  granted : ℕ → Bool

/-- `Seraph_Lexer`. -/
structure Lexer where
  source : List UInt8
  pos : ℕ
  line : UInt32
  column : UInt32
  tokens : List LexToken
  tokenCapacity : ℕ
  diagnostics : List LexerDiag
  errorCount : ℕ
  hasError : Bool
  requests : ℕ
  examined : ℕ
deriving DecidableEq, Repr

/-- `is_ident_start`. -/
def isIdentStart (c : UInt8) : Bool :=
  ('a'.toUInt8 ≤ c && c ≤ 'z'.toUInt8) || ('A'.toUInt8 ≤ c && c ≤ 'Z'.toUInt8) || c == '_'.toUInt8

/-- `is_digit`. -/
def isDigit (c : UInt8) : Bool :=
  '0'.toUInt8 ≤ c && c ≤ '9'.toUInt8

/-- `is_ident_cont`. -/
def isIdentCont (c : UInt8) : Bool :=
  isIdentStart c || isDigit c

/-- `is_hex_digit`. -/
def isHexDigit (c : UInt8) : Bool :=
  isDigit c || ('a'.toUInt8 ≤ c && c ≤ 'f'.toUInt8) || ('A'.toUInt8 ≤ c && c ≤ 'F'.toUInt8)

/-- `is_binary_digit`. -/
def isBinaryDigit (c : UInt8) : Bool :=
  c == '0'.toUInt8 || c == '1'.toUInt8

/-- The digits of base 8, as `scan_number` tests for them. -/
def isOctalDigit (c : UInt8) : Bool :=
  '0'.toUInt8 ≤ c && c ≤ '7'.toUInt8

/-- `is_whitespace`. -/
def isWhitespace (c : UInt8) : Bool :=
  c == ' '.toUInt8 || c == '\t'.toUInt8 || c == '\r'.toUInt8 || c == '\n'.toUInt8

/-- The byte at an offset, NUL past the end of the source. -/
def byteAt (source : List UInt8) (i : ℕ) : UInt8 :=
  source.getD i 0

namespace Lexer

variable (env : LexEnv) (l : Lexer)

/-- `current`. -/
def current : UInt8 :=
  byteAt l.source l.pos

/-- `peek_at`. -/
def peekAt (offset : ℕ) : UInt8 :=
  byteAt l.source (l.pos + offset)

/-- One round of `advance`. -/
def advanceByte : Lexer :=
  if l.current = '\n'.toUInt8 then { l with line := l.line + 1, column := 1, pos := l.pos + 1 }
  else { l with column := l.column + 1, pos := l.pos + 1 }

/-- `advance`. -/
def advance (l : Lexer) : ℕ → Lexer
  | 0 => l
  | n + 1 => if l.pos < l.source.length then l.advanceByte.advance n else l

/-- `current_loc`. -/
def currentLoc : SourceLoc where
  line := l.line
  column := l.column
  offset := UInt32.ofNat l.pos

/-- `seraph_lexer_error` : a request for the diagnostic, then one for the message. -/
def error (loc : SourceLoc) (format : String) (args : List UInt8) : Lexer :=
  if !env.granted l.requests then { l with hasError := true, requests := l.requests + 1 }
  else
    { l with
      diagnostics :=
        ⟨loc, format, if env.granted (l.requests + 1) then args else []⟩ :: l.diagnostics
      errorCount := l.errorCount + 1
      hasError := true
      requests := l.requests + 2 }

/-- A round of `advanceWhile`. -/
def whileRound (test : UInt8 → Bool) : Option Lexer :=
  if l.pos < l.source.length ∧ test l.current then some (l.advance 1) else none

/-- A `while` loop that calls `advance(lexer, 1)` as long as the current byte passes a test. -/
def advanceWhile (test : UInt8 → Bool) : Lexer :=
  Loops.loop (whileRound · test) (l.source.length + 1) l

/-- A round of the loop over the inside of a block comment, with the depth of nesting. -/
def commentRound : Lexer × ℕ → Option (Lexer × ℕ)
  | (l, depth) =>
    if l.pos < l.source.length ∧ 0 < depth then
      if l.current = '/'.toUInt8 ∧ l.peekAt 1 = '*'.toUInt8 then some (l.advance 2, depth + 1)
      else if l.current = '*'.toUInt8 ∧ l.peekAt 1 = '/'.toUInt8 then
        some (l.advance 2, depth - 1)
      else some (l.advance 1, depth)
    else none

/-- The loop over the inside of a block comment. -/
def blockComment (depth : ℕ) : Lexer × ℕ :=
  Loops.loop commentRound (l.source.length + 1) (l, depth)

/-- A round of `skip_whitespace_and_comments`. -/
def skipRound : Option Lexer :=
  if l.pos < l.source.length then
    if isWhitespace l.current then some (l.advance 1)
    else if l.current = '/'.toUInt8 ∧ l.peekAt 1 = '/'.toUInt8 then
      some ((l.advance 2).advanceWhile fun c => c != '\n'.toUInt8)
    else if l.current = '/'.toUInt8 ∧ l.peekAt 1 = '*'.toUInt8 then
      let (l', depth) := (l.advance 2).blockComment 1
      some (if 0 < depth then l'.error env l.currentLoc "unterminated block comment" [] else l')
    else none
  else none

/-- `skip_whitespace_and_comments`. -/
def skipWhitespaceAndComments : Lexer :=
  Loops.loop (skipRound env) (l.source.length + 1) l

end Lexer

/-- `keywords`. -/
def keywords : List (String × TokenType) := [
  ("fn", .fn), ("let", .let), ("mut", .mut), ("if", .if), ("else", .else), ("for", .for),
  ("while", .while), ("return", .return), ("match", .match), ("in", .in), ("break", .break),
  ("continue", .continue), ("as", .as),
  ("struct", .struct), ("enum", .enum), ("const", .const), ("use", .use), ("foreign", .foreign),
  ("type", .type), ("impl", .impl),
  ("persist", .persist), ("aether", .aetherBlock), ("recover", .recover), ("effects", .effects),
  ("pure", .pure), ("VOID", .effectVoid), ("PERSIST", .effectPersist),
  ("NETWORK", .effectNetwork), ("TIMER", .effectTimer), ("IO", .effectIo),
  ("u8", .u8), ("u16", .u16), ("u32", .u32), ("u64", .u64), ("i8", .i8), ("i16", .i16),
  ("i32", .i32), ("i64", .i64), ("bool", .bool), ("char", .char), ("f32", .f32), ("f64", .f64),
  ("scalar", .scalar), ("dual", .dual), ("galactic", .galactic),
  ("volatile", .volatile), ("atlas", .atlas),
  ("true", .true), ("false", .false), ("void", .voidLit), ("null", .voidLit)]

/-- The bytes of an ASCII text. -/
def asciiBytes (text : String) : List UInt8 :=
  text.toList.map Char.toUInt8

/-- `seraph_lexer_lookup_keyword`. -/
def lookupKeyword (name : List UInt8) : TokenType :=
  match keywords.find? fun entry => asciiBytes entry.1 == name with
  | some entry => entry.2
  | none => .ident

/-- `isspace`. -/
def isSpace (c : UInt8) : Bool :=
  c == ' '.toUInt8 || (9 ≤ c && c ≤ 13)

/-- How many bytes of a sign a text begins with. -/
def signLen (text : List UInt8) : ℕ :=
  if text.head? = some '+'.toUInt8 ∨ text.head? = some '-'.toUInt8 then 1 else 0

/-- A text that begins with `0x`. -/
def hasHexPrefix (text : List UInt8) : Bool :=
  text.head? = some '0'.toUInt8 && (text[1]? = some 'x'.toUInt8 || text[1]? = some 'X'.toUInt8)

/-- The value of a digit, for bases up to 36. -/
def digitValue (c : UInt8) : ℕ :=
  if isDigit c then c.toNat - '0'.toNat
  else if 'a'.toUInt8 ≤ c ∧ c ≤ 'z'.toUInt8 then c.toNat - 'a'.toNat + 10
  else if 'A'.toUInt8 ≤ c ∧ c ≤ 'Z'.toUInt8 then c.toNat - 'A'.toNat + 10
  else 36

/-- `strtoull(text, NULL, base)` : white space, a sign, for base 16 a prefix, and digits. The
value, and how many bytes it looks at, the byte after the last digit among them. -/
def strtoull (text : List UInt8) (base : ℕ) : UInt64 × ℕ :=
  let blanks := (text.takeWhile isSpace).length
  let sign := signLen (text.drop blanks)
  let number := text.drop (blanks + sign)
  let hex := if base = 16 ∧ hasHexPrefix number then 2 else 0
  let digits := (number.drop hex).takeWhile fun c => digitValue c < base
  let magnitude := digits.foldl (fun n c => n * base + digitValue c) 0
  let value :=
    if 2 ^ 64 ≤ magnitude then UInt64.ofNat (2 ^ 64 - 1)
    else if text[blanks]? = some '-'.toUInt8 then 0 - UInt64.ofNat magnitude
    else UInt64.ofNat magnitude
  (value, blanks + sign + hex + digits.length + 1)

/-- How many bytes `strtod` looks at in a text that begins with a digit : the longest part that
begins a number, and the byte after it. -/
def strtodExamined (text : List UInt8) : ℕ :=
  let hex := if hasHexPrefix text then 2 else 0
  let digit := if hasHexPrefix text then isHexDigit else isDigit
  let whole := ((text.drop hex).takeWhile digit).length
  let afterWhole := text.drop (hex + whole)
  let fraction :=
    if afterWhole.head? = some '.'.toUInt8 then 1 + (afterWhole.tail.takeWhile digit).length else 0
  let afterFraction := afterWhole.drop fraction
  let marks := if hasHexPrefix text then asciiBytes "pP" else asciiBytes "eE"
  let exponent :=
    if (∃ mark ∈ marks, afterFraction.head? = some mark) ∧ 0 < whole + (fraction - 1) then
      let sign := signLen afterFraction.tail
      1 + sign + ((afterFraction.tail.drop sign).takeWhile isDigit).length
    else 0
  hex + whole + fraction + exponent + 1

/-- The operators and delimiters of `seraph_lexer_next_token` in the order in which the switch
tests for them, and whether the length of the lexeme is a constant there. The others compute it
from `loc.offset`. -/
def operators : List (String × TokenType × Bool) := [
  ("??", .voidProp, true),
  ("!!", .voidAssert, false), ("!=", .ne, false), ("!", .not, false),
  ("|>", .pipe, false), ("||", .or, false), ("|=", .orAssign, false), ("|", .bitOr, false),
  ("&&", .and, false), ("&=", .andAssign, false), ("&", .bitAnd, false),
  ("==", .eq, false), ("=>", .fatArrow, false), ("=", .assign, false),
  ("->", .arrow, false), ("-=", .minusAssign, false), ("-", .minus, false),
  ("+=", .plusAssign, false), ("+", .plus, false),
  ("*=", .starAssign, false), ("*", .star, false),
  ("/=", .slashAssign, false), ("/", .slash, false),
  ("%=", .percentAssign, false), ("%", .percent, false),
  ("<<", .shl, false), ("<=", .le, false), ("<", .lt, false),
  (">>", .shr, false), (">=", .ge, false), (">", .gt, false),
  ("::", .doubleColon, false), (":", .colon, false),
  ("..=", .rangeIncl, false), ("..", .range, false), (".", .dot, false),
  ("^=", .xorAssign, false), ("^", .bitXor, false), ("~", .bitNot, true),
  ("(", .lparen, true), (")", .rparen, true), ("\x7b", .lbrace, true), ("\x7d", .rbrace, true),
  ("[", .lbracket, true), ("]", .rbracket, true), (";", .semicolon, true), (",", .comma, true),
  ("@", .at, true), ("#", .hash, true)]

/-- The operator that a text begins with. -/
def operatorOf (text : List UInt8) : Option (String × TokenType × Bool) :=
  operators.find? fun entry => (asciiBytes entry.1).isPrefixOf text

namespace Lexer

variable (env : LexEnv) (l : Lexer)

/-- The source from the current byte on. -/
def rest : List UInt8 :=
  l.source.drop l.pos

/-- `scan_identifier`. The counter `len` is the distance moved. -/
def scanIdentifier : LexToken × Lexer :=
  let l' := l.advanceWhile isIdentCont
  let len := l'.pos - l.pos
  ({ type := lookupKeyword (l.rest.take len)
     loc := l.currentLoc
     lexeme := some l.pos
     lexemeLen := len
     value := .unset
     numSuffix := .none }, l')

/-- `parse_num_suffix`. -/
def parseNumSuffix : NumSuffix × Lexer :=
  let c := l.current
  let c2 := l.peekAt 1
  let unsigned := c = 'u'.toUInt8
  if (c = 'u'.toUInt8 ∨ c = 'i'.toUInt8) ∧ c2 = '8'.toUInt8 then
    (if unsigned then .u8 else .i8, l.advance 2)
  else if (c = 'u'.toUInt8 ∨ c = 'i'.toUInt8) ∧ c2 = '1'.toUInt8 ∧ l.peekAt 2 = '6'.toUInt8 then
    (if unsigned then .u16 else .i16, l.advance 3)
  else if (c = 'u'.toUInt8 ∨ c = 'i'.toUInt8) ∧ c2 = '3'.toUInt8 ∧ l.peekAt 2 = '2'.toUInt8 then
    (if unsigned then .u32 else .i32, l.advance 3)
  else if (c = 'u'.toUInt8 ∨ c = 'i'.toUInt8) ∧ c2 = '6'.toUInt8 ∧ l.peekAt 2 = '4'.toUInt8 then
    (if unsigned then .u64 else .i64, l.advance 3)
  else if (c = 'u'.toUInt8 ∨ c = 'i'.toUInt8) ∧ !isIdentCont c2 then
    (if unsigned then .u else .i, l.advance 1)
  else if c = 's'.toUInt8 ∧ !isIdentCont c2 then (.s, l.advance 1)
  else if c = 'd'.toUInt8 ∧ !isIdentCont c2 then (.d, l.advance 1)
  else if c = 'g'.toUInt8 ∧ !isIdentCont c2 then (.g, l.advance 1)
  else (.none, l)

/-- The base that the prefix of a number gives. -/
def numberBase : ℕ :=
  if l.current = '0'.toUInt8 then
    if l.peekAt 1 = 'x'.toUInt8 ∨ l.peekAt 1 = 'X'.toUInt8 then 16
    else if l.peekAt 1 = 'b'.toUInt8 ∨ l.peekAt 1 = 'B'.toUInt8 then 2
    else if l.peekAt 1 = 'o'.toUInt8 ∨ l.peekAt 1 = 'O'.toUInt8 then 8
    else 10
  else 10

/-- The digits of `scan_number` in a base, and the underscore. -/
def isNumberByte (base : ℕ) (c : UInt8) : Bool :=
  (if base = 16 then isHexDigit c
  else if base = 2 then isBinaryDigit c
  else if base = 8 then isOctalDigit c
  else isDigit c) || c == '_'.toUInt8

/-- The prefix and the integer part of a number. NUL is no digit, so that the loops end with the
source. -/
def integerPart : Lexer :=
  (if l.numberBase = 10 then l else l.advance 2).advanceWhile (isNumberByte l.numberBase)

/-- The decimal point and the digits after it. -/
def fractionPart (base : ℕ) : Bool × Lexer :=
  if base = 10 ∧ l.current = '.'.toUInt8 ∧ isDigit (l.peekAt 1) then
    (true, (l.advance 1).advanceWhile (isNumberByte 10))
  else (false, l)

/-- The letter of an exponent and its sign. -/
def exponentMark : Lexer :=
  if (l.advance 1).current = '+'.toUInt8 ∨ (l.advance 1).current = '-'.toUInt8 then
    (l.advance 1).advance 1
  else l.advance 1

/-- The exponent. -/
def exponentPart (loc : SourceLoc) (base : ℕ) : Bool × Lexer :=
  if base = 10 ∧ (l.current = 'e'.toUInt8 ∨ l.current = 'E'.toUInt8) then
    let digits :=
      if isDigit l.exponentMark.current then l.exponentMark
      else l.exponentMark.error env loc "expected exponent digits" []
    (true, digits.advanceWhile (isNumberByte 10))
  else (false, l)

/-- A number up to its suffix, and whether it has a fraction or an exponent. -/
def numberText : Bool × Lexer :=
  let (fraction, l') := l.integerPart.fractionPart l.numberBase
  let (exponent, l') := l'.exponentPart env l.currentLoc l.numberBase
  (fraction || exponent, l')

/-- A number with a fraction, an exponent or one of the suffixes `s`, `d` and `g`. -/
def numberIsFloat : Bool :=
  let (isFloat, l') := l.numberText env
  let suffix := l'.parseNumSuffix.1
  isFloat || suffix = .s || suffix = .d || suffix = .g

/-- Where `strtoull` starts : after the prefix of base 2 and 8. -/
def numstart : ℕ :=
  if l.numberBase = 2 ∨ l.numberBase = 8 then l.pos + 2 else l.pos

/-- The end of what `strtod` or `strtoull` looks at. -/
def conversionEnd : ℕ :=
  if l.numberIsFloat env then l.pos + strtodExamined l.rest
  else l.numstart + (strtoull (l.source.drop l.numstart) l.numberBase).2

/-- `scan_number`. -/
def scanNumber : LexToken × Lexer :=
  let text := (l.numberText env).2
  let suffixed := text.parseNumSuffix
  let value :=
    if l.numberIsFloat env then .float (env.strtod l.rest)
    else .int (strtoull (l.source.drop l.numstart) l.numberBase).1
  ({ type := if l.numberIsFloat env then .floatLiteral else .intLiteral
     loc := l.currentLoc
     lexeme := some l.pos
     lexemeLen := text.pos - l.pos
     value := value
     numSuffix := suffixed.1 },
    { suffixed.2 with examined := max suffixed.2.examined (l.conversionEnd env) })

/-- A round of the loop of `scan_string`, with its counter. A line break ends the loop, with an
error that `stringEnd` reports. -/
def stringRound : Lexer × ℕ → Option (Lexer × ℕ)
  | (l, len) =>
    if l.pos < l.source.length ∧ l.current ≠ '"'.toUInt8 then
      if l.current = '\\'.toUInt8 then
        if (l.advance 1).pos < l.source.length then some ((l.advance 1).advance 1, len + 2)
        else some (l.advance 1, len)
      else if l.current = '\n'.toUInt8 then none
      else some (l.advance 1, len + 1)
    else none

/-- The errors of `scan_string` after its loop, or the closing quote. A line break is reported
twice. -/
def stringEnd (loc : SourceLoc) : Lexer :=
  let broken :=
    if l.current = '\n'.toUInt8 then l.error env loc "unterminated string literal" [] else l
  if l.current = '"'.toUInt8 then broken.advance 1
  else broken.error env loc "unterminated string literal" []

/-- `scan_string`. -/
def scanString : LexToken × Lexer :=
  let loc := l.currentLoc
  let start := (l.advance 1).pos
  let (l', len) := Loops.loop stringRound (l.source.length + 1) (l.advance 1, 0)
  ({ type := .stringLiteral
     loc := loc
     lexeme := some (start - 1)
     lexemeLen := len + 2
     value := .string start len
     numSuffix := .none }, l'.stringEnd env loc)

/-- The escapes of `scan_char`. -/
def escapes : List (Char × Char) :=
  [('n', '\n'), ('r', '\r'), ('t', '\t'), ('\\', '\\'), ('\'', '\''), ('0', '\x00')]

/-- What stands between the quotes of a character : its value and the lexer after it. -/
def charBody (loc : SourceLoc) : UInt8 × Lexer :=
  if l.current = '\\'.toUInt8 then
    let l := l.advance 1
    match escapes.find? fun entry => entry.1.toUInt8 == l.current with
    | some entry => (entry.2.toUInt8, l.advance 1)
    | none =>
      (l.current, (l.error env loc "unknown escape sequence '\\%c'" [l.current]).advance 1)
  else if l.current ≠ '\''.toUInt8 ∧ l.current ≠ '\n'.toUInt8 then (l.current, l.advance 1)
  else (0, l)

/-- `scan_char`. -/
def scanChar : LexToken × Lexer :=
  let loc := l.currentLoc
  let (value, l') := (l.advance 1).charBody env loc
  let final := if l'.current = '\''.toUInt8 then l'.advance 1
    else l'.error env loc "unterminated character literal" []
  ({ type := .charLiteral
     loc := loc
     lexeme := some loc.offset.toNat
     lexemeLen := final.pos - loc.offset.toNat
     value := .char value
     numSuffix := .none }, final)

/-- The operators and delimiters, and the error for any other byte. -/
def scanOperator : LexToken × Lexer :=
  let loc := l.currentLoc
  match operatorOf l.rest with
  | some (text, kind, fixed) =>
    let l' := l.advance text.length
    ({ type := kind
       loc := loc
       lexeme := some loc.offset.toNat
       lexemeLen := if fixed then text.length else l'.pos - loc.offset.toNat
       value := .unset
       numSuffix := .none }, l')
  | none =>
    ({ type := .void, loc := loc, lexeme := none, lexemeLen := 0, value := .unset,
       numSuffix := .none },
      (l.error env loc "unexpected character '%c' (0x%02X)" [l.current, l.current]).advance 1)

/-- A token from a byte that is neither white space nor begins a comment. -/
def scanToken : LexToken × Lexer :=
  if isIdentStart l.current then l.scanIdentifier
  else if isDigit l.current then l.scanNumber env
  else if l.current = '"'.toUInt8 then l.scanString env
  else if l.current = '\''.toUInt8 then l.scanChar env
  else l.scanOperator env

/-- The token at the end of the source. -/
def eofToken : LexToken where
  type := .eof
  loc := l.currentLoc
  lexeme := none
  lexemeLen := 0
  value := .unset
  numSuffix := .none

/-- `seraph_lexer_next_token`. -/
def nextToken : LexToken × Lexer :=
  let l := l.skipWhitespaceAndComments env
  if l.source.length ≤ l.pos then (l.eofToken, l) else l.scanToken env

/-- `add_token`. -/
def addToken (tok : LexToken) : Lexer :=
  if l.tokenCapacity ≤ l.tokens.length then
    if env.granted l.requests then
      { l with
        tokens := l.tokens ++ [tok]
        tokenCapacity := l.tokenCapacity * 2
        requests := l.requests + 1 }
    else { l with hasError := true, requests := l.requests + 1 }
  else { l with tokens := l.tokens ++ [tok] }

/-- `seraph_lexer_init` on a source, where the arena grants the array of tokens. -/
def init (source : List UInt8) : Option Lexer :=
  if env.granted 0 then
    some {
      source := source
      pos := 0
      line := 1
      column := 1
      tokens := []
      tokenCapacity := 256
      diagnostics := []
      errorCount := 0
      hasError := false
      requests := 1
      examined := 0 }
  else none

/-- The result of `seraph_lexer_tokenize` from the lexer that the loop leaves. -/
def tokenizeResult : Vbit :=
  if l.errorCount = 0 then .true else .false

end Lexer

end Seraph
