import Mathlib.Data.Nat.Notation

/-!
# Tokens of Seraphim

The kinds of tokens with their precedence, and a token as the lexer hands it to the parser. The
value of a literal is kept for integers, strings and characters ; a floating literal is kept as its
64 bits.
-/

namespace Seraph

/-- `Seraph_Token_Type`. -/
inductive TokenType where
  | intLiteral | floatLiteral | stringLiteral | charLiteral | true | false | voidLit
  | fn | let | mut | if | else | for | while | return | match | in | break | continue | as
  | struct | enum | const | use | foreign | type | impl
  | persist | aetherBlock | recover | effects
  | pure | effectVoid | effectPersist | effectNetwork | effectTimer | effectIo
  | u8 | u16 | u32 | u64 | i8 | i16 | i32 | i64 | bool | char | f32 | f64
  | scalar | dual | galactic
  | volatile | atlas | aether
  | voidProp | voidAssert
  | arrow | fatArrow | pipe | doubleColon | range | rangeIncl
  | plus | minus | star | slash | percent
  | eq | ne | lt | gt | le | ge
  | and | or | not | bitAnd | bitOr | bitXor | bitNot | shl | shr
  | assign | plusAssign | minusAssign | starAssign | slashAssign | percentAssign
  | andAssign | orAssign | xorAssign
  | lparen | rparen | lbrace | rbrace | lbracket | rbracket
  | semicolon | colon | comma | dot | ampersand | at | hash
  | ident | eof | void
deriving DecidableEq, Repr

/-- `Seraph_Num_Suffix`. -/
inductive NumSuffix where
  | none | u | i | u8 | u16 | u32 | u64 | i8 | i16 | i32 | i64 | s | d | g | void
deriving DecidableEq, Repr

/-- `Seraph_Source_Loc` in one file. -/
structure SourceLoc where
  line : UInt32
  column : UInt32
  offset : UInt32
deriving DecidableEq, Repr

/-- `(Seraph_Source_Loc){0}`. -/
def SourceLoc.zero : SourceLoc :=
  ⟨0, 0, 0⟩

/-- `Seraph_Token.value`, as the union is read for each type. -/
structure TokenValue where
  int : UInt64
  float : UInt64
  string : String
  char : UInt8
deriving DecidableEq, Repr

/-- `Seraph_Token`. -/
structure Token where
  type : TokenType
  loc : SourceLoc
  lexeme : String
  value : TokenValue
  numSuffix : NumSuffix
deriving DecidableEq, Repr

namespace TokenType

/-- `seraph_token_type_name`. -/
def typeName : TokenType → String
  | .intLiteral => "integer" | .floatLiteral => "float" | .stringLiteral => "string"
  | .charLiteral => "char" | .true => "true" | .false => "false" | .voidLit => "VOID"
  | .fn => "fn" | .let => "let" | .mut => "mut" | .if => "if" | .else => "else" | .for => "for"
  | .while => "while" | .return => "return" | .match => "match" | .in => "in" | .break => "break"
  | .continue => "continue" | .struct => "struct" | .enum => "enum" | .const => "const"
  | .use => "use" | .foreign => "foreign" | .type => "type" | .impl => "impl"
  | .persist => "persist" | .aetherBlock => "aether" | .recover => "recover"
  | .effects => "effects" | .pure => "pure" | .effectVoid => "VOID" | .effectPersist => "PERSIST"
  | .effectNetwork => "NETWORK" | .effectTimer => "TIMER" | .effectIo => "IO" | .u8 => "u8"
  | .u16 => "u16" | .u32 => "u32" | .u64 => "u64" | .i8 => "i8" | .i16 => "i16" | .i32 => "i32"
  | .i64 => "i64" | .bool => "bool" | .char => "char" | .scalar => "scalar" | .dual => "dual"
  | .galactic => "galactic" | .volatile => "volatile" | .atlas => "atlas" | .aether => "aether"
  | .voidProp => "??" | .voidAssert => "!!" | .arrow => "->" | .fatArrow => "=>" | .pipe => "|>"
  | .doubleColon => "::" | .range => ".." | .rangeIncl => "..=" | .plus => "+" | .minus => "-"
  | .star => "*" | .slash => "/" | .percent => "%" | .eq => "==" | .ne => "!=" | .lt => "<"
  | .gt => ">" | .le => "<=" | .ge => ">=" | .and => "&&" | .or => "||" | .not => "!"
  | .bitAnd => "&" | .bitOr => "|" | .bitXor => "^" | .bitNot => "~" | .shl => "<<"
  | .shr => ">>" | .assign => "=" | .plusAssign => "+=" | .minusAssign => "-="
  | .starAssign => "*=" | .slashAssign => "/=" | .percentAssign => "%=" | .andAssign => "&="
  | .orAssign => "|=" | .xorAssign => "^=" | .lparen => "(" | .rparen => ")" | .lbrace => "\x7b"
  | .rbrace => "\x7d" | .lbracket => "[" | .rbracket => "]" | .semicolon => ";" | .colon => ":"
  | .comma => "," | .dot => "." | .ampersand => "&" | .at => "@" | .hash => "#"
  | .ident => "identifier" | .eof => "end of file" | .void => "<invalid>"
  | .as | .f32 | .f64 => "<unknown>"

/-- `seraph_token_precedence`. -/
def precedence : TokenType → ℕ
  | assign | plusAssign | minusAssign | starAssign | slashAssign | percentAssign
  | andAssign | orAssign | xorAssign => 1
  | or => 2
  | and => 3
  | bitOr => 4
  | bitXor => 5
  | bitAnd => 6
  | eq | ne => 7
  | lt | gt | le | ge => 8
  | shl | shr => 9
  | plus | minus => 10
  | star | slash | percent => 11
  | not | bitNot => 12
  | as => 12
  | dot => 13
  | voidProp | voidAssert => 14
  | pipe => 15
  | range | rangeIncl => 2
  | _ => 0

/-- `seraph_token_is_right_assoc`. -/
def isRightAssoc : TokenType → Bool
  | assign | plusAssign | minusAssign | starAssign | slashAssign | percentAssign
  | andAssign | orAssign | xorAssign => Bool.true
  | voidProp => Bool.true
  | _ => Bool.false

end TokenType

end Seraph
