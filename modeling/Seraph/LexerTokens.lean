import Seraph.LexerBlanks

/-!
# What the scanners cover

Each scanner moves the lexer forward in the source (`Scans`). Where the token is clean (`Clean`),
its lexeme covers what was scanned (`scanToken_spec`).
-/

namespace Seraph

open Relation

variable (source : List UInt8)

/-- A string that is open at `p` and runs to the end of the source. A backslash that is the last
byte is not part of it. -/
inductive OpenString : ℕ → Prop where
  | ended : OpenString source.length
  | escape {p : ℕ} : byteAt source p = '\\'.toUInt8 → p + 2 ≤ source.length →
      OpenString (p + 2) → OpenString p
  | text {p : ℕ} : p < source.length → byteAt source p ≠ '"'.toUInt8 →
      byteAt source p ≠ '\\'.toUInt8 → byteAt source p ≠ '\n'.toUInt8 →
      OpenString (p + 1) → OpenString p

/-- The byte at `p` starts no token and no blank. -/
structure Rejected (p : ℕ) : Prop where
  inside : p < source.length
  notWhite : isWhitespace (byteAt source p) = false
  notIdent : isIdentStart (byteAt source p) = false
  notDigit : isDigit (byteAt source p) = false
  notString : byteAt source p ≠ '"'.toUInt8
  notChar : byteAt source p ≠ '\''.toUInt8
  notOperator : operatorOf (source.drop p) = none

/-- The bytes from `p` on that a token covers reach to `q`, where the lexer goes on, or take in the
line break at `q`. -/
structure Covers (p q : ℕ) (tok : LexToken) : Prop where
  lexeme : tok.lexeme = some p
  inside : p + tok.lexemeLen ≤ source.length
  resumes : p + tok.lexemeLen = q ∨ p + tok.lexemeLen = q + 1 ∧ byteAt source q = '\n'.toUInt8

variable {source}

theorem Rejected.stuck {p : ℕ} (h : Rejected source p) : Stuck source p := by
  refine stuck_of_byteAt h.notWhite fun hslash => ?_
  have hlt := h.inside
  have hdrop : source.drop p = source[p] :: source.drop (p + 1) := List.drop_eq_getElem_cons hlt
  have hhead : source[p] = '/'.toUInt8 := by
    rw [byteAt, List.getD_eq_getElem _ _ hlt] at hslash
    exact hslash
  have hnone := List.find?_eq_none.mp h.notOperator ("/", .slash, false) (by decide)
  rw [hdrop, hhead] at hnone
  exact hnone rfl

namespace Lexer

variable (env : LexEnv) (ends : ℕ → Prop)

/-- A token that `l` is about to scan and that the lexer does not lose track of : a number has no
suffix and its conversion stops inside of the source, a string does not run to the end of the
source, and a token whose lexeme is computed from `loc.offset` starts below 4 GiB. -/
structure Clean (l : Lexer) : Prop where
  unsuffixed : isDigit l.current → (l.numberText env).2.parseNumSuffix.1 = .none
  converted : isDigit l.current → l.conversionEnd env ≤ l.source.length
  closed : l.current = '"'.toUInt8 → ¬OpenString l.source (l.pos + 1)
  near : l.current = '\''.toUInt8 ∨ (operatorOf l.rest).isSome → l.pos < 2 ^ 32
  rejected : Rejected l.source l.pos → ends (l.pos + 1)

variable {env ends} {l l' : Lexer}

theorem Moves.advanceWhile (h : l.Moves l') (test : UInt8 → Bool)
    (hin : l.pos ≤ l.source.length) : l.Moves (l'.advanceWhile test) :=
  h.trans (advanceWhile_spec l' test (h.source ▸ h.inside hin)).1

end Lexer

end Seraph
