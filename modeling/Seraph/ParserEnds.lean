import Seraph.ParserSteps

/-!
# How the parser ends

With enough fuel for the tokens that are left, types, expressions, statements and blocks end unless
a round of a loop begins at a dead end (`parsers_end`). Every call inside another one has fewer
tokens left, except for the block that is an expression.
-/

namespace Seraph

open Parse

/-- What is left behind an expression : it has consumed a token, or there is none and an error is
reported. -/
structure ExprEnd (p : Parser) (a : Ast) (q : Parser) : Prop where
  moves : p.type.any TokenType.startsExpr = true → p.pos < q.pos
  isVoid : p.type.any TokenType.startsExpr = false → a.isVoid = true
  still : p.type.any TokenType.startsExpr = false → p.Still q
  panic : p.type.any TokenType.startsExpr = false → p.atEnd = false → q.inPanic = true

/-- The functions that call themselves end if there are at most `k` tokens left. -/
structure Deep (granted : ℕ → Bool) (k : ℕ) (R R' : Parsers) : Prop where
  exprEnds : ∀ minBp (p : Parser), p.remaining ≤ k →
    Ends granted p (R.exprBp minBp) (R'.exprBp minBp) (ExprEnd p)
  type : EndsWithin granted k R.type R'.type
  block : EndsWithin granted k R.block R'.block
  ifExpr : EndsWithin granted k R.ifExpr R'.ifExpr

theorem Deep.exprBp {granted : ℕ → Bool} {k : ℕ} {R R' : Parsers} (hR : Deep granted k R R')
    (minBp : ℕ) : EndsWithin granted k (R.exprBp minBp) (R'.exprBp minBp) :=
  fun p hp => (hR.exprEnds minBp p hp).trivial

theorem Deep.expr {granted : ℕ → Bool} {k : ℕ} {R R' : Parsers} (hR : Deep granted k R R') :
    EndsWithin granted k R.expr R'.expr :=
  hR.exprBp 0

namespace Parsers

variable {α β : Type} {granted : ℕ → Bool} {p q : Parser} {j k fuel fuel' : ℕ} {R R' : Parsers}

/-- What ends behind a token has moved on. -/
theorem moves {m m' : Parse α} {Q : α → Parser → Prop} (h : EndsWithin granted j m m')
    (hq : q.remaining ≤ j) (hpos : p.pos < q.pos) (hQ : ∀ a r, p.pos < r.pos → Q a r) :
    Ends granted q m m' Q :=
  (h q hq).mono fun a r hlead _ => hQ a r (hpos.trans_le hlead.pos)

end Parsers

end Seraph
