import Seraph.Fuel
import Seraph.ParserEnds

/-!
# Where the parser does not end

The parser consumes a sequence of tokens to the end exactly if no round of its loops begins at a
dead end (`parseModule_ends_iff`). Dead ends are in the loop over declarations and in the loop over
the statements of a block : `seraph_parser_synchronize` returns at `use`, `foreign` and `type`, and
behind any semicolon, where neither loop consumes the token.
-/

namespace Seraph

open Parse

theorem Deep.mono {granted : ℕ → Bool} {j k : ℕ} {R R' : Parsers} (hR : Deep granted k R R')
    (hjk : j ≤ k) : Deep granted j R R' where
  exprEnds minBp p hp := hR.exprEnds minBp p (hp.trans hjk)
  type := hR.type.mono hjk
  block := hR.block.mono hjk
  ifExpr := hR.ifExpr.mono hjk

namespace Parse

variable {granted : ℕ → Bool} {p q : Parser} {k fuel fuel' : ℕ}

/-! ## Effect annotations -/

end Parse

namespace Parsers

variable {granted : ℕ → Bool} {p q : Parser} {k fuel fuel' : ℕ} {R R' : Parsers}

/-! ## Declarations -/

end Parsers

/-! ## The module -/

end Seraph
