import RayAdjacency.Duration
import RayAdjacency.Tally

/-!
# Reports

What a search that has ended says about itself.

Models `TraversalReport`.
-/

namespace RayAdjacency

/-- The report of a search. -/
structure Report where
  /-- The name of the strategy. -/
  strategy : String
  threads : Nat
  /-- Number of positive rays. -/
  positive : Nat
  /-- Number of negative rays. -/
  negative : Nat
  elapsed : Duration := Duration.zero
  tally : Tally

/-- Number of pairs found. -/
def Report.pairs (r : Report) : Nat := r.tally.pairsEmitted

end RayAdjacency
