import RayAdjacency.LeafTest

/-!
# Visits

A `Visit` goes through a root by hand: it asks the gate about node pairs, keeps those it has
entered until it leaves them, the last one first, and collects candidates of its own for the
filter.

Models the `enter` of a `Root` and the drop of an `EnteredPair`.
-/

namespace RayAdjacency

/-- What a visit has counted, entered and collected. -/
structure Visit where
  tally : Tally := {}
  /-- The node pairs that are still to be left, the last one first. -/
  entered : List NodePair := []
  candidates : Candidates := {}

namespace Visit

/-- Asks whether a node pair is admitted. -/
def ask (v : Visit) (r : Root) (p : NodePair) : Bool × Visit :=
  let (admitted, tally) := r.enter p v.tally
  (admitted, { v with tally })

/-- Enters a node pair, if it is admitted. -/
def enter (v : Visit) (r : Root) (p : NodePair) : Bool × Visit :=
  let (admitted, v) := v.ask r p
  (admitted, if admitted then { v with entered := p :: v.entered } else v)

/-- Leaves a node pair. -/
def leave (v : Visit) (r : Root) (p : NodePair) : Outcome Visit := do
  return { v with tally := ← r.leave p v.tally }

/-- Leaves the node pair entered last; tells whether there was one. -/
def leaveLast (v : Visit) (r : Root) : Outcome (Bool × Visit) :=
  match v.entered with
  | [] => .ok (false, v)
  | p :: entered => do return (true, ← leave { v with entered } r p)

/-- Leaves all node pairs, the last one first. -/
def leaveAll (v : Visit) (r : Root) : Outcome Visit :=
  v.entered.foldlM (fun v p ↦ v.leave r p) { v with entered := [] }

/-- Collects a pair of rays with the zeros that they share. -/
def push (v : Visit) (c : Candidate) : Visit := { v with candidates := v.candidates.push c }

/-- Filters the candidates. Those removed before a failure stay removed. -/
def filter (v : Visit) (site : SearchSite) : Outcome Unit × Visit :=
  let batch : Batch := { candidates := v.candidates, tally := v.tally }
  let (outcome, batch) := (Batch.filter site {}).run.run batch
  (outcome, { v with candidates := batch.candidates, tally := batch.tally })

end Visit
end RayAdjacency
