import RayAdjacency.NodePair
import RayAdjacency.Tally
import RayAdjacency.Tree.Build

/-!
# Roots and the gate

A `Root` holds what one iteration step searches: the trees over the positive, the negative and the
zero rays, the bit order they were built with, and the threshold.

A node pair passes the gate if the bound on the zeros shared below it meets the threshold; whoever
enters a pair leaves it once. A pair that does not pass has no adjacent rays below it.

`Root.build` computes the bit order, then builds the three trees, partitioning the stores in place.

Models `Root` with its `build`, `enter_if_candidates` and `leave`.
-/

namespace RayAdjacency

/-- The trees and the threshold of one iteration step. -/
structure Root where
  positive : Node
  negative : Node
  zero : Node
  order : BitOrder
  threshold : Threshold

namespace Root

/-- The tree of one side. -/
def tree (r : Root) : Side → Node
  | .positive => r.positive
  | .negative => r.negative
  | .zero => r.zero

/-- The pair of trees that a search starts from. -/
def start (r : Root) : NodePair := ⟨r.positive, r.negative⟩

/-- Whether a node pair passes the gate. -/
def admits (r : Root) (p : NodePair) : Bool := r.threshold.isMetBy p.bound

/-- Asks to enter a node pair. -/
def enter (r : Root) (p : NodePair) (t : Tally) : Bool × Tally :=
  let t := t.bump .enterCalls
  if r.admits p then (true, t) else (false, t.bump .pruned)

/-- Leaves a node pair, which has to have passed the gate. -/
def leave (r : Root) (p : NodePair) (t : Tally) : Outcome Tally :=
  if r.admits p then .ok (t.bump .leaves)
  else Outcome.panic "leave() for a node pair that never entered"

end Root

/-- The stores during a build, with the records written so far. -/
structure BuildSite where
  stores : Stores
  log : Array LogRecord := #[]

/-- A computation that builds trees over the three stores. -/
abbrev BuildM (α : Type) := ExceptT Stop (StateM BuildSite) α

namespace BuildSite

/-- Writes a record. -/
def note (record : LogRecord) : BuildM Unit :=
  modify fun site ↦ { site with log := site.log.push record }

/-- Runs a computation on the stores. -/
def onStores {α : Type} (m : StoresM α) : BuildM α := do
  let site ← get
  let (result, stores) := m.run.run site.stores
  set { site with stores }
  liftExcept result

end BuildSite

namespace Root

/-- Builds the tree over the store of one side. -/
def buildSide (config : Config) (order : BitOrder) (side : Side) : BuildM Node := do
  let (tree, record) ← BuildSite.onStores
    (Stores.on side (TreeBuilder.buildAll config.shape config.maxLeaf order))
  BuildSite.note record
  return tree

/-- What is reported when a root has been built. -/
def builtRecord (r : Root) (width : Nat) : LogRecord where
  level := .debug
  message := "Built adjacency root"
  fields := [("width", .number width), ("positive", .number r.positive.rayCount),
    ("negative", .number r.negative.rayCount), ("zero", .number r.zero.rayCount),
    ("required_zero_bits", .number r.threshold.required)]

/-- Builds the three trees for a given bit order. -/
def buildTrees (config : Config) (threshold : Threshold) (order : BitOrder) : BuildM Root := do
  let positive ← buildSide config order .positive
  let negative ← buildSide config order .negative
  let zero ← buildSide config order .zero
  return { positive, negative, zero, order, threshold }

/-- Computes the bit order and builds the three trees. -/
def build (config : Config) (threshold : Threshold) : BuildM Root := do
  liftExcept config.validate
  let width ← BuildSite.onStores Stores.patternWidth
  let (order, records) ← BuildSite.onStores
    (config.order.order width (Stores.readPatterns [.positive, .negative]))
  records.forM BuildSite.note
  let root ← buildTrees config threshold order
  BuildSite.note (root.builtRecord width)
  return root

end Root
end RayAdjacency
