import RayAdjacency.Tree.Node

/-!
# Node pairs

A search works on pairs of a positive and a negative node. Where both are internal, the pair is
divided into the pairs of their children; where one is, into its children paired with the other
node; two terminal nodes go to the leaf test.

Models `NodePair`, `ChildPairs` and `AdjacentPair`.
-/

namespace RayAdjacency

/-- A pair of nodes that is still to be searched. -/
structure NodePair where
  positive : Node
  negative : Node
deriving Inhabited

/-- A positive and a negative ray, by store index. -/
structure IndexPair where
  positive : Nat
  negative : Nat
deriving Repr, DecidableEq, Inhabited

namespace IndexPair

/-- Whether one pair comes before another, or is the same: by the positive index, then by the
negative one. -/
def before (a b : IndexPair) : Bool :=
  decide (a.positive < b.positive ∨ a.positive = b.positive ∧ a.negative ≤ b.negative)

/-- The pairs in order. -/
def sorted (pairs : List IndexPair) : List IndexPair := pairs.mergeSort before

/-- The pairs in order, each once. -/
def distinct (pairs : List IndexPair) : List IndexPair := (sorted pairs).eraseReps

end IndexPair

/-- What a node contributes to the pairs below it: its children, or itself if it is terminal. -/
def Node.parts (n : Node) : List Node := if n.isInternal then n.children else [n]

/-- The child position of each part of a node; a terminal node has none. -/
def Node.partPositions (n : Node) : List (Option Nat) :=
  if n.isInternal then (List.range n.children.length).map some else [none]

namespace NodePair

/-- The number of zeros that a positive ray and a negative ray below the pair can share at most. -/
def bound (p : NodePair) : Nat := p.positive.union.interCount p.negative.union

/-- Whether one of the nodes is internal. -/
def isInternal (p : NodePair) : Bool := p.positive.isInternal || p.negative.isInternal

/-- Whether one of the nodes holds no ray. -/
def isEmpty (p : NodePair) : Bool := p.positive.isEmpty || p.negative.isEmpty

/-- Whether both nodes are split on one bit: the only case in which threads fork. -/
def isFork (p : NodePair) : Bool := p.positive.isFork && p.negative.isFork

/-- The pairs below, in the order in which they are searched. -/
def children (p : NodePair) : List NodePair :=
  if p.isInternal then
    p.positive.parts.flatMap fun a ↦ p.negative.parts.map fun b ↦ ⟨a, b⟩
  else []

/-- The child positions of the pairs below, in the same order. -/
def childPositions (p : NodePair) : List (Option Nat × Option Nat) :=
  if p.isInternal then
    p.positive.partPositions.flatMap fun i ↦ p.negative.partPositions.map fun j ↦ (i, j)
  else []

end NodePair
end RayAdjacency
