import RayAdjacency.Store

/-!
# Pattern trees

Every node carries a *union*: the union of the zero patterns of the rays below it. For each ray `r`
under a node with union `u`, the pattern of `r` is a subset of `u`; so the common members of two
unions bound the common zeros of every pair of rays drawn from the two subtrees. That bound is what
licenses skipping whole subtrees.

Nodes are built once and then only read. A terminal node holds its rays by store index.

Models `Node`: `union`, `join`, `joinAll`, `window` and `checkedIndices` are `union_pattern`,
`inter`, `wide`, `ray_range` and `ray_indices`.
-/

namespace RayAdjacency

/-- An element of a pattern tree. -/
inductive Node where
  /-- Two subtrees, split on one bit. -/
  | fork (union : Pattern) (left right : Node)
  /-- Several subtrees, split on several bits at once. -/
  | wide (union : Pattern) (children : List Node)
  /-- The rays of a window of the store. -/
  | leaf (union : Pattern) (start stop : Nat)
  /-- Exactly one ray; its pattern is the union. -/
  | single (union : Pattern) (index : Nat)
  /-- No ray. -/
  | empty (union : Pattern)
deriving Inhabited

namespace Node

/-- The union of the patterns of all rays below the node. -/
def union : Node → Pattern
  | fork u _ _ | wide u _ | leaf u _ _ | single u _ | empty u => u

/-- The subtrees of an internal node. -/
def children : Node → List Node
  | fork _ left right => [left, right]
  | wide _ children => children
  | _ => []

/-- The node without rays for patterns of the given width. -/
def ofNothing (width : Nat) : Node := empty (Pattern.zeros width)

/-- The node over two subtrees. -/
def join (left right : Node) : Node := fork (left.union.union right.union) left right

/-- The node over at least two subtrees. -/
def joinAll : List Node → Outcome Node
  | first :: second :: rest =>
    .ok (wide ((second :: rest).foldl (fun u n ↦ u.absorb n.union) first.union)
      (first :: second :: rest))
  | _ => Outcome.panic "a wide node needs at least two children"

/-- Whether the node is split on one bit. -/
def isFork : Node → Bool
  | fork .. => true
  | _ => false

/-- Whether the node has subtrees rather than rays. -/
def isInternal : Node → Bool
  | fork .. | wide .. => true
  | _ => false

/-- Whether the node is known to hold no ray. -/
def isEmpty : Node → Bool
  | empty _ => true
  | _ => false

mutual
/-- Number of rays below the node. -/
def rayCount : Node → Nat
  | fork _ left right => rayCount left + rayCount right
  | wide _ children => rayCounts children
  | leaf _ start stop => stop - start
  | single .. => 1
  | empty _ => 0

/-- Number of rays below several nodes. -/
def rayCounts : List Node → Nat
  | [] => 0
  | n :: rest => rayCount n + rayCounts rest
end

mutual
/-- Number of nodes on the longest path from the node down. -/
def depth : Node → Nat
  | fork _ left right => 1 + max (depth left) (depth right)
  | wide _ children => 1 + depths children
  | _ => 1

/-- The greatest depth of several nodes. -/
def depths : List Node → Nat
  | [] => 0
  | n :: rest => max (depth n) (depths rest)
end

mutual
/-- Number of nodes of the subtree. -/
def nodeCount : Node → Nat
  | fork _ left right => 1 + nodeCount left + nodeCount right
  | wide _ children => 1 + nodeCounts children
  | _ => 1

/-- Number of nodes of several subtrees. -/
def nodeCounts : List Node → Nat
  | [] => 0
  | n :: rest => nodeCount n + nodeCounts rest
end

/-- The window of the store that a terminal node holds directly. -/
def window : Node → Outcome (Nat × Nat)
  | leaf _ start stop => .ok (start, stop)
  | single _ index => do return (index, ← Outcome.add index 1)
  | _ => .ok (0, 0)

/-- The indices from `start` up to `stop`. -/
def indicesFrom (start stop : Nat) : List Nat := List.range' start (stop - start)

mutual
/-- The store indices of all rays of the subtree, in tree order. -/
def indices : Node → List Nat
  | fork _ left right => indices left ++ indices right
  | wide _ children => indicesAll children
  | leaf _ start stop => indicesFrom start stop
  | single _ index => [index]
  | empty _ => []

/-- The store indices of all rays of several subtrees, in order. -/
def indicesAll : List Node → List Nat
  | [] => []
  | n :: rest => indices n ++ indicesAll rest
end

/-- The number of rays below the node as a count, which has to fit the index type. -/
def checkedRayCount (n : Node) : Outcome Nat := Outcome.add n.rayCount 0

mutual
/-- Whether the window of every terminal node of the subtree lies in the index type. -/
def windowsFit : Node → Outcome Unit
  | fork _ left right => do windowsFit left; windowsFit right
  | wide _ children => windowsFitAll children
  | leaf .. | empty _ => return ()
  | single _ index => do let _ ← Outcome.add index 1

/-- Whether the windows of several subtrees lie in the index type. -/
def windowsFitAll : List Node → Outcome Unit
  | [] => return ()
  | n :: rest => do windowsFit n; windowsFitAll rest
end

/-- The store indices of all rays of the subtree, in a buffer of one word for each. -/
def checkedIndices (n : Node) : Outcome (List Nat) := do
  Outcome.reserve 8 (← n.checkedRayCount)
  n.windowsFit
  return n.indices

/-- Descends along child positions. -/
def descendant? : Node → List Nat → Option Node
  | n, [] => some n
  | n, i :: path => n.children[i]? >>= (descendant? · path)

end Node
end RayAdjacency
