import RayAdjacency.BitOrder
import RayAdjacency.Tree.Node

/-!
# Building pattern trees

`TreeBuilder.grow` partitions a window of a store in place, following a bit order, and returns the
tree over it. A window of no ray, one ray, or not more rays than a leaf may hold becomes terminal.
Any other is split: a binary node on the next bit that separates its rays, a wide node on as many
separating bits as its level allows. A bit that leaves all rays on one side is passed over and
makes no node. Where no bit is left, the rays have equal patterns and become one leaf, whatever
its size.

Each node uses up at least one bit, so the number of remaining bits bounds the depth.

Models `TreeBuilder` and `BuildContext` with their `build`, `build_all` and `terminal`, and the
`split` of `BinaryNodeFactory` and of `WideNodeFactory`, whose `bits_at` is `wideBitsAt`.
-/

namespace RayAdjacency

/-- How trees are built. -/
structure TreeBuilder where
  shape : NodeShape
  maxLeaf : Nat
  /-- The width of the patterns of nodes without rays, and the least width of a leaf's union. -/
  width : Nat

/-- Number of bits on which a wide node of the given level is split: half as many as one level
above, and at least one. -/
def wideBitsAt (bits level : Nat) : Nat := max 1 (max 1 bits >>> min level 63)

namespace TreeBuilder

/-- The terminal node over a window of the store. -/
def terminal (b : TreeBuilder) (start stop : Nat) : StoreM Node :=
  match stop - start with
  | 0 => return Node.ofNothing b.width
  | 1 => do return .single (← Store.read start).pattern start
  | _ => do
    let union ← (Node.indicesFrom start stop).foldlM
      (fun u i ↦ do return u.absorb (← Store.read i).pattern) (Pattern.zeros b.width)
    return .leaf union start stop

/-- Partitions a window on the first bit that separates it. Gives the border of the two parts and
the bits after that bit. -/
def separate (start stop : Nat) : List Nat → StoreM (Option (Nat × List Nat))
  | [] => return none
  | bit :: rest => do
    let border ← Store.partition start stop bit
    if border = start ∨ border = stop then separate start stop rest
    else return some (border, rest)

/-- Partitions each window on a bit. Gives the non-empty parts in order, and whether a window has
been separated. The room that is set aside for the parts, two for each window, is left out: it can be
had for fewer than `2 ^ 58` windows, and there is a ray in each. -/
def refine (bit : Nat) : List (Nat × Nat) → StoreM (List (Nat × Nat) × Bool)
  | [] => return ([], false)
  | (start, stop) :: windows => do
    let border ← Store.partition start stop bit
    let (parts, separated) ← refine bit windows
    let upper := if border < stop then [(border, stop)] else []
    let lower := if start < border then [(start, border)] else []
    return (lower ++ upper ++ parts, separated || (start < border && border < stop))

/-- Partitions windows on bits until `budget` bits have separated one of them. Gives the windows
and the bits left. -/
def refineAll : Nat → List (Nat × Nat) → List Nat → StoreM (List (Nat × Nat) × List Nat)
  | _, windows, [] => return (windows, [])
  | 0, windows, bits => return (windows, bits)
  | budget + 1, windows, bit :: bits => do
    let (parts, separated) ← refine bit windows
    if separated then refineAll budget parts bits else refineAll (budget + 1) windows bits

/-- A window has to lie inside the store. -/
def checkWindow (start stop : Nat) : StoreM Unit := do
  if stop < start then throw (.panicked "inverted ray range")
  else if (← get).size < stop then throw (.panicked "ray range past the end of the store")

/-- The node over a window that holds more rays than a leaf may. `below` gives the trees over its
parts, split on the bits that are left. -/
def divide (b : TreeBuilder) (below : List Nat → Nat → Nat → StoreM Node) (bits : List Nat)
    (level start stop : Nat) : StoreM Node :=
  match b.shape with
  | .binary => do
    match ← separate start stop bits with
    | none => b.terminal start stop
    | some (border, rest) =>
      let left ← below rest start border
      let right ← below rest border stop
      return Node.join left right
  | .wide wideBits => do
    match ← refineAll (wideBitsAt wideBits level) [(start, stop)] bits with
    | (first :: second :: windows, rest) =>
      let children ← (first :: second :: windows).mapM fun (start, stop) ↦ below rest start stop
      liftExcept (Node.joinAll children)
    | _ => b.terminal start stop

/-- The tree over the window from `start` to `stop`, split on `bits`. The fuel is at least the
number of bits. -/
def grow (b : TreeBuilder) : Nat → List Nat → Nat → Nat → Nat → StoreM Node
  | 0, _, _, start, stop => do
    checkWindow start stop
    b.terminal start stop
  | fuel + 1, bits, level, start, stop => do
    checkWindow start stop
    if stop - start ≤ max 1 b.maxLeaf then b.terminal start stop
    else b.divide (fun rest ↦ grow b fuel rest (level + 1)) bits level start stop

/-- The tree over the window from `start` to `stop`, split on the bits of `order` from `firstBit`
on. -/
def build (shape : NodeShape) (maxLeaf : Nat) (order : BitOrder) (start stop firstBit : Nat) :
    StoreM Node :=
  let b : TreeBuilder := ⟨shape, maxLeaf, order.length⟩
  let bits := order.bits.drop firstBit
  b.grow bits.length bits 0 start stop

/-- What is reported when the tree over a whole store has been built. -/
private def builtRecord (shape : NodeShape) (rays : Nat) (tree : Node) : LogRecord where
  level := .debug
  message := "Built pattern tree"
  fields := [("shape", .text shape.name), ("rays", .number rays),
    ("depth", .number tree.depth), ("nodes", .number tree.nodeCount)]

/-- The tree over all rays of a store. -/
def buildAll (shape : NodeShape) (maxLeaf : Nat) (order : BitOrder) :
    StoreM (Node × LogRecord) := do
  let size := (← get).size
  let tree ← build shape maxLeaf order 0 size 0
  return (tree, builtRecord shape size tree)

end TreeBuilder
end RayAdjacency
