import RayAdjacency.Pattern

/-!
# Rays

A `Ray` is one generator of the cone. The search only looks at its zero pattern; the identifier and
the coordinates belong to the caller.

Models `Side`, `Column`, and how a `VecColumnStore` numbers the columns that it is made of.
-/

namespace RayAdjacency

/-- On which side of the cutting hyperplane a ray lies. -/
inductive Side where
  | positive
  | zero
  | negative
deriving Repr, DecidableEq

/-- The name of a side. -/
def Side.name : Side → String
  | positive => "positive"
  | zero => "zero"
  | negative => "negative"

/-- One generator of the cone. -/
structure Ray where
  id : Nat
  pattern : Pattern
  values : List Float

namespace Ray

/-- A ray known by its zero pattern alone. -/
def ofPattern (id : Nat) (pattern : Pattern) : Ray := ⟨id, pattern, []⟩

/-- The positions of the coordinates that count as zero: those of magnitude at most `tolerance`. -/
def zeroPositions (values : List Float) (tolerance : Float) : List Nat :=
  (values.zipIdx.filter fun (v, _) ↦ v.abs ≤ tolerance).map Prod.snd

/-- A ray given by its coordinates. -/
def ofValues (id : Nat) (values : List Float) (tolerance : Float) : Outcome Ray := do
  let pattern ← Pattern.ofPositions values.length (zeroPositions values tolerance)
  return ⟨id, pattern, values⟩

/-- Numbers the items of a list from `first`, and makes a ray of each. -/
private def numbered {α : Type} (ray : Nat → α → Outcome Ray) :
    Nat → Nat → List α → Outcome (List Ray)
  | _, _, [] => .ok []
  | first, i, a :: rest => do
    let id ← Outcome.add first i
    let r ← ray id a
    return r :: (← numbered ray first (i + 1) rest)

/-- Rays given by their zero patterns, numbered from `first`. -/
def ofPatterns (first : Nat) (patterns : List Pattern) : Outcome (List Ray) :=
  numbered (fun id p ↦ .ok (ofPattern id p)) first 0 patterns

/-- Rays given by their coordinates, numbered from `first`. -/
def ofRows (first : Nat) (rows : List (List Float)) (tolerance : Float) : Outcome (List Ray) :=
  numbered (fun id values ↦ ofValues id values tolerance) first 0 rows

end Ray
end RayAdjacency
