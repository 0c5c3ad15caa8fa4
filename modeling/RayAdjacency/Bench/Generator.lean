import RayAdjacency.Random.Draw
import RayAdjacency.Store

/-!
# Generated rays

Rays for benchmarks, drawn from a `RayModel`. The draws of one generator follow each other in a
fixed order, so a seed and a sequence of requests determine all rays.

Models `PatternModel` and `DataGen`.
-/

namespace RayAdjacency

/-- How zero patterns are drawn. -/
inductive RayModel where
  /-- Every position belongs to the pattern with the same probability. -/
  | uniform (density : Float)
  /-- Patterns differ from one of a few random prototypes by noise at each position. -/
  | clustered (prototypes : Nat) (density noise : Float)
  /-- Coordinates are drawn, each near zero with the same probability; the patterns follow. -/
  | coordinates (density : Float)

namespace Generator

/-- The identifier of the first positive ray. -/
def positiveFirst : Nat := 0

/-- The identifier of the first negative ray. -/
def negativeFirst : Nat := 0x100000000

/-- The identifier of the first zero ray. -/
def zeroFirst : Nat := 0x200000000

/-- Bytes that a pattern takes, its words apart. -/
def patternSize : Nat := 40

/-- Bytes that the coordinates of a ray take, apart from the numbers themselves. -/
def rowSize : Nat := 24

/-- Repeats a draw whose results take `size` bytes each. They have to fit into memory. -/
def repeated {α : Type} (size count : Nat) (draw : DrawM α) : DrawM (List α) := do
  liftExcept (Outcome.reserve size count)
  (List.replicate count ()).mapM fun _ ↦ draw

/-- One coordinate: near zero with probability `density`, otherwise of moderate size and any
sign. -/
def coordinate (reach density : Float) : DrawM Float := do
  if ← Draw.bernoulli density then Draw.within (-reach) reach
  else
    let magnitude ← Draw.between 0.5 2.0
    return if ← Draw.bernoulli 0.5 then magnitude else -magnitude

/-- The coordinates of one ray. A tolerance that is not positive leaves exact zeros alone. -/
def coordinates (tolerance : Float) (width : Nat) (density : Float) : DrawM (List Float) :=
  repeated 8 width (coordinate (if tolerance > 0.0 then tolerance else 0.0) density)

/-- The pattern of the positions that a draw selects. -/
private def selected (width : Nat) (select : Nat → DrawM Bool) : DrawM Pattern := do
  let positions ← (List.range width).filterM select
  liftExcept (Pattern.ofPositions width positions)

/-- A pattern whose positions are drawn one by one. -/
def uniformPattern (width : Nat) (density : Float) : DrawM Pattern :=
  selected width fun _ ↦ Draw.bernoulli density

/-- A pattern that differs from a prototype by noise. -/
def perturbed (prototype : Pattern) (width : Nat) (noise : Float) : DrawM Pattern :=
  selected width fun i ↦ do return prototype.contains i != (← Draw.bernoulli noise)

/-- A perturbation of a prototype drawn at random. -/
private def drawPerturbed (prototypes : Array Pattern) (width : Nat) (noise : Float) :
    DrawM Pattern := do
  let i ← Draw.below prototypes.size
  perturbed (prototypes.getD i default) width noise

/-- Rays drawn from a model, numbered from `firstId`. -/
def rays (tolerance : Float) (model : RayModel) (firstId width count : Nat) :
    DrawM (List Ray) := do
  match model with
  | .uniform density =>
    let patterns ← repeated patternSize count (uniformPattern width density)
    liftExcept (Ray.ofPatterns firstId patterns)
  | .clustered prototypes density noise =>
    let prototypes ← repeated patternSize (max 1 prototypes) (uniformPattern width density)
    let patterns ← repeated patternSize count (drawPerturbed prototypes.toArray width noise)
    liftExcept (Ray.ofPatterns firstId patterns)
  | .coordinates density =>
    let rows ← repeated rowSize count (coordinates tolerance width density)
    liftExcept (Ray.ofRows firstId rows tolerance)

/-- Patterns drawn from a model. -/
def patterns (tolerance : Float) (model : RayModel) (width count : Nat) : DrawM (List Pattern) := do
  return (← rays tolerance model 0 width count).map Ray.pattern

/-- The rays of the three sides. -/
structure Sides where
  positive : List Ray
  negative : List Ray
  zero : List Ray

/-- Stores that hold the rays of the three sides. -/
def Sides.stores (s : Sides) : Stores :=
  ⟨Store.ofRays s.positive, Store.ofRays s.negative, Store.ofRays s.zero⟩

/-- The rays of one step: positive, negative and zero ones, in this order. -/
def sides (tolerance : Float) (model : RayModel) (width positives negatives zeros : Nat) :
    DrawM Sides := do
  return {
    positive := ← rays tolerance model positiveFirst width positives
    negative := ← rays tolerance model negativeFirst width negatives
    zero := ← rays tolerance model zeroFirst width zeros }

end Generator
end RayAdjacency
