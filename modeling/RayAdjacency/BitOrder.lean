import RayAdjacency.Config
import RayAdjacency.Log
import RayAdjacency.Random.Draw
import RayAdjacency.Store

/-!
# Order of the splitting bits

Trees are split on bits in a fixed order. A good order puts first the bits that cut the rays into
two groups whose members differ much. For each bit, random pairs of rays are drawn; the distances
of the pairs that disagree on the bit (`parted`) and of those that agree on it (`joined`) are
summed. Bits are sorted by how far the quotient of the two sums is from one, bits of equal balance
by position. A bit that no drawn pair disagrees on cannot split anything and comes last.

`BitOrder.ofSamples` is the order as a function of the drawn pairs; only `BitOrder.sampled` draws.

Models `SelectiveBitOrder`: `ofBits?`, `sampled` and `BitOrderRule.order` are `from_bits`, `sampled`
and `for_strategy`, `Balance.key` is `balance_distance`.
-/

namespace RayAdjacency

/-- A permutation of the positions of a pattern. -/
structure BitOrder where
  bits : List Nat
deriving Repr, DecidableEq, Inhabited

/-- How evenly a bit parts the drawn pairs. -/
inductive Balance where
  /-- The distance of the quotient of the two sums from one. -/
  | measured (distance : Float)
  /-- No pair that agrees on the bit shows a difference. -/
  | allParted
  /-- No pair that disagrees on the bit shows a difference. -/
  | unparted

namespace Balance

/-- The balance of the distance sums of the pairs parted and joined by a bit. -/
def ofSums : Nat → Nat → Balance
  | 0, _ => unparted
  | _, 0 => allParted
  | parted, joined => measured (Binary64.ofCount parted / Binary64.ofCount joined - 1.0).abs

/-- The sort key: measured distances by size (they are not negative, so their bits have the order
of the numbers), then the two limits. -/
def key : Balance → Nat
  | measured distance => distance.toBits.toNat
  | allParted => wordLimit
  | unparted => wordLimit + 1

end Balance

namespace BitOrder

/-- The positions in their own order. -/
def natural (width : Nat) : BitOrder := ⟨List.range width⟩

/-- The positions in their own order, which have to fit into memory: a word for each. -/
def inMemory (width : Nat) : Outcome BitOrder := do
  Outcome.reserve 8 width
  return natural width

/-- Ticks off a position, unless there is no such position or it has been ticked off before. -/
def tick? (ticked : Array Bool) (bit : Nat) : Option (Array Bool) :=
  if ticked[bit]? = some false then some (ticked.setIfInBounds bit true) else none

/-- The given order, if each position below its length can be ticked off once. -/
def ofBits? (bits : List Nat) : Option BitOrder := do
  discard (bits.foldlM tick? (Array.replicate bits.length false))
  return ⟨bits⟩

/-- Number of positions. -/
def length (o : BitOrder) : Nat := o.bits.length

/-- Adds the distance of one pair to the sums of the pairs parted and joined by a bit. -/
def tallyPair (bit : Nat) (sums : Nat × Nat) (pair : Pattern × Pattern) : Nat × Nat :=
  let distance := pair.1.distance pair.2
  if pair.1.contains bit != pair.2.contains bit then (sums.1 + distance, sums.2)
  else (sums.1, sums.2 + distance)

/-- The balance of a bit over the pairs drawn for it. -/
def balance (bit : Nat) (pairs : List (Pattern × Pattern)) : Outcome Balance := do
  let (parted, joined) := pairs.foldl (tallyPair bit) (0, 0)
  -- The sums grow step by step, so one of them leaves the range exactly if its total does.
  let parted ← Outcome.add parted 0
  let joined ← Outcome.add joined 0
  return Balance.ofSums parted joined

/-- Whether one scored bit comes before another. -/
def before (a b : Nat × Nat) : Bool := decide (a.1 < b.1 ∨ a.1 = b.1 ∧ a.2 ≤ b.2)

/-- Sorts scored bits; equal scores are ordered by position. -/
def ofScores (scores : List (Nat × Nat)) : BitOrder := ⟨(scores.mergeSort before).map Prod.snd⟩

/-- The key of a bit by which it is ordered, given the pairs drawn for it, with the bit. -/
def score (drawn : List (Pattern × Pattern) × Nat) : Outcome (Nat × Nat) := do
  return ((← balance drawn.2 drawn.1).key, drawn.2)

/-- The order by balance, given the pairs drawn for each bit. -/
def ofSamples (samples : List (List (Pattern × Pattern))) : Outcome BitOrder := do
  return ofScores (← samples.zipIdx.mapM score)

/-- Draws one pair of patterns. -/
def drawPair (patterns : Array Pattern) : DrawM (Pattern × Pattern) := do
  let a ← Draw.below patterns.size
  let b ← Draw.below patterns.size
  return (patterns.getD a default, patterns.getD b default)

/-- Draws the pairs of every bit in turn. -/
def drawSamples (patterns : Array Pattern) (width samplesPerBit : Nat) :
    DrawM (List (List (Pattern × Pattern))) :=
  (List.replicate width ()).mapM fun _ ↦ (List.replicate samplesPerBit ()).mapM fun _ ↦
    drawPair patterns

/-- What is reported when an order has been sampled. -/
private def sampledRecord (o : BitOrder) (rays samplesPerBit : Nat) : LogRecord where
  level := .debug
  message := "Computed selective bit order"
  fields := [("width", .number o.length), ("rays", .number rays),
    ("samples_per_bit", .number samplesPerBit),
    ("head", .text ("[" ++ ", ".intercalate ((o.bits.take 8).map toString) ++ "]"))]

/-- The order sampled from the given patterns. Fewer than two rays have nothing to compare. -/
def sampled (width : Nat) (patterns : List Pattern) (samplesPerBit seed : Nat) :
    Outcome (BitOrder × List LogRecord) :=
  if patterns.length < 2 ∨ width = 0 then .ok (natural width, [])
  else do
    let draws := drawSamples patterns.toArray width samplesPerBit
    let samples ← (draws.run.run (RandomStream.ofSeed seed.toUInt64)).1
    let order ← ofSamples samples
    return (order, [sampledRecord order patterns.length samplesPerBit])

end BitOrder

/-- Reads the patterns of a store in order. -/
def Store.readPatterns : StoreM (List Pattern) := do
  (List.range (← get).size).mapM fun i ↦ do return (← Store.read i).pattern

/-- Reads the patterns of some sides in order, side after side. -/
def Stores.readPatterns (sides : List Side) : StoresM (List Pattern) := do
  return (← sides.mapM fun side ↦ Stores.on side Store.readPatterns).flatten

namespace BitOrderRule

/-- Whether a rule looks at the rays. -/
def looksAtRays : BitOrderRule → Bool
  | .natural => false
  | .sampled _ _ => true

/-- Bytes that a rule takes for each bit: a word for its position, and one for its score where bits
are scored. -/
def placeSize (rule : BitOrderRule) (rays : Nat) : Nat :=
  if rule.looksAtRays ∧ 2 ≤ rays then 16 else 8

/-- The order that a rule finds for patterns of the given width. It has to fit into memory. -/
def ofPatterns (rule : BitOrderRule) (width : Nat) (patterns : List Pattern) :
    Outcome (BitOrder × List LogRecord) := do
  Outcome.reserve (rule.placeSize patterns.length) width
  match rule with
  | .natural => return (BitOrder.natural width, [])
  | .sampled samplesPerBit seed => BitOrder.sampled width patterns samplesPerBit seed

/-- The order that a rule finds for the patterns that it reads, if it looks at any. -/
def order {m : Type → Type} [Monad m] [MonadExceptOf Stop m] (rule : BitOrderRule) (width : Nat)
    (read : m (List Pattern)) : m (BitOrder × List LogRecord) := do
  let patterns ← if rule.looksAtRays then read else pure []
  liftExcept (rule.ofPatterns width patterns)

/-- The order that a rule finds for the rays of several stores. -/
def ofStores (rule : BitOrderRule) (width : Nat) (stores : List Store) :
    Outcome (BitOrder × List LogRecord) :=
  rule.order width do
    return (← stores.mapM fun (s : Store) ↦ (Store.readPatterns.run.run s).1).flatten

end BitOrderRule
end RayAdjacency
