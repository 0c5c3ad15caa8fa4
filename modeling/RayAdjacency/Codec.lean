import RayAdjacency.Config
import RayAdjacency.Json.Decoder
import RayAdjacency.NodePair
import RayAdjacency.Report

/-!
# JSON forms

How patterns, rays, configurations and reports are written as JSON, and how those that are kept in
files are read back. Reading checks the shape of a value only: a pattern keeps the words, the width
and the count that it was written with.

Models the derived forms of `BitSet`, `Column`, `AdjacencyConfig` and its parts, `AdjacentPair`,
`StatsSnapshot` and `TraversalReport`.
-/

namespace RayAdjacency

/-- The value of a unit variant. -/
private def Json.unitOf {α : Type} (value : α) (content : Option Json) : Option α :=
  if Json.isUnit content then some value else none

/-- The form of a variant with fields. -/
private def Json.variant (name : String) (fields : List (String × Json)) : Json :=
  .object [(name, .object fields)]

namespace Pattern

/-- The form of a pattern. -/
def toJson (p : Pattern) : Json :=
  .object [("words", .ofList (fun w : Word ↦ .ofNat w.toNat) p.words),
    ("capacity", .ofNat p.capacity), ("count", .ofNat p.count)]

/-- Reads a pattern. -/
def ofJson? (v : Json) : Option Pattern := do
  match ← v.record? ["words", "capacity", "count"] with
  | [words, capacity, count] =>
    let words ← words.listOf? Json.nat?
    some ⟨words.map (BitVec.ofNat 64), ← capacity.nat?, ← count.nat?⟩
  | _ => none

end Pattern

namespace Ray

/-- The form of a ray. -/
def toJson (r : Ray) : Json :=
  .object [("id", .ofNat r.id), ("zero_pattern", r.pattern.toJson),
    ("values", .ofList .ofFloat r.values)]

/-- Reads a ray. -/
def ofJson? (v : Json) : Option Ray := do
  match ← v.record? ["id", "zero_pattern", "values"] with
  | [id, pattern, values] =>
    some ⟨← id.nat?, ← Pattern.ofJson? pattern, ← values.listOf? Json.float?⟩
  | _ => none

end Ray

/-- The form of a side. -/
def Side.toJson : Side → Json
  | positive => .string "Positive"
  | zero => .string "Zero"
  | negative => .string "Negative"

namespace Duration

/-- The form of a duration. -/
def toJson (d : Duration) : Json := .object [("secs", .ofNat d.secs), ("nanos", .ofNat d.nanos)]

/-- Reads a duration. Nanoseconds are a number of 32 bits and carry into the seconds. -/
def ofJson? (v : Json) : Option Duration := do
  match ← v.closedRecord? ["secs", "nanos"] with
  | [secs, nanos] =>
    let nanos ← nanos.nat?
    if 0x100000000 ≤ nanos then none
    ofParts? (← secs.nat?) nanos
  | _ => none

end Duration

/-- The form of a threshold. -/
def Threshold.toJson (t : Threshold) : Json := .object [("required_zero_bits", .ofNat t.required)]

namespace ReleasePolicy

/-- The form of a release policy. -/
def toJson : ReleasePolicy → Json
  | immediate => .string "Immediate"
  | waitHalfDone => .string "WaitHalfDone"
  | timeout limit => .object [("Timeout", limit.toJson)]

/-- Reads a release policy. -/
def ofJson? (v : Json) : Option ReleasePolicy := do
  match ← v.variant? with
  | ("Immediate", content) => Json.unitOf immediate content
  | ("WaitHalfDone", content) => Json.unitOf waitHalfDone content
  | ("Timeout", some limit) => do return timeout (← Duration.ofJson? limit)
  | _ => none

end ReleasePolicy

namespace Strategy

/-- The form of a strategy. -/
def toJson : Strategy → Json
  | sequential => .string "Sequential"
  | incrementalFork => .string "IncrementalFork"
  | jobQueue maxLevelDepth release =>
    .variant "JobQueue" [("max_level_depth", .ofNat maxLevelDepth), ("release", release.toJson)]
  | barrierPool factor => .variant "BarrierPool" [("queue_factor", .ofNat factor)]

/-- Reads a strategy. -/
def ofJson? (v : Json) : Option Strategy := do
  match ← v.variant? with
  | ("Sequential", content) => Json.unitOf sequential content
  | ("IncrementalFork", content) => Json.unitOf incrementalFork content
  | ("JobQueue", some content) =>
    match ← content.record? ["max_level_depth", "release"] with
    | [depth, release] => do return jobQueue (← depth.nat?) (← ReleasePolicy.ofJson? release)
    | _ => none
  | ("BarrierPool", some content) =>
    match ← content.record? ["queue_factor"] with
    | [factor] => do return barrierPool (← factor.nat?)
    | _ => none
  | _ => none

end Strategy

namespace NodeShape

/-- The form of a node shape. -/
def toJson : NodeShape → Json
  | binary => .string "Binary"
  | wide bits => .variant "Wide" [("bits_to_use", .ofNat bits)]

/-- Reads a node shape. -/
def ofJson? (v : Json) : Option NodeShape := do
  match ← v.variant? with
  | ("Binary", content) => Json.unitOf binary content
  | ("Wide", some content) =>
    match ← content.record? ["bits_to_use"] with
    | [bits] => do return wide (← bits.nat?)
    | _ => none
  | _ => none

end NodeShape

namespace BitOrderRule

/-- The form of a bit order rule. -/
def toJson : BitOrderRule → Json
  | natural => .string "Natural"
  | sampled samplesPerBit seed =>
    .variant "Sampled" [("samples_per_bit", .ofNat samplesPerBit), ("seed", .ofNat seed)]

/-- Reads a bit order rule. -/
def ofJson? (v : Json) : Option BitOrderRule := do
  match ← v.variant? with
  | ("Natural", content) => Json.unitOf natural content
  | ("Sampled", some content) =>
    match ← content.record? ["samples_per_bit", "seed"] with
    | [samples, seed] => do return sampled (← samples.nat?) (← seed.nat?)
    | _ => none
  | _ => none

end BitOrderRule

namespace Config

/-- The form of a configuration. -/
def toJson (c : Config) : Json :=
  .object [("thread_count", .ofNat c.threads), ("strategy", c.strategy.toJson),
    ("max_leaf_size", .ofNat c.maxLeaf), ("node_shape", c.shape.toJson),
    ("bit_order", c.order.toJson), ("zero_tolerance", .ofFloat c.tolerance)]

/-- Reads a configuration. -/
def ofJson? (v : Json) : Option Config := do
  match ← v.record? ["thread_count", "strategy", "max_leaf_size", "node_shape", "bit_order",
    "zero_tolerance"] with
  | [threads, strategy, maxLeaf, shape, order, tolerance] =>
    some
      { threads := ← threads.nat?
        strategy := ← Strategy.ofJson? strategy
        maxLeaf := ← maxLeaf.nat?
        shape := ← NodeShape.ofJson? shape
        order := ← BitOrderRule.ofJson? order
        tolerance := ← tolerance.float? }
  | _ => none

end Config

/-- The form of a pair of indices. -/
def IndexPair.toJson (p : IndexPair) : Json :=
  .object [("positive", .ofNat p.positive), ("negative", .ofNat p.negative)]

/-- The form of a tally: each counter by its name. -/
def Tally.toJson (t : Tally) : Json :=
  .object (Counter.all.map fun c ↦ (c.name, .ofNat (t.get c)))

/-- The form of a report. -/
def Report.toJson (r : Report) : Json :=
  .object [("strategy", .string r.strategy), ("thread_count", .ofNat r.threads),
    ("positive_rays", .ofNat r.positive), ("negative_rays", .ofNat r.negative),
    ("elapsed", r.elapsed.toJson), ("stats", r.tally.toJson)]

end RayAdjacency
