import RayAdjacency.Decimal.Shortest
import RayAdjacency.Duration

/-!
# Configuration

One `Config` drives tree construction (node shape, leaf size, bit order) and the search (thread
budget, strategy). The number of zeros that an adjacent pair has to share is not part of it: it
comes from the rank computation of the enclosing algorithm, as a `Threshold` for each step.

Models `AdjacencyConfig` with its `validate`, `AdjacencyThreshold`, `ReleasePolicy`,
`ConcurrencyStrategy`, `NodeShape` and `BitOrderStrategy`.
-/

namespace RayAdjacency

/-- The least number of zeros that an adjacent pair shares. -/
structure Threshold where
  required : Nat
deriving Repr, DecidableEq

/-- Whether a shared zero set of `count` positions still allows adjacency. -/
def Threshold.isMetBy (t : Threshold) (count : Nat) : Bool := decide (t.required ≤ count)

/-- How a worker of a job queue gives its permit back once the queue is drained. -/
inductive ReleasePolicy where
  /-- As soon as the queue is seen empty. -/
  | immediate
  /-- Once at least half of the workers are done. -/
  | waitHalfDone
  /-- Once all workers are done, and at the latest after the given time. -/
  | timeout (limit : Duration)
deriving Repr, DecidableEq

/-- How a search is shared among threads. -/
inductive Strategy where
  /-- The calling thread alone. -/
  | sequential
  /-- A new thread at a pair of binary nodes whenever a permit is free. -/
  | incrementalFork
  /-- The upper levels are expanded into a queue that a cohort of workers drains. -/
  | jobQueue (maxLevelDepth : Nat) (release : ReleasePolicy)
  /-- A fixed pool of workers shares a bounded queue and a breakable barrier. -/
  | barrierPool (queueFactor : Nat)
deriving Repr, DecidableEq

/-- The name of a strategy. -/
def Strategy.name : Strategy → String
  | sequential => "sequential"
  | incrementalFork => "incremental_fork"
  | jobQueue _ _ => "job_queue"
  | barrierPool _ => "barrier_pool"

/-- The shape of the internal nodes of a tree. -/
inductive NodeShape where
  /-- Two children, split on one bit. -/
  | binary
  /-- Up to `2 ^ bits` children at the root; the number of bits halves from level to level. -/
  | wide (bits : Nat)
deriving Repr, DecidableEq

/-- The name of a node shape. -/
def NodeShape.name : NodeShape → String
  | binary => "binary"
  | wide _ => "wide"

/-- How the order of the splitting bits is found. -/
inductive BitOrderRule where
  /-- The order of the positions. -/
  | natural
  /-- By how evenly random pairs of rays fall on the two sides of a bit. -/
  | sampled (samplesPerBit seed : Nat)
deriving Repr, DecidableEq

/-- Levels expanded into the job queue unless another number is given. -/
def defaultMaxLevelDepth : Nat := 6

/-- Pairs sampled for each bit unless another number is given. -/
def defaultSamplesPerBit : Nat := 1024

/-- Queue places for each thread of a pool unless another number is given. -/
def defaultQueueFactor : Nat := 64

/-- Configuration of tree construction and search. -/
structure Config where
  /-- Thread budget, the calling thread included. -/
  threads : Nat := 1
  strategy : Strategy := .sequential
  /-- Rays of a leaf before it is split. -/
  maxLeaf : Nat := 1
  shape : NodeShape := .binary
  order : BitOrderRule := .sampled defaultSamplesPerBit 0x5eedc0de
  /-- Magnitude at or below which a coordinate counts as zero. -/
  tolerance : Float := 1e-10

/-- Why a configuration cannot be run. -/
inductive ConfigFault where
  | noThread
  | noLeafRay
  | wideBits (bits : Nat)
  | noSample
  | noQueuePlace
  | tolerance (value : Float)

/-- The wording of a configuration fault. -/
def ConfigFault.message : ConfigFault → String
  | noThread => "thread_count must be at least 1"
  | noLeafRay => "max_leaf_size must be at least 1"
  | wideBits bits => s!"wide nodes need 1..=16 bits per level, got {bits}"
  | noSample => "samples_per_bit must be at least 1"
  | noQueuePlace => "queue_factor must be at least 1"
  | tolerance value =>
    "zero_tolerance must be non-negative, got " ++ FloatLayout.inMessage.render value

namespace Config

/-- One thread. -/
def sequential : Config := {}

/-- Threads that fork off the calling thread. -/
def incrementalFork (threads : Nat) : Config := { threads, strategy := .incrementalFork }

/-- Workers that drain a queue. -/
def jobQueue (threads maxLevelDepth : Nat) (release : ReleasePolicy) : Config :=
  { threads, strategy := .jobQueue maxLevelDepth release }

/-- A fixed pool of workers. -/
def barrierPool (threads : Nat) : Config :=
  { threads, strategy := .barrierPool defaultQueueFactor }

/-- What is run on a machine of so many processors unless another configuration is given. -/
def standard (processors : Nat) : Config :=
  jobQueue (max 1 processors) defaultMaxLevelDepth .immediate

/-- Whether a search never starts another thread. -/
def runsAlone (c : Config) : Bool := c.threads ≤ 1 || c.strategy == .sequential

/-- The fault that a requirement shows where it is not met. -/
private def requires (met : Bool) (fault : ConfigFault) : Option ConfigFault :=
  if met then none else some fault

/-- The fault of a node shape, if it has one. -/
def shapeFault? : NodeShape → Option ConfigFault
  | .binary => none
  | .wide bits => requires (1 ≤ bits && bits ≤ 16) (.wideBits bits)

/-- The fault of a bit order rule, if it has one. -/
def orderFault? : BitOrderRule → Option ConfigFault
  | .natural => none
  | .sampled samples _ => requires (1 ≤ samples) .noSample

/-- The fault of a strategy, if it has one. -/
def strategyFault? : Strategy → Option ConfigFault
  | .barrierPool factor => requires (1 ≤ factor) .noQueuePlace
  | _ => none

/-- The first reason why the configuration cannot be run, if there is one. An undefined tolerance
is not at least zero. -/
def fault? (c : Config) : Option ConfigFault :=
  requires (1 ≤ c.threads) .noThread
    <|> requires (1 ≤ c.maxLeaf) .noLeafRay
    <|> shapeFault? c.shape
    <|> orderFault? c.order
    <|> strategyFault? c.strategy
    <|> requires (0.0 ≤ c.tolerance) (.tolerance c.tolerance)

/-- Refuses a configuration that cannot be run. -/
def validate (c : Config) : Outcome Unit :=
  match c.fault? with
  | some fault => Outcome.fail (.invalidConfig fault.message)
  | none => .ok ()

end Config
end RayAdjacency
