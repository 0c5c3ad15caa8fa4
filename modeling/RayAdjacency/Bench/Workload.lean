import RayAdjacency.Bench.Generator
import RayAdjacency.Bench.Latency
import RayAdjacency.Bench.Millis
import RayAdjacency.Search

/-!
# Workloads

A `Workload` is one generated iteration step that is searched several times, once for each of the
configurations to be compared. The trees are built once for a configuration; only the searches are
timed. Timing belongs to the caller: a `Timer` runs a computation and says how long it took.

Models `WorkloadConfig`, `StrategyCase`, `strategy_matrix`, `run_case` and `StrategyResult`.
-/

namespace RayAdjacency

/-- Why a benchmark gives up. -/
inductive BenchFailure where
  | io (text : String)
  | search (failure : Failure)
  | csv (text : String)
  | config (text : String)

/-- The name of the kind of a benchmark's failure. -/
def BenchFailure.kind : BenchFailure → String
  | io _ => "Io"
  | search _ => "Search"
  | csv _ => "Csv"
  | config _ => "Config"

/-- The wording of a benchmark's failure. -/
def BenchFailure.message : BenchFailure → String
  | io text => s!"IO error: {text}"
  | search failure => s!"Search error: {failure.message}"
  | csv text => s!"CSV error: {text}"
  | config text => s!"Config error: {text}"

/-- Why a benchmark did not produce its result. -/
inductive BenchStop where
  | failed (failure : BenchFailure)
  | panicked (message : String)

/-- What stops a search stops its benchmark. -/
def BenchStop.ofStop : Stop → BenchStop
  | .failed failure => failed (.search failure)
  | .panicked message => panicked message

/-- One generated iteration step, and how often it is searched. -/
structure Workload where
  width : Nat
  positive : Nat
  negative : Nat
  zero : Nat
  model : RayModel
  required : Nat
  repeats : Nat
  seed : Nat

/-- A configuration with a name. -/
structure StrategyCase where
  label : String
  config : Config

/-- The configurations that are compared for a number of threads. -/
def StrategyCase.matrix (threads maxLevelDepth : Nat) : List StrategyCase :=
  [⟨"sequential", Config.sequential⟩,
    ⟨"fork", Config.incrementalFork threads⟩,
    ⟨"jobq-immediate", Config.jobQueue threads maxLevelDepth .immediate⟩,
    ⟨"jobq-half", Config.jobQueue threads maxLevelDepth .waitHalfDone⟩,
    ⟨"pool", Config.barrierPool threads⟩,
    ⟨"pool-wide3", { Config.barrierPool threads with shape := .wide 3 }⟩]

/-- Times and counts of one configuration over all searches. -/
structure CaseResult where
  label : String
  strategy : String
  threads : Nat
  runs : Nat
  totalSeconds : Float
  /-- The median time. -/
  median : Millis
  /-- The time in milliseconds that one search in a hundred passes. -/
  high : Float
  /-- The mean time in milliseconds. -/
  mean : Float
  pairs : Nat
  leafPairs : Nat
  pruneRatio : Float
  spawned : Nat
  jobsQueued : Nat
  barrierBreaks : Nat

/-- The result of a configuration whose last search gave the report. -/
def CaseResult.ofLatency (label : String) (report : Report) (latency : Latency) : CaseResult where
  label := label
  strategy := report.strategy
  threads := report.threads
  runs := latency.runs
  totalSeconds := latency.totalSeconds
  median := Millis.ofFloat (latency.percentile 50.0)
  high := latency.percentile 99.0
  mean := latency.mean
  pairs := report.tally.pairsEmitted
  leafPairs := report.tally.leafPairs
  pruneRatio := report.tally.pruneRatio
  spawned := report.tally.threadsSpawned
  jobsQueued := report.tally.jobsQueued
  barrierBreaks := report.tally.barrierBreaks

/-- Runs a search and says how long it took. -/
abbrev Timer (m : Type → Type) := (Unit → Search.Result) → m (Search.Result × Duration)

/-- The timer for which no time passes. -/
def Timer.still : Timer Id := fun search ↦ (search (), Duration.zero)

/-- What one configuration comes to, with the records written. -/
structure CaseRun where
  outcome : Except BenchStop CaseResult
  log : List LogRecord := []

namespace Workload

/-- The stores of the step. -/
def generate (w : Workload) (tolerance : Float) : Outcome Stores :=
  let draw := Generator.sides tolerance w.model w.width w.positive w.negative w.zero
  match draw.run.run (RandomStream.ofSeed w.seed.toUInt64) with
  | (outcome, _) => outcome.map Generator.Sides.stores

/-- The trees of the step, with the records written while they were built. -/
def prepare (w : Workload) (config : Config) : Outcome SearchSite × List LogRecord :=
  match w.generate config.tolerance with
  | .error stop => (.error stop, [])
  | .ok stores =>
    let (outcome, site) := (Root.build config ⟨w.required⟩).run.run { stores }
    (outcome.map fun root ↦ ⟨root, site.stores, .combinatorial⟩, site.log.toList)

/-- What has come of the searches so far. -/
structure Progress where
  latency : Latency := {}
  last : Option Report := none
  log : List LogRecord := []

/-- Adds a search to the progress. -/
def Progress.add (p : Progress) (result : Search.Result) (time : Duration) :
    Outcome Unit × Progress :=
  let p := { p with log := p.log ++ result.log }
  let added : Outcome (Report × Latency) := do
    let report ← result.report.getD (Outcome.panic "the search does not end")
    return (report, ← p.latency.record time)
  match added with
  | .ok (report, latency) => (.ok (), { p with latency, last := some report })
  | .error stop => (.error stop, p)

/-- Searches so many times, or until a search fails. -/
def search {m : Type → Type} [Monad m] (timer : Timer m) (site : SearchSite) (config : Config) :
    Nat → Progress → m (Outcome Unit × Progress)
  | 0, p => pure (.ok (), p)
  | repeats + 1, p => do
    let (result, time) ← timer fun () ↦ Search.run site config none
    match p.add result time with
    | (.ok (), p) => search timer site config repeats p
    | (.error stop, p) => pure (.error stop, p)

/-- What is reported when all searches of a configuration are done. -/
private def finishedRecord (label : String) (pairs : Nat) : LogRecord where
  level := .debug
  message := "Strategy case finished"
  fields := [("case", .text label), ("pairs", .number pairs)]

/-- The result of the searches. -/
def conclude (label : String) (outcome : Outcome Unit) (p : Progress) : CaseRun :=
  match outcome, p.last with
  | .error stop, _ => ⟨.error (.ofStop stop), p.log⟩
  | .ok (), none => ⟨.error (.failed (.config "no traversal ran")), p.log⟩
  | .ok (), some report =>
    ⟨.ok (.ofLatency label report p.latency), p.log ++ [finishedRecord label report.pairs]⟩

/-- Builds the trees once and searches them as often as the workload says. -/
def run {m : Type → Type} [Monad m] (timer : Timer m) (w : Workload) (c : StrategyCase) :
    m CaseRun := do
  if w.repeats = 0 then
    return ⟨.error (.failed (.config "repeats must be at least 1")), []⟩
  match w.prepare c.config with
  | (.error stop, log) => return ⟨.error (.ofStop stop), log⟩
  | (.ok site, log) =>
    let (outcome, progress) ← search timer site c.config w.repeats { log }
    return conclude c.label outcome progress

end Workload
end RayAdjacency
