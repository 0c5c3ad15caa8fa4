import RayAdjacency.Report
import RayAdjacency.Traversal.Machine

/-!
# Searches

`Search.run` finds the adjacent pairs of a built root. It sets up the machine of threads that the
configuration asks for, runs it, and checks at the end that every node pair that was entered has
been left.

Models `traverse_with` of a `Traverser`, and what `scheduler_for` sets up.
-/

namespace RayAdjacency

/-- Bytes that one place of a queue takes. -/
def queuePlaceSize : Nat := 24

/-- The places of the queue of a pool; other strategies have none. The queue has to fit into
memory. -/
def Config.queueCapacity (c : Config) : Outcome (Option Nat) :=
  match c.strategy with
  | .barrierPool factor => do
    let capacity ← Outcome.mul (max 1 factor) (max 1 c.threads)
    Outcome.reserve queuePlaceSize capacity
    return some capacity
  | _ => return none

namespace Search

/-- What a search leaves behind. -/
structure Result where
  /-- The report, unless the search never ends. -/
  report : Option (Outcome Report)
  /-- The pairs found, in the order of their arrival. -/
  pairs : Array IndexPair := #[]
  /-- The questions put to the delegate. -/
  asked : Array Question := #[]
  log : List LogRecord := []

/-- The counters whose final values do not depend on the order in which the threads take their
steps. -/
def settledCounters (strategy : Strategy) : List Counter :=
  Counter.all.filter fun counter ↦
    match counter, strategy with
    | .threadsSpawned, _ | .barrierBreaks, _ => false
    | .jobsQueued, .barrierPool _ | .jobsRun, .barrierPool _ => false
    | _, _ => true

/-- What is reported when there is nothing to search. -/
private def emptyRecord (positive negative : Nat) : LogRecord where
  level := .debug
  message := "Empty side, nothing to search"
  fields := [("positive", .number positive), ("negative", .number negative)]

/-- What is reported when a search has succeeded. -/
private def completeRecord (site : SearchSite) (r : Report) : LogRecord where
  level := .info
  message := "Adjacency traversal complete"
  fields := [("strategy", .text r.strategy), ("test", .text site.test.name),
    ("threads", .number r.threads),
    ("required_zero_bits", .number site.root.threshold.required),
    ("positive", .number r.positive), ("negative", .number r.negative),
    ("pairs", .number r.tally.pairsEmitted), ("pruned", .number r.tally.pruned),
    ("spawned", .number r.tally.threadsSpawned)]

/-- The report of a search with the given counts, which have to balance. -/
def report (site : SearchSite) (config : Config) (tally : Tally) : Outcome Report := do
  let tally := tally.snapshot
  let entered ← tally.entered
  if entered ≠ tally.leaves then
    Outcome.fail (.invariant s!"{entered} successful enters but {tally.leaves} leaves")
  let positive ← site.root.positive.checkedRayCount
  let negative ← site.root.negative.checkedRayCount
  return { strategy := config.strategy.name, threads := config.threads, positive, negative, tally }

/-- More steps than any search takes that ends: each node pair is searched at most once, and wakes
each thread at most once. -/
def effort (plan : Plan) : Nat :=
  64 * (plan.site.root.positive.nodeCount * plan.site.root.negative.nodeCount + 2)
    * (plan.config.threads + 2)

/-- The result of a search whose machine has come to rest. -/
def conclude (plan : Plan) (m : Machine) : Result :=
  let report := m.outcome?.map fun outcome ↦ do
    outcome
    report plan.site plan.config m.shared.token.tally
  let final := match report with
    | some (.ok r) => [completeRecord plan.site r]
    | _ => []
  { report, pairs := m.shared.sink, asked := m.shared.asked, log := m.shared.log.toList ++ final }

/-- The result of a search with an empty side. -/
def nothing (site : SearchSite) (config : Config) : Result :=
  let counts : Outcome (Nat × Nat) := do
    return (← site.root.positive.checkedRayCount, ← site.root.negative.checkedRayCount)
  match counts with
  | .error stop => { report := some (.error stop) }
  | .ok (positive, negative) =>
    match report site config {} with
    | .error stop => { report := some (.error stop), log := [emptyRecord positive negative] }
    | .ok r =>
      { report := some (.ok r), log := [emptyRecord positive negative, completeRecord site r] }

/-- Finds the adjacent pairs of the two trees. The operating system starts as many threads as
`limit` allows, and the clock shows `now` when workers begin to wait. -/
def run (site : SearchSite) (config : Config) (limit : Option Nat) (now : Duration := .zero) :
    Result :=
  match config.queueCapacity with
  | .error stop => { report := some (.error stop) }
  | .ok capacity =>
    if site.root.start.isEmpty then nothing site config
    else
      let plan : Plan := ⟨site, config, capacity.getD 0⟩
      conclude plan ((Machine.ofBudget config.threads).run plan limit now (effort plan))

end Search
end RayAdjacency
