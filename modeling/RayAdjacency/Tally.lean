import RayAdjacency.Decimal.Binary64
import RayAdjacency.Outcome

/-!
# Tallies

A `Tally` counts what happens during one search. Tallies are added, so the tally of a search is the
sum of the tallies of its steps, in whatever order the threads take them. A snapshot shows each
count modulo `2 ^ 64`.

Models `TraversalStats` and `StatsSnapshot`.
-/

namespace RayAdjacency

/-- What is counted. -/
inductive Counter where
  /-- Node pairs that asked to enter. -/
  | enterCalls
  /-- Node pairs that were not admitted. -/
  | pruned
  /-- Node pairs left after they had been entered. -/
  | leaves
  /-- Ray pairs that reached the leaf test. -/
  | leafPairs
  /-- Ray pairs accepted because one coordinate makes the difference. -/
  | immediateAdjacent
  /-- Ray pairs put off to the minimality filter. -/
  | pendingCandidates
  /-- Pending pairs removed by the filter. -/
  | filteredOut
  /-- Ray pairs refused by the rank delegate. -/
  | rankRejected
  /-- Ray pairs written to the sink. -/
  | pairsEmitted
  /-- Threads asked for. -/
  | threadsSpawned
  /-- Jobs put into a queue. -/
  | jobsQueued
  /-- Jobs taken from a queue and run. -/
  | jobsRun
  /-- Barrier generations broken by new work. -/
  | barrierBreaks
deriving Repr, DecidableEq

/-- The name of a counter. -/
def Counter.name : Counter → String
  | enterCalls => "enter_calls"
  | pruned => "pruned"
  | leaves => "leaves"
  | leafPairs => "leaf_pairs"
  | immediateAdjacent => "immediate_adjacent"
  | pendingCandidates => "pending_candidates"
  | filteredOut => "filtered_out"
  | rankRejected => "rank_rejected"
  | pairsEmitted => "pairs_emitted"
  | threadsSpawned => "threads_spawned"
  | jobsQueued => "jobs_queued"
  | jobsRun => "jobs_run"
  | barrierBreaks => "barrier_breaks"

/-- All counters, in the order of a report. -/
def Counter.all : List Counter :=
  [enterCalls, pruned, leaves, leafPairs, immediateAdjacent, pendingCandidates, filteredOut,
    rankRejected, pairsEmitted, threadsSpawned, jobsQueued, jobsRun, barrierBreaks]

/-- A count for each counter. -/
@[ext] structure Tally where
  enterCalls : Nat := 0
  pruned : Nat := 0
  leaves : Nat := 0
  leafPairs : Nat := 0
  immediateAdjacent : Nat := 0
  pendingCandidates : Nat := 0
  filteredOut : Nat := 0
  rankRejected : Nat := 0
  pairsEmitted : Nat := 0
  threadsSpawned : Nat := 0
  jobsQueued : Nat := 0
  jobsRun : Nat := 0
  barrierBreaks : Nat := 0
deriving Repr, DecidableEq, Inhabited

namespace Tally

/-- The count of one counter. -/
def get (t : Tally) : Counter → Nat
  | .enterCalls => t.enterCalls
  | .pruned => t.pruned
  | .leaves => t.leaves
  | .leafPairs => t.leafPairs
  | .immediateAdjacent => t.immediateAdjacent
  | .pendingCandidates => t.pendingCandidates
  | .filteredOut => t.filteredOut
  | .rankRejected => t.rankRejected
  | .pairsEmitted => t.pairsEmitted
  | .threadsSpawned => t.threadsSpawned
  | .jobsQueued => t.jobsQueued
  | .jobsRun => t.jobsRun
  | .barrierBreaks => t.barrierBreaks

/-- Adds to one counter. -/
def add (t : Tally) (c : Counter) (n : Nat) : Tally :=
  match c with
  | .enterCalls => { t with enterCalls := t.enterCalls + n }
  | .pruned => { t with pruned := t.pruned + n }
  | .leaves => { t with leaves := t.leaves + n }
  | .leafPairs => { t with leafPairs := t.leafPairs + n }
  | .immediateAdjacent => { t with immediateAdjacent := t.immediateAdjacent + n }
  | .pendingCandidates => { t with pendingCandidates := t.pendingCandidates + n }
  | .filteredOut => { t with filteredOut := t.filteredOut + n }
  | .rankRejected => { t with rankRejected := t.rankRejected + n }
  | .pairsEmitted => { t with pairsEmitted := t.pairsEmitted + n }
  | .threadsSpawned => { t with threadsSpawned := t.threadsSpawned + n }
  | .jobsQueued => { t with jobsQueued := t.jobsQueued + n }
  | .jobsRun => { t with jobsRun := t.jobsRun + n }
  | .barrierBreaks => { t with barrierBreaks := t.barrierBreaks + n }

/-- Counts one event. -/
def bump (t : Tally) (c : Counter) : Tally := t.add c 1

/-- The sum of two tallies, counter by counter. -/
def plus (a b : Tally) : Tally where
  enterCalls := a.enterCalls + b.enterCalls
  pruned := a.pruned + b.pruned
  leaves := a.leaves + b.leaves
  leafPairs := a.leafPairs + b.leafPairs
  immediateAdjacent := a.immediateAdjacent + b.immediateAdjacent
  pendingCandidates := a.pendingCandidates + b.pendingCandidates
  filteredOut := a.filteredOut + b.filteredOut
  rankRejected := a.rankRejected + b.rankRejected
  pairsEmitted := a.pairsEmitted + b.pairsEmitted
  threadsSpawned := a.threadsSpawned + b.threadsSpawned
  jobsQueued := a.jobsQueued + b.jobsQueued
  jobsRun := a.jobsRun + b.jobsRun
  barrierBreaks := a.barrierBreaks + b.barrierBreaks

instance : Add Tally := ⟨plus⟩

/-- The counts as a 64-bit reader sees them. -/
def snapshot (t : Tally) : Tally where
  enterCalls := t.enterCalls % wordLimit
  pruned := t.pruned % wordLimit
  leaves := t.leaves % wordLimit
  leafPairs := t.leafPairs % wordLimit
  immediateAdjacent := t.immediateAdjacent % wordLimit
  pendingCandidates := t.pendingCandidates % wordLimit
  filteredOut := t.filteredOut % wordLimit
  rankRejected := t.rankRejected % wordLimit
  pairsEmitted := t.pairsEmitted % wordLimit
  threadsSpawned := t.threadsSpawned % wordLimit
  jobsQueued := t.jobsQueued % wordLimit
  jobsRun := t.jobsRun % wordLimit
  barrierBreaks := t.barrierBreaks % wordLimit

/-- The node pairs that were admitted, each of which owes one leave. -/
def entered (t : Tally) : Outcome Nat := Outcome.sub t.enterCalls t.pruned

/-- The fraction of the node pairs that were not admitted. -/
def pruneRatio (t : Tally) : Float :=
  if t.enterCalls = 0 then 0.0 else Binary64.ofCount t.pruned / Binary64.ofCount t.enterCalls

/-- Adding to a counter changes that counter alone. -/
theorem get_add (t : Tally) (c d : Counter) (n : Nat) :
    (t.add c n).get d = t.get d + if c = d then n else 0 := by
  cases c <;> cases d <;> rfl

/-- A sum of tallies is a sum for each counter. -/
theorem get_plus (a b : Tally) (c : Counter) : (a + b).get c = a.get c + b.get c := by
  cases c <;> rfl

/-- Tallies with equal counts are equal. -/
theorem ext_get {a b : Tally} (h : ∀ c, a.get c = b.get c) : a = b :=
  Tally.ext (h .enterCalls) (h .pruned) (h .leaves) (h .leafPairs) (h .immediateAdjacent)
    (h .pendingCandidates) (h .filteredOut) (h .rankRejected) (h .pairsEmitted)
    (h .threadsSpawned) (h .jobsQueued) (h .jobsRun) (h .barrierBreaks)

/-- A snapshot shows each count modulo the word limit. -/
theorem get_snapshot (t : Tally) (c : Counter) : t.snapshot.get c = t.get c % wordLimit := by
  cases c <;> rfl

end Tally
end RayAdjacency
