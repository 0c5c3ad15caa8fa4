import RayAdjacency.LeafTest
import RayAdjacency.Sharing.Barrier
import RayAdjacency.Sharing.Cohort
import RayAdjacency.Sharing.Fifo
import RayAdjacency.Sharing.Token
import RayAdjacency.Traversal.Thread

/-!
# Steps of a search

`Thread.advance` is one step of one thread: what becomes of the thread, of what the threads share,
and which thread has been started. `Thread.isBlocked` says when a thread cannot take its step. What
is up to the environment (whether a thread is refused, what the clock shows, whether a time limit
has run out, which reads fail) is the `Chance` of the step.

Four strategies share the work:

* one thread searches everything;
* a thread that meets a pair of binary nodes forks if a permit is free;
* the calling thread expands the upper levels into a queue and drains it with a cohort of workers,
  each of which may fork;
* the participants of a pool queue the pairs that they do not search themselves, and wait at a
  barrier when the queue is empty; whoever queues a pair breaks the barrier, so it trips only when
  all are waiting and nothing is queued.

Models `descend` of `Walk`; `run_inline` of `ChildPairs`, `fork_or_inline`; `expand`, `drain`,
`work` and `schedule` of `JobQueueScheduler`; `try_push`, `run_job`, `participate`, `schedule` and
`branch` of `BarrierPoolScheduler`; `spawn_child` of `ConcurrencyToken`; and the part of
`traverse_with` that threads take part in.
-/

namespace RayAdjacency

/-- What the threads of a search know from the start. -/
structure Plan where
  site : SearchSite
  config : Config
  /-- Places of the queue of a pool. -/
  capacity : Nat

/-- What the threads of a search share. -/
structure Shared where
  token : Token
  /-- The adjacent pairs, in the order of their arrival. -/
  sink : Array IndexPair := #[]
  queue : Fifo NodePair := {}
  barrier : Barrier := Barrier.ofParties 1
  cohort : Cohort := {}
  aborted : Bool := false
  /-- The questions put to the delegate. -/
  asked : Array Question := #[]
  /-- The records written by the calling thread. -/
  log : Array LogRecord := #[]
  /-- Number of threads that the operating system has started. -/
  launched : Nat := 0

/-- What the environment decides in one step. -/
structure Chance where
  /-- The operating system refuses a thread. -/
  refused : Bool := false
  /-- What the clock shows when a worker begins to hold its permit. -/
  now : Duration := .zero
  /-- The time of a wait has run out. -/
  expired : Bool := false
  interference : Interference := {}

/-- What one step leads to. -/
structure Move where
  /-- The thread after its step, unless it has ended. -/
  thread : Option Thread
  shared : Shared
  /-- The thread that has been started. -/
  started : Option Thread := none

/-- The policy by which workers give their permits back. -/
def Strategy.releasePolicy : Strategy → ReleasePolicy
  | .jobQueue _ release => release
  | _ => .immediate

/-- The number of levels that a strategy expands into a queue. -/
def Strategy.levels : Strategy → Nat
  | .jobQueue levels _ => levels
  | _ => 0

namespace Shared

/-- Adds to a counter. -/
def add (s : Shared) (c : Counter) (n : Nat) : Shared :=
  { s with token := { s.token with tally := s.token.tally.add c n } }

/-- Counts one event. -/
def bump (s : Shared) (c : Counter) : Shared := s.add c 1

/-- Writes a record, if it is the calling thread that writes. -/
def note (s : Shared) (caller : Bool) (records : List LogRecord) : Shared :=
  if caller then { s with log := s.log ++ records } else s

/-- Gives back the permit of a thread. -/
def dropPermit (s : Shared) (caller : Bool) : Shared :=
  let (token, records) := s.token.dropGuard 1
  note { s with token } caller records

end Shared

/-- Expands one node pair: what takes its place, and whether it has been divided. A pair that is
divided is left again at once. -/
def Root.expandPair (r : Root) (p : NodePair) (t : Tally) :
    Outcome (List NodePair × Bool × Tally) :=
  if p.isInternal then
    match r.enter p t with
    | (false, t) => .ok ([], false, t)
    | (true, t) => do return (p.children, true, ← r.leave p t)
  else .ok ([p], false, t)

/-- Expands one level. -/
def Root.expandLevel (r : Root) : List NodePair → Tally → Outcome (List NodePair × Bool × Tally)
  | [], t => .ok ([], false, t)
  | p :: rest, t => do
    let (here, divided, t) ← r.expandPair p t
    let (others, dividedMore, t) ← r.expandLevel rest t
    return (here ++ others, divided || dividedMore, t)

/-- Expands a number of levels, or as many as there are. The room that is set aside for the next
level, four pairs for each pair of this one, is left out: it can be had for fewer than `2 ^ 57` pairs,
and as many as that fill the memory themselves. -/
def Root.expandLevels (r : Root) : Nat → List NodePair → Tally → Outcome (List NodePair × Tally)
  | 0, frontier, t => .ok (frontier, t)
  | levels + 1, frontier, t => do
    let (next, divided, t) ← r.expandLevel frontier t
    if divided then r.expandLevels levels next t else return (next, t)

namespace Thread

/-- What is reported when the job queue has been filled. -/
private def filledRecord (jobs workers : Nat) (release : ReleasePolicy) : LogRecord where
  level := .debug
  message := "Job queue filled"
  fields := [("jobs", .number jobs), ("workers", .number workers),
    ("release", .text release.describe)]

/-- What is reported when a pool sets to work. -/
private def poolRecord (workers capacity : Nat) : LogRecord where
  level := .debug
  message := "Barrier pool started"
  fields := [("workers", .number workers), ("capacity", .number capacity)]

/-- The name of a worker. -/
def workerLabel (strategy : Strategy) (worker : Nat) : String :=
  match strategy with
  | .barrierPool _ => s!"conetree-pool-{worker}"
  | _ => s!"conetree-jobq-{worker}"

/-- What the workers of a strategy are started for. -/
def workerErrand : Strategy → Errand
  | .barrierPool _ => .participate
  | _ => .drain

/-- The name of a forked thread, after the number of threads asked for before. -/
def forkLabel (spawned : Nat) : String := s!"conetree-fork-{spawned % wordLimit}"

/-- The first task of a strategy. -/
def openingTask (plan : Plan) : Task :=
  match plan.config.strategy with
  | .sequential | .incrementalFork => .enter plan.site.root.start
  | .jobQueue _ _ => .expand
  | .barrierPool _ => .assemble

/-- How a strategy takes up the children of an entered pair. -/
def branchTask (strategy : Strategy) (pair : NodePair) : Task :=
  let forking : Task :=
    match pair.isFork, pair.children with
    | true, first :: second :: rest => .fork first (second :: rest)
    | _, children => .inline children
  match strategy with
  | .sequential => .inline pair.children
  | .incrementalFork | .jobQueue _ _ => forking
  | .barrierPool _ => .consider pair

/-- Enters a node pair, if it is admitted. -/
def enterPair (plan : Plan) (t : Thread) (s : Shared) (pair : NodePair) : Move :=
  let (admitted, tally) := plan.site.root.enter pair s.token.tally
  let s := { s with token := { s.token with tally } }
  if !admitted then ⟨t.done (.ok ()), s, none⟩
  else
    let task : Task :=
      if pair.isEmpty then .ret (.ok ())
      else if pair.isInternal then branchTask plan.config.strategy pair
      else .compare pair
    ⟨t.call (.leave pair) task, s, none⟩

/-- Compares the rays of two terminal nodes. -/
def comparePair (plan : Plan) (env : Interference) (t : Thread) (s : Shared) (pair : NodePair) :
    Move :=
  let (outcome, batch) := (Batch.compare plan.site env pair).run.run {}
  let s := { s with
    token := { s.token with tally := s.token.tally + batch.tally }
    asked := s.asked ++ batch.asked }
  match outcome with
  | .error stop => ⟨t.done (.error stop), s, none⟩
  | .ok () =>
    if batch.accepted.isEmpty then ⟨t.done (.ok ()), s, none⟩
    else ⟨t.go (.emit batch.accepted), s, none⟩

/-- Gives up starting a worker and those after it. -/
def refuseWorker (worker total : Nat) (cause : Failure) : Task :=
  .dismiss (total - worker) (total - worker) cause

/-- Signs off one worker that was not started. -/
def signOff (strategy : Strategy) (s : Shared) : Shared :=
  match strategy with
  | .barrierPool _ => { s with barrier := s.barrier.leave }
  | _ => { s with cohort := s.cohort.abandon }

/-- What the calling thread does until the workers that did start are done. -/
def afterRefund (strategy : Strategy) (t : Thread) (cause : Failure) : Thread :=
  match strategy with
  | .barrierPool _ => t.call (.failWith cause) (.participate (.ok ()))
  | _ => t.go (.awaitCohort (Outcome.fail cause))

/-- What the calling thread does once all workers have been started. -/
def afterStart (strategy : Strategy) (t : Thread) : Thread :=
  match strategy with
  | .barrierPool _ => t.go (.participate (.ok ()))
  | _ => t.call .cohort .drain

/-- The first failure of a participant, after one more job. -/
def keep (label : String) (kept : Except Failure Unit) (outcome : Outcome Unit) :
    Except Failure Unit :=
  match kept with
  | .ok () => Children.settle label outcome
  | .error failure => .error failure

/-- An outcome that is no panic. -/
def calm : Except Failure Unit → Outcome Unit
  | .ok () => .ok ()
  | .error failure => Outcome.fail failure

/-- Goes on with a frame once the tasks above it have come to an outcome. -/
def resume (plan : Plan) (caller : Bool) (t : Thread) (s : Shared) (frame : Frame)
    (outcome : Outcome Unit) : Move :=
  match frame, outcome with
  | .leave pair, _ =>
    match plan.site.root.leave pair s.token.tally with
    | .ok tally => ⟨t.done outcome, { s with token := { s.token with tally } }, none⟩
    | .error stop => ⟨t.done (.error stop), s, none⟩
  | .rest pairs, .ok () => ⟨t.go (.inline pairs), s, none⟩
  | .permit, _ => ⟨t.done outcome, s.dropPermit caller, none⟩
  | .child, _ => ⟨none, { s with token := s.token.finish (Children.settle t.label outcome) }, none⟩
  | .worker, .error (.panicked message) =>
    ⟨t.go (.finish (Outcome.fail (.workerPanicked t.label message))), { s with aborted := true },
      none⟩
  | .worker, _ => ⟨t.go (.finish outcome), s, none⟩
  | .drained, .ok () => ⟨t.go .drain, s, none⟩
  | .drained, .error (.failed _) => ⟨t.done outcome, { s with aborted := true }, none⟩
  | .cohort, .ok () | .cohort, .error (.failed _) => ⟨t.go (.awaitCohort outcome), s, none⟩
  | .started worker total, .ok () => ⟨t.go (.start (worker + 1) total), s, none⟩
  | .started worker total, .error (.failed cause) =>
    ⟨t.go (refuseWorker worker total cause), s, none⟩
  | .offered first rest, .ok () => ⟨t.go (.offer first rest), s, none⟩
  | .opened workers, .ok () =>
    ⟨t.go (.start 0 workers), s.note caller [poolRecord workers plan.capacity], none⟩
  | .job kept, .ok () => ⟨t.go (.participate kept), s, none⟩
  | .job kept, .error _ =>
    ⟨t.go (.participate (keep t.label kept outcome)), { s with aborted := true }, none⟩
  | .failWith cause, .ok () | .failWith cause, .error (.failed _) =>
    ⟨t.done (Outcome.fail cause), s, none⟩
  | .close, .error (.panicked message) => ⟨t.go (.unwind message), s, none⟩
  | .close, _ => ⟨t.go (.giveBack outcome), s, none⟩
  | .rest _, .error _ | .offered _ _, .error _ | .opened _, .error _
  | .drained, .error (.panicked _) | .cohort, .error (.panicked _)
  | .started _ _, .error (.panicked _) | .failWith _, .error (.panicked _) =>
    ⟨t.done outcome, s, none⟩

/-- Whether a thread cannot take its step. `alone` says that no other thread is left. -/
def isBlocked (plan : Plan) (chance : Chance) (alone : Bool) (t : Thread) (s : Shared) : Bool :=
  match t.task with
  | .joinAll _ => decide (0 < s.token.children.active)
  | .unwind _ => !alone
  | .hold _ =>
    let policy := plan.config.strategy.releasePolicy
    !policy.passesClock chance.now && !s.cohort.mayRelease policy chance.expired
  | .awaitCohort _ => !s.cohort.allReleased
  | .await generation _ => (s.barrier.verdict generation).isNone
  | .ret _ => t.frames.isEmpty
  | _ => false

/-- One step of a thread that is not blocked. -/
def advance (plan : Plan) (chance : Chance) (caller : Bool) (t : Thread) (s : Shared) : Move :=
  let strategy := plan.config.strategy
  match t.task with
  | .acquire =>
    match s.token.permits.acquireInitial with
    | .ok permits => ⟨t.call .close .schedule, { s with token := { s.token with permits } }, none⟩
    | .error failure => ⟨t.done (Outcome.fail failure), s, none⟩
  | .schedule => ⟨t.go (openingTask plan), s, none⟩
  | .giveBack searched =>
    match s.token.release 1 with
    | .ok token => ⟨t.go (.joinAll searched), { s with token }, none⟩
    | .error failure => ⟨t.go (.joinAll (searched.and (Outcome.fail failure))), s, none⟩
  | .joinAll searched =>
    let (joined, token) := s.token.join
    ⟨t.done (searched.and (calm joined)), { s with token }, none⟩
  | .unwind message => ⟨t.done (Outcome.panic message), s, none⟩
  | .enter pair => enterPair plan t s pair
  | .compare pair => comparePair plan chance.interference t s pair
  | .emit pairs =>
    ⟨t.done (.ok ()), { s.add .pairsEmitted pairs.size with sink := s.sink ++ pairs }, none⟩
  | .inline [] => ⟨t.done (.ok ()), s, none⟩
  | .inline (pair :: rest) => ⟨t.call (.rest rest) (.enter pair), s, none⟩
  | .fork first rest =>
    match s.token.tryAcquire 1 with
    | (1, token) => ⟨t.go (.branchOff first rest), { s with token }, none⟩
    | _ => ⟨t.go (.inline (first :: rest)), s, none⟩
  | .branchOff first rest =>
    let child : Child := ⟨forkLabel s.token.tally.threadsSpawned, .search first⟩
    ⟨t.call (.rest rest) (.register child), s, none⟩
  | .register child => ⟨t.go (.launch child), { s with token := s.token.register }, none⟩
  | .launch child =>
    if chance.refused then ⟨t.go (.retract child), s, none⟩
    else
      let s := { s with launched := s.launched + 1 }
      ⟨t.done (.ok ()), s.note caller [Token.spawnedRecord child.label], child.thread⟩
  | .retract child => ⟨t.go (.unregister child), s.dropPermit caller, none⟩
  | .unregister child =>
    ⟨t.done (Outcome.fail (Token.spawnRefused child.label)),
      { s with token := s.token.finish (.ok ()) }, none⟩
  | .start worker total =>
    if worker < total then
      let child : Child := ⟨workerLabel strategy worker, workerErrand strategy⟩
      ⟨t.call (.started worker total) (.register child), s, none⟩
    else ⟨afterStart strategy t, s, none⟩
  | .dismiss (left + 1) unstarted cause =>
    ⟨t.go (.dismiss left unstarted cause), signOff strategy s, none⟩
  | .dismiss 0 unstarted cause => ⟨t.go (.refund unstarted cause), { s with aborted := true }, none⟩
  | .refund unstarted cause =>
    match s.token.release (unstarted - 1) with
    | .ok token => ⟨afterRefund strategy t cause, { s with token }, none⟩
    | .error failure => ⟨t.done (Outcome.fail failure), s, none⟩
  | .expand =>
    match plan.site.root.expandLevels strategy.levels [plan.site.root.start] s.token.tally with
    | .error stop => ⟨t.done (.error stop), s, none⟩
    | .ok (frontier, tally) =>
      let s := { s with token := { s.token with tally }, queue := Fifo.ofList frontier }
      ⟨t.go (.recruit frontier.length), s.add .jobsQueued frontier.length, none⟩
  | .recruit queued =>
    let (workers, token) := s.token.tryAcquire (min (s.token.permits.budget - 1) (queued - 1))
    let s := { s with token, cohort := Cohort.ofWorkers workers }
    ⟨t.go (.start 0 workers),
      s.note caller [filledRecord queued workers strategy.releasePolicy], none⟩
  | .drain => if s.aborted then ⟨t.done (.ok ()), s, none⟩ else ⟨t.go .take, s, none⟩
  | .take =>
    match s.queue.pop? with
    | none => ⟨t.done (.ok ()), s, none⟩
    | some (pair, queue) =>
      ⟨t.call .drained (.enter pair), { s.bump .jobsRun with queue }, none⟩
  | .finish drained => ⟨t.go (.hold drained), { s with cohort := s.cohort.finish }, none⟩
  | .hold drained =>
    if strategy.releasePolicy.passesClock chance.now then
      ⟨t.call .permit (.ret (Outcome.panic "overflow when adding duration to instant")), s, none⟩
    else ⟨t.go (.surrender drained), s, none⟩
  | .surrender drained => ⟨t.go (.depart drained), s.dropPermit caller, none⟩
  | .depart drained => ⟨t.done drained, { s with cohort := s.cohort.release }, none⟩
  | .awaitCohort drained => ⟨t.done drained, s, none⟩
  | .assemble =>
    let (workers, token) := s.token.tryAcquire (plan.config.threads - 1)
    ⟨t.go (.seed workers), { s with token, barrier := Barrier.ofParties (workers + 1) }, none⟩
  | .seed workers =>
    let s := { s.bump .jobsQueued with queue := s.queue.push plan.site.root.start }
    ⟨t.call (.opened workers) .announce, s, none⟩
  | .consider pair =>
    match s.aborted, pair.children with
    | false, first :: rest => ⟨t.go (.offer first rest), s, none⟩
    | _, _ => ⟨t.done (.ok ()), s, none⟩
  | .offer first [] => ⟨t.go (.enter first), s, none⟩
  | .offer first (pair :: rest) =>
    if s.queue.length < plan.capacity then
      ⟨t.call (.offered first rest) .announce,
        { s.bump .jobsQueued with queue := s.queue.push pair }, none⟩
    else ⟨t.call (.offered first rest) (.enter pair), s, none⟩
  | .announce =>
    let (broke, barrier) := s.barrier.breakWaiters
    let s := { s with barrier }
    ⟨t.done (.ok ()), if broke then s.bump .barrierBreaks else s, none⟩
  | .participate kept =>
    match s.queue.pop? with
    | some (pair, queue) => ⟨t.go (.heed pair kept), { s with queue }, none⟩
    | none => ⟨t.go (.arrive kept), s, none⟩
  | .heed pair kept =>
    if s.aborted then ⟨t.go (.participate kept), s, none⟩
    else ⟨t.call (.job kept) (.enter pair), s.bump .jobsRun, none⟩
  | .arrive kept =>
    match s.barrier.arrive with
    | (.trips, barrier) => ⟨t.go (.tripped kept), { s with barrier }, none⟩
    | (.waits generation, barrier) => ⟨t.go (.await generation kept), { s with barrier }, none⟩
  | .await generation kept =>
    match s.barrier.verdict generation with
    | some .broken => ⟨t.go (.participate kept), s, none⟩
    | _ => ⟨t.go (.tripped kept), s, none⟩
  | .tripped kept =>
    if s.queue.isEmpty then ⟨t.done (calm kept), s, none⟩ else ⟨t.go (.participate kept), s, none⟩
  | .ret outcome =>
    match t.frames with
    | frame :: frames => resume plan caller { t with frames } s frame outcome
    | [] => ⟨t, s, none⟩

end Thread
end RayAdjacency
