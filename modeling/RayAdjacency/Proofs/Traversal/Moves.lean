import RayAdjacency.Proofs.Traversal.Duties
import RayAdjacency.Proofs.Traversal.Reachable

/-!
# Moves

What becomes of a thread in the steps that decide between several tasks. Where a thread enters a
node pair, `Thread.Follows` lists the tasks that may follow.
-/

namespace RayAdjacency

namespace Strategy

/-- Whether threads fork. -/
def forks : Strategy → Bool
  | incrementalFork | jobQueue _ _ => true
  | _ => false

/-- Whether a job queue is drained. -/
def queues : Strategy → Bool
  | jobQueue _ _ => true
  | _ => false

/-- Whether a pool is at work. -/
def pools : Strategy → Bool
  | barrierPool _ => true
  | _ => false

variable {strategy : Strategy}

/-- The threads of a pool do not fork. -/
theorem forks_of_pools (h : strategy.pools = true) : strategy.forks = false := by
  cases strategy <;> first | rfl | cases h

/-- A pool drains no job queue. -/
theorem queues_of_pools (h : strategy.pools = true) : strategy.queues = false := by
  cases strategy <;> first | rfl | cases h

end Strategy

namespace Shared

variable (s : Shared) (caller : Bool) (records : List LogRecord) (c : Counter) (n : Nat)

/-- Writing a record changes the log alone. -/
theorem note_eq : ∃ log, s.note caller records = { s with log } := by
  rw [note]
  split
  · exact ⟨_, rfl⟩
  · exact ⟨s.log, rfl⟩

/-- Writing records leaves the token alone. -/
@[simp] theorem token_note : (s.note caller records).token = s.token := by
  obtain ⟨log, h⟩ := s.note_eq caller records
  rw [h]

/-- Writing records leaves the pairs found alone. -/
@[simp] theorem sink_note : (s.note caller records).sink = s.sink := by
  obtain ⟨log, h⟩ := s.note_eq caller records
  rw [h]

/-- Writing records leaves the queue alone. -/
@[simp] theorem queue_note : (s.note caller records).queue = s.queue := by
  obtain ⟨log, h⟩ := s.note_eq caller records
  rw [h]

/-- Writing records leaves the barrier alone. -/
@[simp] theorem barrier_note : (s.note caller records).barrier = s.barrier := by
  obtain ⟨log, h⟩ := s.note_eq caller records
  rw [h]

/-- Writing records leaves the cohort alone. -/
@[simp] theorem cohort_note : (s.note caller records).cohort = s.cohort := by
  obtain ⟨log, h⟩ := s.note_eq caller records
  rw [h]

/-- Writing records leaves the mark of an abort alone. -/
@[simp] theorem aborted_note : (s.note caller records).aborted = s.aborted := by
  obtain ⟨log, h⟩ := s.note_eq caller records
  rw [h]

/-- Writing records leaves the questions asked alone. -/
@[simp] theorem asked_note : (s.note caller records).asked = s.asked := by
  obtain ⟨log, h⟩ := s.note_eq caller records
  rw [h]

/-- Dropping the permit of a thread drops a guard of one permit. -/
@[simp] theorem token_dropPermit : (s.dropPermit caller).token = (s.token.dropGuard 1).1 := by
  simp [dropPermit]

/-- Dropping the permit of a thread leaves the pairs found alone. -/
@[simp] theorem sink_dropPermit : (s.dropPermit caller).sink = s.sink := by
  simp [dropPermit]

/-- Dropping the permit of a thread leaves the queue alone. -/
@[simp] theorem queue_dropPermit : (s.dropPermit caller).queue = s.queue := by
  simp [dropPermit]

/-- Dropping the permit of a thread leaves the barrier alone. -/
@[simp] theorem barrier_dropPermit : (s.dropPermit caller).barrier = s.barrier := by
  simp [dropPermit]

/-- Dropping the permit of a thread leaves the cohort alone. -/
@[simp] theorem cohort_dropPermit : (s.dropPermit caller).cohort = s.cohort := by
  simp [dropPermit]

/-- Dropping the permit of a thread leaves the mark of an abort alone. -/
@[simp] theorem aborted_dropPermit : (s.dropPermit caller).aborted = s.aborted := by
  simp [dropPermit]

/-- Dropping the permit of a thread leaves the questions asked alone. -/
@[simp] theorem asked_dropPermit : (s.dropPermit caller).asked = s.asked := by
  simp [dropPermit]

/-- Counting leaves the registry of children alone. -/
@[simp] theorem children_add : (s.add c n).token.children = s.token.children := rfl

/-- Counting leaves the permits alone. -/
@[simp] theorem permits_add : (s.add c n).token.permits = s.token.permits := rfl

/-- Counting leaves the pairs found alone. -/
@[simp] theorem sink_add : (s.add c n).sink = s.sink := rfl

/-- Counting leaves the queue alone. -/
@[simp] theorem queue_add : (s.add c n).queue = s.queue := rfl

/-- Counting leaves the barrier alone. -/
@[simp] theorem barrier_add : (s.add c n).barrier = s.barrier := rfl

/-- Counting leaves the cohort alone. -/
@[simp] theorem cohort_add : (s.add c n).cohort = s.cohort := rfl

/-- Counting leaves the mark of an abort alone. -/
@[simp] theorem aborted_add : (s.add c n).aborted = s.aborted := rfl

/-- Counting leaves the questions asked alone. -/
@[simp] theorem asked_add : (s.add c n).asked = s.asked := rfl

/-- One event is counted as a number of events is. -/
@[simp] theorem bump_eq : s.bump c = s.add c 1 := rfl

end Shared

namespace Thread

/-- The tasks that may follow once a pair has been entered. -/
inductive Follows (strategy : Strategy) (pair : NodePair) : Task → Prop
  /-- There is no ray to search. -/
  | empty (h : pair.isEmpty = true) : Follows strategy pair (.ret (.ok ()))
  /-- The pairs below are searched in order. -/
  | inline (h : pair.isEmpty = false) (hinternal : pair.isInternal = true)
      (hpools : strategy.pools = false) : Follows strategy pair (.inline pair.children)
  /-- The pairs below are searched by several threads. -/
  | fork {first : NodePair} {rest : List NodePair} (h : pair.isEmpty = false)
      (hinternal : pair.isInternal = true) (hforks : strategy.forks = true)
      (hchildren : pair.children = first :: rest) : Follows strategy pair (.fork first rest)
  /-- The pairs below are offered to a pool. -/
  | consider (h : pair.isEmpty = false) (hinternal : pair.isInternal = true)
      (hpools : strategy.pools = true) : Follows strategy pair (.consider pair)
  /-- The rays of two terminal nodes are compared. -/
  | compare (h : pair.isEmpty = false) (hterminal : pair.isInternal = false) :
      Follows strategy pair (.compare pair)

variable {plan : Plan} {t : Thread} {s : Shared} {pair : NodePair}

private theorem follows_branchTask {strategy : Strategy} (h : pair.isEmpty = false)
    (hinternal : pair.isInternal = true) : Follows strategy pair (branchTask strategy pair) := by
  cases strategy with
  | sequential => exact .inline h hinternal rfl
  | barrierPool factor => exact .consider h hinternal rfl
  | _ =>
    dsimp only [branchTask]
    split
    · next hchildren => exact .fork h hinternal rfl hchildren
    · exact .inline h hinternal rfl

/-- A pair that is not admitted is turned away; an admitted one is entered. -/
theorem enterPair_eq (plan : Plan) (t : Thread) (s : Shared) (pair : NodePair) :
    let s' : Shared :=
      { s with token := { s.token with tally := (plan.site.root.enter pair s.token.tally).2 } }
    (plan.site.root.admits pair = false ∧
      enterPair plan t s pair = ⟨some (t.done (.ok ())), s', none⟩) ∨
    (plan.site.root.admits pair = true ∧ ∃ task, Follows plan.config.strategy pair task ∧
      enterPair plan t s pair = ⟨some (t.call (.leave pair) task), s', none⟩) := by
  have henter : plan.site.root.enter pair s.token.tally =
      (plan.site.root.admits pair, (plan.site.root.enter pair s.token.tally).2) :=
    Prod.ext (plan.site.root.enter_fst pair s.token.tally) rfl
  rw [enterPair, henter]
  by_cases h : plan.site.root.admits pair = true
  · let task : Task :=
      if pair.isEmpty then .ret (.ok ())
      else if pair.isInternal then branchTask plan.config.strategy pair
      else .compare pair
    have hfollows : Follows plan.config.strategy pair task := by
      by_cases hempty : pair.isEmpty = true
      · rw [show task = .ret (.ok ()) from if_pos hempty]
        exact .empty hempty
      · rw [show task = _ from if_neg hempty]
        rw [Bool.not_eq_true] at hempty
        split
        · next hinternal => exact follows_branchTask hempty hinternal
        · next hterminal => exact .compare hempty (Bool.not_eq_true _ ▸ hterminal)
    refine .inr ⟨h, task, hfollows, ?_⟩
    rw [h]
    rfl
  · rw [Bool.not_eq_true] at h
    refine .inl ⟨h, ?_⟩
    rw [h]
    rfl

/-- Once all workers have been started, the calling thread takes part in the pool or drains the
queue. -/
theorem afterStart_eq (strategy : Strategy) (t : Thread) :
    (strategy.pools = true ∧ afterStart strategy t = t.go (.participate (.ok ()))) ∨
      (strategy.pools = false ∧ afterStart strategy t = t.call .cohort .drain) := by
  cases strategy with
  | barrierPool factor => exact .inl ⟨rfl, rfl⟩
  | _ => exact .inr ⟨rfl, rfl⟩

/-- Signing a worker off takes a party from the barrier, or a worker from the cohort. -/
theorem signOff_eq (strategy : Strategy) (s : Shared) :
    (strategy.pools = true ∧ signOff strategy s = { s with barrier := s.barrier.leave }) ∨
      (strategy.pools = false ∧ signOff strategy s = { s with cohort := s.cohort.abandon }) := by
  cases strategy with
  | barrierPool factor => exact .inl ⟨rfl, rfl⟩
  | _ => exact .inr ⟨rfl, rfl⟩

/-- Signing a worker off leaves the token alone. -/
@[simp] theorem token_signOff (strategy : Strategy) : (signOff strategy s).token = s.token := by
  fun_cases signOff strategy s <;> rfl

/-- Signing a worker off leaves the queue alone. -/
@[simp] theorem queue_signOff (strategy : Strategy) : (signOff strategy s).queue = s.queue := by
  fun_cases signOff strategy s <;> rfl

/-- Signing a worker off leaves the mark of an abort alone. -/
@[simp] theorem aborted_signOff (strategy : Strategy) :
    (signOff strategy s).aborted = s.aborted := by
  fun_cases signOff strategy s <;> rfl

/-- After a refusal the calling thread takes part in the pool or waits for the cohort, and fails. -/
theorem afterRefund_eq (strategy : Strategy) (t : Thread) (cause : Failure) :
    (strategy.pools = true ∧
      afterRefund strategy t cause = t.call (.failWith cause) (.participate (.ok ()))) ∨
    (strategy.pools = false ∧
      afterRefund strategy t cause = t.go (.awaitCohort (Outcome.fail cause))) := by
  cases strategy with
  | barrierPool factor => exact .inl ⟨rfl, rfl⟩
  | _ => exact .inr ⟨rfl, rfl⟩

end Thread
end RayAdjacency
