import RayAdjacency.Proofs.Traversal.Cohorts
import RayAdjacency.Proofs.Traversal.Quiescence
import RayAdjacency.Proofs.Traversal.Smooth

/-!
# Progress

A search that has neither ended nor come into trouble can take a step. Threads wait for each other
in four places only: the calling thread for its children and for the cohort, a worker for half of the
cohort, and a participant for the others at the barrier. Whoever waits for the cohort waits for
threads that have not come so far, and these are not blocked.
-/

namespace RayAdjacency

namespace Thread

/-- Where a thread waits for others, apart from trouble. -/
inductive Waits (strategy : Strategy) (caller : Bool) (t : Thread) (s : Shared) : Prop
  /-- The calling thread waits for its children. -/
  | joinAll {searched : Outcome Unit} (htask : t.task = .joinAll searched) (hframes : t.frames = [])
      (hcaller : caller = true) (hactive : 0 < s.token.children.active)
  /-- A worker waits for the others to find the queue drained. -/
  | hold {drained : Outcome Unit} (hqueues : strategy.queues = true) (htask : t.task = .hold drained)
      (hframes : t.frames = [.child]) (hcaller : caller = false)
      (hfinished : s.cohort.finished < s.cohort.workers)
  /-- The calling thread waits for the permits of the cohort. -/
  | awaitCohort {drained : Outcome Unit} (hqueues : strategy.queues = true)
      (htask : t.task = .awaitCohort drained) (hframes : t.frames = [.close])
      (hcaller : caller = true) (hreleased : s.cohort.released < s.cohort.workers)
  /-- A participant waits at the barrier. -/
  | await {g : Nat} {kept : Except Failure Unit} (hpools : strategy.pools = true)
      (htask : t.task = .await g kept)

variable {plan : Plan} {chance : Chance} {caller alone : Bool} {t : Thread} {s : Shared}

/-- Where a thread is blocked, if the time of its waits has run out. -/
theorem waits_of_isBlocked (htyped : t.Typed plan.config.strategy caller) (h : t.isTroubled = false)
    (hexpired : chance.expired = true) (ho : caller = true → t.outcome? = none)
    (hblocked : t.isBlocked plan chance alone s = true) : t.Waits plan.config.strategy caller s := by
  rw [isTroubled, Bool.or_eq_false_iff] at h
  rw [isBlocked] at hblocked
  split at hblocked
  · next searched htask =>
    obtain ⟨hframes, hcaller⟩ := stands_main (htyped.stands htask (by simp)).2
    exact .joinAll htask hframes hcaller (of_decide_eq_true hblocked)
  · next message htask =>
    rw [htask] at h
    cases h.1
  · next drained htask =>
    obtain ⟨hqueues, hstands⟩ := htyped.stands htask (by simp)
    obtain ⟨hframes, hcaller⟩ := stands_parting hstands
    refine .hold hqueues htask hframes hcaller ?_
    by_contra hfinished
    revert hblocked
    cases plan.config.strategy.releasePolicy <;> simp [Cohort.mayRelease, hexpired]
    omega
  · next drained htask =>
    obtain ⟨hqueues, hstands⟩ := htyped.stands htask (by simp)
    obtain ⟨hframes, hcaller⟩ := stands_leading hstands
    refine .awaitCohort hqueues htask hframes hcaller ?_
    simpa [Cohort.allReleased] using hblocked
  · next g kept htask => exact .await (htyped.stands htask (by simp)).1 htask
  · next o htask =>
    rw [List.isEmpty_iff] at hblocked
    have hcaller := htyped.returns htask
    rw [hblocked] at hcaller
    have hnone := ho hcaller
    rw [outcome?, hblocked, htask] at hnone
    cases hnone
  · cases hblocked

/-- Outside of a pool, whoever waits has come as far as the end of the queue, and the calling thread
has no further to go. -/
theorem ahead_of_waits {strategy : Strategy} (hpools : strategy.pools = false)
    (h : t.Waits strategy caller s) :
    t.ahead .finished = 0 ∧ (caller = true → t.ahead .released = 0) := by
  cases h with
  | joinAll htask hframes => simp [ahead, htask, hframes, Task.ahead]
  | hold _ htask hframes hcaller =>
    refine ⟨by rw [ahead, htask, hframes]; rfl, fun hcaller' ↦ ?_⟩
    rw [hcaller] at hcaller'
    cases hcaller'
  | awaitCohort _ htask hframes => simp [ahead, htask, hframes, Task.ahead, Frame.ahead]
  | await hpools' =>
    rw [hpools] at hpools'
    cases hpools'

/-- In a pool, whoever has returned waits for the children at most. -/
theorem exists_joinAll_of_waits {strategy : Strategy} (hpools : strategy.pools = true)
    (htyped : t.Typed strategy caller) (hpart : ¬t.takesPart) (h : t.Waits strategy caller s) :
    caller = true ∧ (∃ searched, t.task = .joinAll searched) ∧ 0 < s.token.children.active := by
  cases h with
  | joinAll htask hframes hcaller hactive => exact ⟨hcaller, ⟨_, htask⟩, hactive⟩
  | hold hqueues | awaitCohort hqueues =>
    rw [Strategy.queues_of_pools hpools] at hqueues
    cases hqueues
  | await _ htask =>
    rw [takesPart, seats_of_participating htyped (by rw [htask]; rfl)] at hpart
    exact absurd Nat.one_pos hpart

end Thread

namespace Machine

variable {plan : Plan} {chance : Chance} {m : Machine}

/-- A machine all of whose threads wait. -/
structure Stuck (plan : Plan) (m : Machine) : Prop where
  caller : m.caller.Waits plan.config.strategy true m.shared
  workers : ∀ t ∈ m.workers, t.Waits plan.config.strategy false m.shared

private theorem active_of_alone {searched : Outcome Unit} (hm : Reachable plan m)
    (hworkers : m.workers = []) (htask : m.caller.task = .joinAll searched) :
    m.shared.token.children.active = 0 := by
  have hheads := heads_threads hm
  have hcaller : m.caller.heads = 1 := by rw [Thread.heads, htask]
  rw [threads, hworkers, weigh, hcaller, weigh] at hheads
  omega

private theorem not_stuck_of_pools (hpools : plan.config.strategy.pools = true)
    (hm : Reachable plan m) (hnone : ∀ t ∈ m.threads, ¬t.takesPart) : ¬Stuck plan m := by
  -- In a pool some participant can go on; once there is none, the calling thread waits for nobody.
  intro h
  have htyped := typed_of_reachable hm
  have hworkers : m.workers = [] := by
    refine List.eq_nil_iff_forall_not_mem.mpr fun t ht ↦ ?_
    have hjoin := Thread.exists_joinAll_of_waits hpools (htyped.workers t ht)
      (hnone t (.tail _ ht)) (h.workers t ht)
    cases hjoin.1
  obtain ⟨-, ⟨searched, htask⟩, hactive⟩ :=
    Thread.exists_joinAll_of_waits hpools htyped.caller (hnone _ (.head _)) h.caller
  rw [active_of_alone hm hworkers htask] at hactive
  exact Nat.lt_irrefl 0 hactive

private theorem not_stuck_of_cohort (hpools : plan.config.strategy.pools = false)
    (hm : Reachable plan m) (hcalm : ¬Troubled m) : ¬Stuck plan m := by
  -- Where all threads wait, the cohort has come to the end of the queue, so no worker waits; then
  -- the calling thread waits for nobody.
  intro h
  have hcaller := Thread.ahead_of_waits hpools h.caller
  have hfinished : weigh (Thread.ahead .finished) m.threads = 0 := by
    by_contra hpos
    obtain ⟨t, ht, hahead⟩ := exists_of_weigh_pos (Nat.pos_of_ne_zero hpos)
    rcases List.mem_cons.mp ht with rfl | ht
    · omega
    · have := (Thread.ahead_of_waits hpools (h.workers t ht)).1
      omega
  have hreached := workers_cohort_of_reachable hpools hm hcalm .finished
  rw [hfinished, Nat.add_zero, Cohort.reached] at hreached
  -- No release policy makes a worker wait for a cohort that has finished as a whole.
  have hworkers : m.workers = [] := by
    refine List.eq_nil_iff_forall_not_mem.mpr fun t ht ↦ ?_
    cases h.workers t ht with
    | hold _ _ _ _ hlt => omega
    | joinAll _ _ hcaller => cases hcaller
    | awaitCohort _ _ _ hcaller => cases hcaller
    | await hpools' => rw [hpools] at hpools'; cases hpools'
  cases h.caller with
  | joinAll htask _ _ hactive =>
    rw [active_of_alone hm hworkers htask] at hactive
    exact Nat.lt_irrefl 0 hactive
  | hold _ _ _ hcaller => cases hcaller
  | awaitCohort _ _ _ _ hlt =>
    have hreleased := workers_cohort_of_reachable hpools hm hcalm .released
    rw [threads, hworkers, weigh, hcaller.2 rfl, weigh, Cohort.reached] at hreleased
    omega
  | await hpools' => rw [hpools] at hpools'; cases hpools'

/-- As long as a search has neither ended nor come into trouble, a thread can go on once the time of
its wait has run out. -/
theorem exists_ready (hthreads : 1 ≤ plan.config.threads) (hm : Reachable plan m)
    (hcalm : ¬Troubled m) (ho : m.outcome? = none) (hexpired : chance.expired = true) :
    ∃ t ∈ m.threads, t.isBlocked plan chance m.workers.isEmpty m.shared = false := by
  by_contra hnone
  simp only [not_exists, not_and, Bool.not_eq_false] at hnone
  have htyped := typed_of_reachable hm
  have hquiet {t : Thread} (ht : t ∈ m.threads) : t.isTroubled = false :=
    Bool.eq_false_iff.mpr fun htroubled ↦ hcalm (.inl ⟨t, ht, htroubled⟩)
  have hstuck : Stuck plan m := by
    constructor
    · exact Thread.waits_of_isBlocked htyped.caller (hquiet (.head _)) hexpired (fun _ ↦ ho)
        (hnone _ (.head _))
    · intro t ht
      exact Thread.waits_of_isBlocked (htyped.workers t ht) (hquiet (.tail _ ht)) hexpired
        (fun hcaller ↦ by cases hcaller) (hnone t (.tail _ ht))
  by_cases hpools : plan.config.strategy.pools = true
  -- A participant that is not blocked does not wait, so in a stuck pool all have returned.
  · refine not_stuck_of_pools hpools hm (fun t ht hpart ↦ ?_) hstuck
    obtain ⟨u, hu, -, hready⟩ := exists_ready_of_takesPart hpools hthreads hm ht hpart
    have hblocked := hnone u hu
    rw [hready] at hblocked
    cases hblocked
  · exact not_stuck_of_cohort (Bool.not_eq_true _ ▸ hpools) hm hcalm hstuck

/-- A thread that is not blocked can be let go on. -/
theorem exists_step_of_ready {t : Thread} (ht : t ∈ m.threads)
    (hready : t.isBlocked plan chance m.workers.isEmpty m.shared = false) :
    ∃ choice m', choice.toChance = chance ∧ m.step plan choice = some m' := by
  rcases List.mem_cons.mp ht with rfl | ht
  · refine ⟨{ chance with worker := none }, ?_⟩
    simp [step, stepCaller, isReady, hready]
  · obtain ⟨i, hi, rfl⟩ := List.getElem_of_mem ht
    refine ⟨{ chance with worker := some i }, ?_⟩
    simp [step, stepWorker, isReady, hi, hready]

/-- As long as a search has neither ended nor come into trouble, it can take a step in which nothing
is refused. -/
theorem exists_step (hthreads : 1 ≤ plan.config.threads) (hm : Reachable plan m)
    (hcalm : ¬Troubled m) (ho : m.outcome? = none) (latest : Duration) :
    ∃ choice m', choice.toChance.Grants latest ∧ m.step plan choice = some m' := by
  obtain ⟨t, ht, hready⟩ :=
    @exists_ready plan { now := latest, expired := true } m hthreads hm hcalm ho rfl
  obtain ⟨choice, m', hchance, hstep⟩ := exists_step_of_ready ht hready
  exact ⟨choice, m', hchance ▸ ⟨rfl, Nat.le_refl _, rfl⟩, hstep⟩

end Machine
end RayAdjacency
