import RayAdjacency.Proofs.Traversal.Ending

/-!
# The cohort of a search

The cohort counts its workers as they come to an end. Those that have not come so far are still at
work, or the calling thread is still to start them; `Thread.ahead` counts them. As long as a search
is not in trouble, the two counts make up the cohort.
-/

namespace RayAdjacency

/-- How far a worker of a cohort has come: it has found the queue drained, or has given its permit
back. -/
inductive Stage where
  | finished
  | released

/-- The workers of a cohort that have come to a stage. -/
def Cohort.reached (c : Cohort) : Stage → Nat
  | .finished => c.finished
  | .released => c.released

/-- The worker that holds its permit has finished, but not released. -/
private def Stage.holding : Stage → Nat
  | .finished => 0
  | .released => 1

/-- The workers whose way to every stage goes with an errand. -/
def Errand.ahead : Errand → Nat
  | drain => 1
  | _ => 0

/-- The workers whose way to a stage goes with a task. -/
@[simp] def Task.ahead (stage : Stage) : Task → Nat
  | start worker total => total - worker
  | register child | launch child => child.errand.ahead
  | finish _ => 1
  | hold _ | surrender _ | depart _ => stage.holding
  | _ => 0

/-- The workers whose way to every stage goes with a frame. -/
@[simp] def Frame.ahead : Frame → Nat
  | worker => 1
  | started n total => total - n - 1
  | _ => 0

/-- The workers that a thread is to bring to a stage, itself included. -/
def Thread.ahead (stage : Stage) (t : Thread) : Nat :=
  t.task.ahead stage + (t.frames.map Frame.ahead).sum

namespace Thread

variable {plan : Plan} {chance : Chance} {caller : Bool} {t t' : Thread} {s : Shared} {stage : Stage}

/-- What is ahead of a thread is ahead of its task or of its frames. -/
theorem ahead_of_task {task : Task} (h : t.task = task) :
    t.ahead stage = task.ahead stage + (t.frames.map Frame.ahead).sum := by
  rw [ahead, h]

private theorem ahead_thread (child : Child) : child.thread.ahead stage = child.errand.ahead := by
  obtain ⟨label, errand⟩ := child
  cases errand <;> simp [Child.thread, ahead, Errand.ahead]

private theorem ahead_openingTask : (openingTask plan).ahead stage = 0 := by
  fun_cases openingTask plan <;> rfl

private theorem ahead_workerErrand {strategy : Strategy} (hpools : strategy.pools = false) :
    (workerErrand strategy).ahead = 1 := by
  cases strategy with
  | barrierPool factor => cases hpools
  | _ => rfl

private theorem ahead_afterStart {strategy : Strategy} :
    (afterStart strategy t).ahead stage = (t.frames.map Frame.ahead).sum := by
  rcases afterStart_eq strategy t with ⟨-, hafter⟩ | ⟨-, hafter⟩ <;> rw [hafter] <;>
    simp [ahead]

private theorem recruit_ne_resume {frame : Frame} {outcome : Outcome Unit} {queued : Nat}
    (ht' : (resume plan caller t s frame outcome).thread = some t') : t'.task ≠ .recruit queued := by
  revert ht'
  fun_cases resume plan caller t s frame outcome <;> rintro ⟨⟩ htask <;> cases htask

/-- Only the expansion leads to the recruiting of workers. -/
theorem expand_of_recruit {queued : Nat} (ht' : (t.advance plan chance caller s).thread = some t')
    (htask' : t'.task = .recruit queued) : t.task = .expand := by
  revert ht'
  fun_cases advance plan chance caller t s
  all_goals try
    rintro ⟨⟩
    first
    | cases htask'; done
    | assumption
  all_goals intro ht'
  · cases ht'
    revert htask'
    fun_cases openingTask plan <;> rintro ⟨⟩
  · rcases enterPair_eq plan t s _ with ⟨-, hmove⟩ | ⟨-, task, hfollows, hmove⟩ <;>
      rw [hmove] at ht' <;> cases ht'
    · cases htask'
    · cases hfollows <;> cases htask'
  · revert ht'
    fun_cases comparePair plan chance.interference t s _ <;> rintro ⟨⟩ <;> cases htask'
  · rcases afterStart_eq plan.config.strategy t with ⟨-, hafter⟩ | ⟨-, hafter⟩ <;>
      rw [hafter] at ht' <;> cases ht' <;> cases htask'
  · rcases afterRefund_eq plan.config.strategy t _ with ⟨-, hafter⟩ | ⟨-, hafter⟩ <;>
      rw [hafter] at ht' <;> cases ht' <;> cases htask'
  · exact absurd htask' (recruit_ne_resume ht')
  · cases ht'
    have htask := htask'.symm.trans ‹t.task = .ret _›
    cases htask

private theorem ahead_enterPair (pair : NodePair) :
    (enterPair plan t s pair).shared.cohort = s.cohort ∧
      Machine.weigh (ahead stage) (enterPair plan t s pair).threads =
        (t.frames.map Frame.ahead).sum := by
  rcases enterPair_eq plan t s pair with ⟨-, hmove⟩ | ⟨-, task, hfollows, hmove⟩ <;> rw [hmove]
  · exact ⟨rfl, by simp [Machine.weigh, Move.threads, ahead]⟩
  · have htask : task.ahead stage = 0 := by cases hfollows <;> rfl
    exact ⟨rfl, by simp [Machine.weigh, Move.threads, ahead, htask, -Task.ahead]⟩

private theorem ahead_comparePair (env : Interference) (pair : NodePair) :
    (comparePair plan env t s pair).shared.cohort = s.cohort ∧
      Machine.weigh (ahead stage) (comparePair plan env t s pair).threads =
        (t.frames.map Frame.ahead).sum := by
  fun_cases comparePair plan env t s pair
  all_goals exact ⟨rfl, by simp [Machine.weigh, Move.threads, ahead]⟩

private theorem ahead_resume {frame : Frame} {outcome : Outcome Unit}
    (hpools : plan.config.strategy.pools = false)
    (hreturns : Returns plan.config.strategy caller (frame :: t.frames) outcome)
    (houtcome : outcome.isOk = true) :
    (resume plan caller t s frame outcome).shared.cohort = s.cohort ∧
      Machine.weigh (ahead stage) (resume plan caller t s frame outcome).threads =
        frame.ahead + (t.frames.map Frame.ahead).sum := by
  obtain ⟨-, hsuits, hstands⟩ := hreturns
  fun_cases resume plan caller t s frame outcome
  all_goals try
    cases houtcome
    done
  all_goals try
    refine ⟨by first | rfl | exact Shared.cohort_dropPermit _ _, ?_⟩
    simp [Machine.weigh, Move.threads, ahead]
    done
  · obtain ⟨hframes, -⟩ := stands_gone hstands
    exact ⟨rfl, by simp [Machine.weigh, Move.threads, hframes]⟩
  · refine ⟨rfl, ?_⟩
    simp [Machine.weigh, Move.threads, ahead]
    omega
  · rw [Frame.suits, hpools] at hsuits
    cases hsuits

private theorem ahead_launch {child : Child} (htask : t.task = .launch child)
    (hmove : (t.advance plan chance caller s).isTroubled = false) :
    (t.advance plan chance caller s).shared.cohort = s.cohort ∧
      Machine.weigh (ahead stage) (t.advance plan chance caller s).threads = t.ahead stage := by
  rw [ahead_of_task htask]
  simp only [advance, htask] at hmove ⊢
  split at hmove
  · cases hmove
  · next hgranted =>
    rw [if_neg hgranted, Shared.cohort_note]
    refine ⟨rfl, ?_⟩
    simp only [Machine.weigh, Move.threads, Option.toList_some, List.cons_append, List.nil_append,
      ahead_thread]
    simp [ahead]
    omega

private theorem ahead_start {worker total : Nat} (hpools : plan.config.strategy.pools = false)
    (htask : t.task = .start worker total) :
    (t.advance plan chance caller s).shared.cohort = s.cohort ∧
      Machine.weigh (ahead stage) (t.advance plan chance caller s).threads = t.ahead stage := by
  have herrand := ahead_workerErrand hpools
  rw [ahead_of_task htask]
  simp only [advance, htask]
  split
  · refine ⟨rfl, ?_⟩
    simp [Machine.weigh, Move.threads, ahead, herrand]
    omega
  · refine ⟨rfl, ?_⟩
    simp [Machine.weigh, Move.threads, ahead_afterStart]
    omega

private theorem ahead_of_others (htyped : t.Typed plan.config.strategy caller)
    (hpools : plan.config.strategy.pools = false) (hrecruit : ∀ queued, t.task ≠ .recruit queued)
    (hfinish : ∀ drained, t.task ≠ .finish drained) (hdepart : ∀ drained, t.task ≠ .depart drained)
    (h : t.isTroubled = false) (hmove : (t.advance plan chance caller s).isTroubled = false) :
    (t.advance plan chance caller s).shared.cohort = s.cohort ∧
      Machine.weigh (ahead stage) (t.advance plan chance caller s).threads = t.ahead stage := by
  rw [isTroubled, Bool.or_eq_false_iff] at h
  cases htask : t.task with
  | recruit queued => exact absurd htask (hrecruit queued)
  | finish drained => exact absurd htask (hfinish drained)
  | depart drained => exact absurd htask (hdepart drained)
  | unwind _ | retract _ | unregister _ | dismiss _ _ _ | refund _ _ =>
    rw [htask] at h
    cases h.1
  | assemble | seed _ | consider _ | offer _ _ | participate _ | heed _ _ | arrive _ | await _ _
  | tripped _ =>
    have hsuits := (htyped.stands htask (by simp)).1
    simp [Task.suits, hpools] at hsuits
  | schedule =>
    have hopening : (openingTask plan).ahead stage = 0 := ahead_openingTask
    simp [advance, htask, Machine.weigh, Move.threads, ahead, hopening, -Task.ahead]
    rfl
  | enter pair =>
    simpa [advance, htask, ahead_of_task htask] using
      @ahead_enterPair plan t s stage pair
  | compare pair =>
    simpa [advance, htask, ahead_of_task htask] using
      @ahead_comparePair plan t s stage chance.interference pair
  | inline pairs =>
    cases pairs <;>
      simp [advance, htask, Machine.weigh, Move.threads, ahead]
  | launch child => exact ahead_launch htask hmove
  | start worker total => exact ahead_start hpools htask
  | hold drained =>
    rw [ahead_of_task htask]
    simp only [advance, htask] at hmove ⊢
    split at hmove
    · simp [Move.isTroubled, isTroubled, Task.isTroubled] at hmove
    · next hclock =>
      rw [if_neg hclock]
      exact ⟨rfl, rfl⟩
  | announce =>
    simp only [advance, htask]
    constructor <;> split <;> simp [Machine.weigh, Move.threads, ahead, htask]
  | ret outcome =>
    cases hframes : t.frames with
    | nil => simp [advance, htask, hframes, Machine.weigh, Move.threads]
    | cons frame frames =>
      have hreturns := htyped.returns htask
      rw [hframes] at hreturns
      have hok : outcome.isOk = true := by
        rw [htask] at h
        simpa [Task.isTroubled] using h.1
      simpa [advance, htask, hframes, ahead_of_task htask] using
        @ahead_resume plan caller { t with frames } s stage frame outcome hpools hreturns hok
  | _ =>
    rw [ahead_of_task htask]
    simp only [advance, htask]
    repeat' split
    all_goals
      simp [Machine.weigh, Move.threads, ahead, Errand.ahead]

/-- A step that does not recruit keeps the count. -/
theorem ahead_advance (htyped : t.Typed plan.config.strategy caller)
    (hpools : plan.config.strategy.pools = false) (hrecruit : ∀ queued, t.task ≠ .recruit queued)
    (h : t.isTroubled = false) (hmove : (t.advance plan chance caller s).isTroubled = false) :
    (t.advance plan chance caller s).shared.cohort.workers = s.cohort.workers ∧
    (t.advance plan chance caller s).shared.cohort.reached stage
        + Machine.weigh (ahead stage) (t.advance plan chance caller s).threads =
      s.cohort.reached stage + t.ahead stage := by
  cases htask : t.task with
  | finish drained =>
    rw [ahead_of_task htask]
    simp only [advance, htask]
    refine ⟨rfl, ?_⟩
    cases stage <;>
      simp [Machine.weigh, Move.threads, ahead, Cohort.finish, Cohort.reached, Stage.holding]
    omega
  | depart drained =>
    rw [ahead_of_task htask]
    simp only [advance, htask]
    refine ⟨rfl, ?_⟩
    cases stage <;>
      simp [Machine.weigh, Move.threads, ahead, Cohort.release, Cohort.reached, Stage.holding]
    omega
  | _ =>
    obtain ⟨hcohort, hweigh⟩ := @ahead_of_others plan chance caller t s stage htyped hpools hrecruit
      (by simp [htask]) (by simp [htask]) h hmove
    rw [hcohort, hweigh]
    exact ⟨rfl, rfl⟩

end Thread

namespace Machine

variable {plan : Plan} {chance : Chance} {m m' : Machine} {stage : Stage}

private theorem alone_of_recruit {queued : Nat} (hm : Reachable plan m)
    (htask : m.caller.task = .recruit queued) : m.workers = [] := by
  -- Workers are recruited by the calling thread while it is alone.
  revert htask
  refine Reachable.induction hm (fun _ ↦ rfl) fun {m m' chance t} hm htyped hmoved ih htask ↦ ?_
  cases hmoved with
  | caller hready hmove =>
    have hbefore := Thread.expand_of_recruit (by rw [hmove]) htask
    have hstarted : (m.caller.advance plan chance true m.shared).started = none :=
      Thread.started_eq_none (by simp [hbefore])
    rw [hmove] at hstarted
    obtain rfl := hstarted
    simp [(alone_of_opens hm (by rw [hbefore]; rfl)).1]
  | worker hworkers =>
    rw [ih htask] at hworkers
    simp at hworkers

private theorem reached_of_recruit {caller : Bool} {t : Thread} {others : List Thread} {queued : Nat}
    (hm : Reachable plan m) (htyped : Typed plan m)
    (hreplaced : Replaced plan chance m m' caller t others) (htask : t.task = .recruit queued) :
    m'.shared.cohort.workers =
      m'.shared.cohort.reached stage + weigh (Thread.ahead stage) m'.threads := by
  obtain ⟨hframes, hcaller⟩ :=
    stands_leading ((htyped.of_replaced hreplaced).stands htask (by simp)).2
  obtain rfl := hreplaced.caller_eq hcaller
  have hothers : others = [] := by
    have hlength := hreplaced.before.length_eq
    rw [threads, alone_of_recruit hm htask] at hlength
    exact List.eq_nil_of_length_eq_zero (by simpa using hlength.symm)
  rw [weigh_perm hreplaced.after, hothers, hreplaced.shared_eq, Thread.advance, htask]
  cases stage <;>
    simp [weigh, Move.threads, Thread.ahead, hframes, Cohort.ofWorkers, Cohort.reached]

/-- As long as a search without a pool is not in trouble, the workers of the cohort that have come to
a stage and those that are still to come make up the whole. -/
theorem workers_cohort_of_reachable (hpools : plan.config.strategy.pools = false)
    (hm : Reachable plan m) (h : ¬Troubled m) (stage : Stage) :
    m.shared.cohort.workers = m.shared.cohort.reached stage + weigh (Thread.ahead stage) m.threads := by
  revert h
  refine Reachable.induction hm (fun _ ↦ by cases stage <;> rfl)
    fun {m m' chance t} hm htyped hmoved ih h ↦ ?_
  obtain ⟨caller, others, hreplaced⟩ := hmoved.exists_replaced
  by_cases hrecruit : ∃ queued, t.task = .recruit queued
  · obtain ⟨queued, htask⟩ := hrecruit
    exact reached_of_recruit hm htyped hreplaced htask
  · obtain ⟨hbefore, -, htroubled, hmove⟩ := calm_of_moved hm htyped hmoved hreplaced h
    obtain ⟨hworkers, hreached⟩ := @Thread.ahead_advance plan chance caller t m.shared stage
      (htyped.of_replaced hreplaced) hpools (fun queued htask ↦ hrecruit ⟨queued, htask⟩)
      htroubled hmove
    have ih := ih hbefore
    rw [weigh_perm hreplaced.before, weigh] at ih
    rw [weigh_perm hreplaced.after, weigh_append, hreplaced.shared_eq, hworkers]
    omega

end Machine
end RayAdjacency
