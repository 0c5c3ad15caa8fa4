import Mathlib.Data.Prod.Lex
import RayAdjacency.Proofs.Traversal.Progress

/-!
# Termination

Every run of a search in which nothing is refused comes to an end, whatever the schedule. What is
left to do goes down with every step. There are finitely many pairs to ask for; between two of them a
thread unwinds what it has on its stack, where each task and frame has a *weight*. Only at the
barrier of a pool a thread goes back and forth without any weight being spent, but it does not
wait again in a generation before the barrier has been broken by new work.
-/

namespace RayAdjacency

/-- The number of steps before the work of a search begins. -/
def Task.lead : Task → Nat
  | acquire => 4
  | schedule => 3
  | expand | assemble => 2
  | recruit _ | seed _ => 1
  | _ => 0

/-- The weight of a new thread, which it brings from the task that asks for it. -/
private def launchWeight : Nat := 11

/-- The weight of a task: a bound on the steps to come before the thread asks for another pair. -/
@[simp] def Task.weight : Task → Nat
  | ret _ => 1
  | giveBack _ => 3
  | joinAll _ => 2
  | compare _ => 3
  | emit _ => 2
  | inline pairs => pairs.length + 2
  | fork _ rest => rest.length + launchWeight + 5
  | branchOff _ rest => rest.length + launchWeight + 4
  | register _ => launchWeight + 1
  | launch _ => launchWeight
  | start worker total => (launchWeight + 2) * (total - worker) + 6
  | drain => 3
  | take => 2
  | finish _ => 5
  | hold _ => 4
  | surrender _ => 3
  | depart _ => 2
  | awaitCohort _ => 2
  | consider pair => 5 * pair.children.length + 2
  | offer _ rest => 5 * rest.length + 1
  | announce => 2
  | participate _ | arrive _ | await .. => 3
  | heed .. => 4
  | tripped _ => 2
  | _ => 0

/-- The weight of a frame. -/
@[simp] def Frame.weight : Frame → Nat
  | leave _ | permit | child => 1
  | rest pairs => pairs.length + 2
  | worker => 5
  | drained | job _ | close => 3
  | cohort => 2
  | started n total => (launchWeight + 2) * (total - (n + 1)) + 6
  | offered _ others => 5 * others.length + 1
  | opened workers => (launchWeight + 2) * workers + 6
  | failWith _ => 0

/-- How far a participant is from its wait at the barrier. -/
@[simp] def Task.urgency (b : Barrier) : Task → Nat
  | await g _ => if (b.verdict g).isNone then 0 else 3
  | participate _ => 2
  | arrive _ => 1
  | _ => 0

/-- The weight of a thread. -/
def Thread.weight (t : Thread) : Nat := t.task.weight + (t.frames.map Frame.weight).sum

/-- What a step spends: it asks for a pair, prepares the work, takes some weight off, or comes closer
to the wait at the barrier. -/
inductive Move.Spends (t : Thread) (s : Shared) (move : Move) : Prop
  | asks (hcalls : s.token.tally.enterCalls < move.shared.token.tally.enterCalls)
      (hlead : Machine.weigh (fun u ↦ u.task.lead) move.threads = 0)
  | leads (h : Machine.weigh (fun u ↦ u.task.lead) move.threads < t.task.lead)
  | works (hlead : Machine.weigh (fun u ↦ u.task.lead) move.threads = 0)
      (h : Machine.weigh Thread.weight move.threads + 2 * move.shared.queue.length <
        t.weight + 2 * s.queue.length)
  | waits (hlead : Machine.weigh (fun u ↦ u.task.lead) move.threads = 0)
      (hweight : Machine.weigh Thread.weight move.threads = t.weight)
      (hqueue : move.shared.queue = s.queue)
      (hbarrier : move.shared.barrier.verdict = s.barrier.verdict)
      (h : Machine.weigh (fun u ↦ u.task.urgency s.barrier) move.threads < t.task.urgency s.barrier)

private theorem Barrier.verdict_of_waits {b b' : Barrier} {g : Nat}
    (h : b.arrive = (.waits g, b')) :
    b.verdict g = none ∧ b'.verdict = b.verdict := by
  rw [arrive] at h
  split at h <;> cases h
  exact ⟨by simp [verdict], rfl⟩

namespace Thread

variable {plan : Plan} {chance : Chance} {caller alone : Bool} {t : Thread} {s : Shared}

private theorem weight_of_task {task : Task} (h : t.task = task) :
    t.weight = task.weight + (t.frames.map Frame.weight).sum := by
  rw [weight, h]

@[simp] private theorem weight_go (task : Task) :
    (t.go task).weight = task.weight + (t.frames.map Frame.weight).sum := rfl

@[simp] private theorem weight_done (o : Outcome Unit) :
    (t.done o).weight = 1 + (t.frames.map Frame.weight).sum := rfl

@[simp] private theorem weight_call (frame : Frame) (task : Task) : (t.call frame task).weight =
    task.weight + (frame.weight + (t.frames.map Frame.weight).sum) := rfl

private theorem spends_enterPair (pair : NodePair) : (enterPair plan t s pair).Spends t s := by
  have hcalls : s.token.tally.enterCalls <
      (plan.site.root.enter pair s.token.tally).2.enterCalls := by
    rw [Root.enter]
    split <;> exact Nat.lt_succ_self _
  rcases enterPair_eq plan t s pair with ⟨-, hmove⟩ | ⟨-, task, hfollows, hmove⟩ <;> rw [hmove]
  · exact .asks hcalls rfl
  · exact .asks hcalls (by cases hfollows <;> rfl)

private theorem spends_comparePair {pair : NodePair} (env : Interference)
    (htask : t.task = .compare pair) : (comparePair plan env t s pair).Spends t s := by
  have hweight : t.weight = 3 + (t.frames.map Frame.weight).sum := weight_of_task htask
  fun_cases comparePair plan env t s pair
  · next batch s' stop hrun =>
    refine .works rfl ?_
    simp [Machine.weigh, Move.threads, hweight, s']
  · next batch s' hempty hrun =>
    refine .works rfl ?_
    simp [Machine.weigh, Move.threads, hweight, s']
  · next batch s' hnonempty hrun =>
    refine .works rfl ?_
    simp [Machine.weigh, Move.threads, hweight, s']

private theorem weight_thread (child : Child) :
    child.thread.task.lead = 0 ∧ child.thread.weight + 1 < launchWeight := by
  obtain ⟨label, errand⟩ := child
  cases errand <;>
    simp [Child.thread, Task.lead, weight, launchWeight]

private theorem weight_afterStart (t : Thread) (strategy : Strategy) :
    (afterStart strategy t).task.lead = 0 ∧
      (afterStart strategy t).weight < 6 + (t.frames.map Frame.weight).sum := by
  rcases afterStart_eq strategy t with ⟨-, hafter⟩ | ⟨-, hafter⟩ <;> rw [hafter] <;>
    simp [Task.lead]
  omega

private theorem spends_resume {frame : Frame} {frames : List Frame} {outcome : Outcome Unit}
    (htask : t.task = .ret outcome) (hframes : t.frames = frame :: frames)
    (hmove : (resume plan caller { t with frames } s frame outcome).isTroubled = false) :
    (resume plan caller { t with frames } s frame outcome).Spends t s := by
  have hweight : t.weight = 1 + (frame.weight + (frames.map Frame.weight).sum) := by
    rw [weight_of_task htask, hframes]
    rfl
  revert hmove
  fun_cases resume plan caller { t with frames } s frame outcome
  all_goals intro hmove
  all_goals try
    cases hmove
  all_goals
    refine .works rfl ?_
    rw [hweight]
    simp [Machine.weigh, Move.threads, launchWeight]
    try omega

private theorem spends_schedule (htask : t.task = .schedule) :
    (t.advance plan chance caller s).Spends t s := by
  simp only [advance, htask]
  refine .leads ?_
  rw [htask]
  fun_cases openingTask plan <;> simp [Machine.weigh, Move.threads, Task.lead]

private theorem spends_launch {child : Child} (htask : t.task = .launch child)
    (hmove : (t.advance plan chance caller s).isTroubled = false) :
    (t.advance plan chance caller s).Spends t s := by
  obtain ⟨hlead, hweight⟩ := weight_thread child
  have hret : (Task.ret (.ok ())).lead = 0 := rfl
  simp only [advance, htask] at hmove ⊢
  split at hmove
  · cases hmove
  · next hgranted =>
    rw [if_neg hgranted]
    refine .works (by simp [Machine.weigh, Move.threads, hlead, hret]) ?_
    simp [Machine.weigh, Move.threads, weight_of_task htask]
    omega

private theorem spends_start {worker total : Nat} (htask : t.task = .start worker total) :
    (t.advance plan chance caller s).Spends t s := by
  simp only [advance, htask]
  split
  · refine .works rfl ?_
    simp [Machine.weigh, Move.threads, weight_of_task htask, launchWeight]
    omega
  · obtain ⟨hlead, hweight⟩ := weight_afterStart t plan.config.strategy
    refine .works (by simp [Machine.weigh, Move.threads, hlead]) ?_
    simp [Machine.weigh, Move.threads, weight_of_task htask]
    omega

private theorem spends_take (htask : t.task = .take) :
    (t.advance plan chance caller s).Spends t s := by
  simp only [advance, htask]
  split
  · refine .works rfl ?_
    simp [Machine.weigh, Move.threads, weight_of_task htask]
  · next hpop =>
    refine .works rfl ?_
    simp [Machine.weigh, Move.threads, weight_of_task htask, Fifo.length_of_pop? hpop]
    omega

private theorem spends_consider {pair : NodePair} (htask : t.task = .consider pair) :
    (t.advance plan chance caller s).Spends t s := by
  simp only [advance, htask]
  split
  · next hchildren =>
    refine .works rfl ?_
    simp only [Machine.weigh, Move.threads, Option.toList_some, Option.toList_none, List.append_nil,
      weight_go, weight_of_task htask, Task.weight, hchildren, List.length_cons]
    omega
  · refine .works rfl ?_
    simp [Machine.weigh, Move.threads, weight_of_task htask]

private theorem spends_offer {first : NodePair} {rest : List NodePair}
    (htask : t.task = .offer first rest) : (t.advance plan chance caller s).Spends t s := by
  have hweight := weight_of_task htask
  cases rest with
  | nil =>
    simp only [advance, htask]
    refine .works rfl ?_
    simp [Machine.weigh, Move.threads, hweight]
  | cons pair rest =>
    simp only [advance, htask]
    split
    · refine .works rfl ?_
      simp [Machine.weigh, Move.threads, hweight, Fifo.length_push]
      omega
    · refine .works rfl ?_
      simp [Machine.weigh, Move.threads, hweight]

private theorem spends_announce (htask : t.task = .announce) :
    (t.advance plan chance caller s).Spends t s := by
  simp only [advance, htask]
  refine .works rfl ?_
  split <;> simp [Machine.weigh, Move.threads, weight_of_task htask]

private theorem spends_participate {kept : Except Failure Unit}
    (htask : t.task = .participate kept) : (t.advance plan chance caller s).Spends t s := by
  have hweight := weight_of_task htask
  simp only [advance, htask]
  split
  · next hpop =>
    refine .works rfl ?_
    simp [Machine.weigh, Move.threads, hweight, Fifo.length_of_pop? hpop]
    omega
  · refine .waits rfl ?_ rfl rfl ?_
    · simp [Machine.weigh, Move.threads, hweight]
    · simp [Machine.weigh, Move.threads, htask]

private theorem spends_arrive {kept : Except Failure Unit} (htask : t.task = .arrive kept) :
    (t.advance plan chance caller s).Spends t s := by
  have hweight := weight_of_task htask
  simp only [advance, htask]
  split
  · refine .works rfl ?_
    simp [Machine.weigh, Move.threads, hweight]
  · next harrive =>
    obtain ⟨hwaits, hverdict⟩ := Barrier.verdict_of_waits harrive
    refine .waits rfl ?_ rfl hverdict ?_
    · simp [Machine.weigh, Move.threads, hweight]
    · simp [Machine.weigh, Move.threads, htask, hwaits]

private theorem spends_await {generation : Nat} {kept : Except Failure Unit}
    (htask : t.task = .await generation kept) : (t.advance plan chance caller s).Spends t s := by
  have hweight := weight_of_task htask
  simp only [advance, htask]
  split
  · next hverdict =>
    refine .waits rfl ?_ rfl rfl ?_
    · simp [Machine.weigh, Move.threads, hweight]
    · simp [Machine.weigh, Move.threads, htask, hverdict]
  · refine .works rfl ?_
    simp [Machine.weigh, Move.threads, hweight]

private theorem spends_tripped {kept : Except Failure Unit} (htask : t.task = .tripped kept)
    (hempty : s.queue.toList = []) : (t.advance plan chance caller s).Spends t s := by
  -- Whoever trips the barrier finds nothing queued.
  have hqueue : s.queue.isEmpty = true := by
    simpa [Fifo.isEmpty, Fifo.toList] using hempty
  simp only [advance, htask]
  rw [if_pos hqueue]
  refine .works rfl ?_
  simp [Machine.weigh, Move.threads, weight_of_task htask]

/-- Every step of a thread that neither is nor gets into trouble spends something. -/
theorem spends_advance (hready : t.isBlocked plan chance alone s = false)
    (htripped : ∀ kept, t.task = .tripped kept → s.queue.toList = [])
    (h : t.isTroubled = false) (hmove : (t.advance plan chance caller s).isTroubled = false) :
    (t.advance plan chance caller s).Spends t s := by
  rw [isTroubled, Bool.or_eq_false_iff] at h
  cases htask : t.task with
  | schedule => exact spends_schedule htask
  | enter pair =>
    simp only [advance, htask]
    exact spends_enterPair _
  | compare pair =>
    simp only [advance, htask]
    exact spends_comparePair _ htask
  | launch child => exact spends_launch htask hmove
  | start worker total => exact spends_start htask
  | take => exact spends_take htask
  | consider pair => exact spends_consider htask
  | offer first rest => exact spends_offer htask
  | announce => exact spends_announce htask
  | participate kept => exact spends_participate htask
  | arrive kept => exact spends_arrive htask
  | await generation kept => exact spends_await htask
  | tripped kept => exact spends_tripped htask (htripped kept htask)
  | inline pairs =>
    cases pairs <;>
    · simp only [advance, htask]
      refine .works rfl ?_
      simp [Machine.weigh, Move.threads, weight_of_task htask]
  | ret outcome =>
    cases hframes : t.frames with
    | nil =>
      rw [isBlocked, htask, hframes] at hready
      cases hready
    | cons frame frames =>
      simp only [advance, htask, hframes] at hmove ⊢
      exact spends_resume htask hframes hmove
  | unwind _ | retract _ | unregister _ | dismiss _ _ _ | refund _ _ =>
    rw [htask] at h
    cases h.1
  -- The beginning of a search leads on.
  | acquire | expand | recruit _ | assemble | seed _ =>
    simp only [advance, htask] at hmove ⊢
    repeat' split at hmove
    all_goals try cases hmove
    all_goals
      refine .leads ?_
      rw [htask]
      simp [Machine.weigh, Move.threads, Task.lead]
  -- Most other steps turn to a lighter task.
  | _ =>
    simp only [advance, htask]
    repeat' split
    all_goals
      refine .works rfl ?_
      simp [Machine.weigh, Move.threads, weight_of_task htask, launchWeight] <;> omega

end Thread

namespace Machine

variable {plan : Plan} {chance : Chance} {latest : Duration} {m m' : Machine}

/-- What is left to do: the pairs to ask for, the weight of the threads and of the queue, and the ways
to the barrier. -/
def remaining (plan : Plan) (m : Machine) : Nat ×ₗ Nat ×ₗ Nat :=
  toLex (weigh (fun t ↦ t.task.lead) m.threads +
      ((plan.site.root.visits plan.site.root.start).length - m.shared.token.tally.enterCalls),
    toLex (weigh Thread.weight m.threads + 2 * m.shared.queue.length,
      weigh (fun t ↦ t.task.urgency m.shared.barrier) m.threads))

private theorem enterCalls_le (hsolid : plan.site.root.start.Solid) (hm : Reachable plan m)
    (hcalm : ¬Troubled m) :
    m.shared.token.tally.enterCalls ≤ (plan.site.root.visits plan.site.root.start).length := by
  obtain ⟨done, lost, hacc⟩ := exists_accounts hsolid hm
  have htally := hacc.tally_eq hcalm .enterCalls rfl
  rw [Tally.get] at htally
  rw [htally, ← (plan.site.get_tally_duties plan.site.root.start).1, ← hacc.owed_eq]
  simp only [SearchSite.tallyOf_add, Tally.get_plus]
  omega

/-- As long as there is no trouble, every step leaves less to do. -/
theorem remaining_lt (hthreads : 1 ≤ plan.config.threads) (hsolid : plan.site.root.start.Solid)
    (hm : Reachable plan m) {t : Thread} (hmoved : Moved plan chance m t m')
    (hm' : Reachable plan m') (hcalm : ¬Troubled m') : remaining plan m' < remaining plan m := by
  have htyped := typed_of_reachable hm
  obtain ⟨caller, others, hreplaced⟩ := hmoved.exists_replaced
  obtain ⟨-, haborted, htroubled, hmove⟩ := calm_of_moved hm htyped hmoved hreplaced hcalm
  have htripped (kept : Except Failure Unit) (htask : t.task = .tripped kept) :
      m.shared.queue.toList = [] := by
    have hpools := ((htyped.of_replaced hreplaced).stands htask (by simp)).1
    have ht : t ∈ m.threads := hreplaced.before.mem_iff.mpr (.head _)
    obtain ⟨g, h⟩ := exists_tripped_of_task hpools hthreads hm ht htask
    exact h.queue_eq
  have hspends := @Thread.spends_advance plan chance caller _ t m.shared hreplaced.ready htripped
    htroubled hmove
  have hcalls : m.shared.token.tally.enterCalls ≤ m'.shared.token.tally.enterCalls := by
    obtain ⟨done, lost, hdoes⟩ := does_of_replaced hsolid hm htyped hreplaced
    have htally := hdoes.tally_eq haborted hmove .enterCalls rfl
    rw [← hreplaced.shared_eq] at htally
    exact (Nat.le_add_right _ _).trans_eq htally.symm
  have hle := enterCalls_le hsolid hm' hcalm
  have hbefore (f : Thread → Nat) : weigh f m.threads = f t + weigh f others :=
    weigh_perm hreplaced.before
  have hafter (f : Thread → Nat) : weigh f m'.threads =
      weigh f (t.advance plan chance caller m.shared).threads + weigh f others := by
    rw [weigh_perm hreplaced.after, weigh_append]
  rw [remaining, remaining, Prod.Lex.toLex_lt_toLex', Prod.Lex.toLex_lt_toLex']
  simp only [hbefore, hafter]
  cases hspends with
  | asks hasks hlead =>
    rw [← hreplaced.shared_eq] at hasks
    omega
  | leads h => omega
  | works hlead h =>
    rw [← hreplaced.shared_eq] at h
    omega
  | waits hlead hweight hqueue hbarrier h =>
    rw [← hreplaced.shared_eq] at hqueue hbarrier
    have hurgency : Task.urgency m'.shared.barrier = Task.urgency m.shared.barrier := by
      funext task
      simp only [Task.urgency, hbarrier]
    rw [hurgency, hqueue]
    omega

/-- Whatever the schedule, and whenever the time of a wait runs out: as long as nothing is refused,
and no wait begins later than `latest`, a search goes on until it ends well, and it does so after
finitely many steps. -/
inductive Settles (plan : Plan) (latest : Duration) : Machine → Prop
  | ended {m : Machine} (ho : m.outcome? = some (.ok ())) : Settles plan latest m
  | step {m : Machine}
      (hstep : ∃ choice m', choice.toChance.Grants latest ∧ m.step plan choice = some m')
      (h : ∀ choice m', choice.toChance.Grants latest → m.step plan choice = some m' →
        Settles plan latest m') :
      Settles plan latest m

/-- A search that ends without trouble ends well. -/
theorem outcome?_of_not_troubled {o : Outcome Unit} (hcalm : ¬Troubled m)
    (ho : m.outcome? = some o) : o = .ok () := by
  cases o with
  | ok _ => rfl
  | error stop =>
    refine absurd (.inl ⟨m.caller, .head _, ?_⟩) hcalm
    rw [Thread.isTroubled, (Thread.outcome?_eq_some ho).2]
    rfl

private theorem settles_of_smooth (hplan : plan.Feasible latest)
    (h : Smooth plan latest (ofBudget plan.config.threads) m) : Settles plan latest m := by
  -- The induction is on what is left to do; that the run is smooth is what keeps trouble away.
  induction hn : remaining plan m using WellFoundedLT.induction generalizing m with
  | ind n ih =>
    subst hn
    have hcalm := not_troubled_of_smooth hplan h
    have hm : Reachable plan m := h.leads
    cases ho : m.outcome? with
    | some o =>
      obtain rfl := outcome?_of_not_troubled hcalm ho
      exact .ended ho
    | none =>
      refine .step (exists_step hplan.threads_pos hm hcalm ho latest)
        fun choice m' hgrants hstep ↦ ?_
      have h' : Smooth plan latest (ofBudget plan.config.threads) m' := h.step hgrants hstep
      obtain ⟨t, -, hmoved⟩ := (typed_of_reachable hm).moved hstep
      exact ih _ (remaining_lt hplan.threads_pos hplan.solid hm hmoved h'.leads
        (not_troubled_of_smooth hplan h')) h' rfl

/-- A feasible search ends well under every schedule. -/
theorem settles_of_feasible (hplan : plan.Feasible latest) :
    Settles plan latest (ofBudget plan.config.threads) :=
  settles_of_smooth hplan .refl

end Machine
end RayAdjacency
