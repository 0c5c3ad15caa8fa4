import RayAdjacency.Proofs.Traversal.Ending

/-!
# Seats at the barrier of a pool

A thread has a *seat* at the barrier as long as it has to come back to the queue; the calling thread
also keeps the seats of the workers that it has still to start or to sign off. Steps keep the
seats, but for the signing off of a worker, which is when a party leaves the barrier.
-/

namespace RayAdjacency

/-- The seats that go with a task. -/
@[simp] def Task.seats : Task → Nat
  | start n total => total - n + 1
  | dismiss left _ _ => left + 1
  | register _ | launch _ | retract _ | unregister _ | refund .. | participate _ | heed ..
  | arrive _ | await .. | tripped _ => 1
  | _ => 0

/-- The seats that go with a frame. -/
@[simp] def Frame.seats : Frame → Nat
  | opened workers => workers + 1
  | started n total => total - n
  | job _ => 1
  | _ => 0

/-- How a task of a participant comes about: from which task, and in what state. -/
def Task.comesFrom (task : Task) (s : Shared) (before : Task) : Prop :=
  match task with
  | arrive kept => before = .participate kept ∧ s.queue.toList = []
  | await g kept => before = .arrive kept ∧ s.barrier.arrive.1 = .waits g
  | tripped kept => (before = .arrive kept ∧ s.barrier.arrive.1 = .trips) ∨
    ∃ g, before = .await g kept ∧ s.barrier.verdict g ≠ some .broken
  | _ => True

/-- Whether a task stands at the barrier. -/
private def Task.isAtBarrier : Task → Bool
  | arrive _ | await .. | tripped _ => true
  | _ => false

/-- Whether a thread that a step leaves stands at the barrier. -/
private def Move.isAtBarrier (move : Move) : Bool := move.threads.any fun u ↦ u.task.isAtBarrier

namespace Thread

/-- The seat of a worker that has been refused. -/
def spareSeats (t : Thread) : Nat :=
  match t.task, t.frames with
  | .ret (.error _), .started .. :: _ => 1
  | _, _ => 0

/-- The seats of a thread. -/
def seats (t : Thread) : Nat := t.task.seats + (t.frames.map Frame.seats).sum + t.spareSeats

/-- The seats that the next step of a thread gives up: those of workers that are signed off, and
the seat of a participant that returns. -/
def leavingSeats (t : Thread) (s : Shared) : Nat :=
  match t.task with
  | .dismiss (_ + 1) _ _ => 1
  | .tripped _ => if s.queue.isEmpty then 1 else 0
  | _ => 0

variable {strategy : Strategy} {plan : Plan} {chance : Chance} {caller : Bool} {t t' : Thread}
  {s : Shared}

/-- Unless it returns with a failure, a thread takes the seats of its task and those of its frames.
-/
theorem seats_of_task {task : Task} (h : t.task = task) (hret : ∀ stop, task ≠ .ret (.error stop)) :
    t.seats = task.seats + (t.frames.map Frame.seats).sum := by
  have hspare : t.spareSeats = 0 := by
    rw [spareSeats, h]
    split
    · exact absurd rfl (hret _)
    · rfl
  rw [seats, hspare, h, Nat.add_zero]

/-- Only the request for a worker stands on the frame that starts workers. -/
theorem spareSeats_of_stands {label : String} {frames : List Frame} {p : Place} {o : Outcome Unit}
    (h : Stands strategy caller frames p) (hp : p ≠ .hiring) :
    (⟨label, frames, .ret o⟩ : Thread).spareSeats = 0 := by
  rw [spareSeats]
  split
  · next hframes =>
    obtain rfl := hframes
    exact absurd (by simpa [Frame.hosts] using h.1) hp
  · rfl

private theorem seats_done {p : Place} (h : Stands strategy caller t.frames p) (hp : p ≠ .hiring)
    (o : Outcome Unit) : (t.done o).seats = (t.frames.map Frame.seats).sum := by
  have hspare : (t.done o).spareSeats = 0 := spareSeats_of_stands h hp
  rw [seats, hspare, Nat.add_zero, task_done, frames_done]
  exact Nat.zero_add _

private theorem weigh_seats_done {p : Place} (h : Stands strategy caller t.frames p)
    (hp : p ≠ .hiring) (o : Outcome Unit) (s : Shared) :
    Machine.weigh seats (⟨some (t.done o), s, none⟩ : Move).threads =
      (t.frames.map Frame.seats).sum := seats_done h hp o

private theorem seats_enterPair {pair : NodePair}
    (h : Stands plan.config.strategy caller t.frames .search) :
    Machine.weigh seats (enterPair plan t s pair).threads = (t.frames.map Frame.seats).sum := by
  rcases enterPair_eq plan t s pair with ⟨-, hmove⟩ | ⟨-, task, hfollows, hmove⟩ <;> rw [hmove]
  · exact seats_done h (by decide) _
  · cases hfollows <;>
      simp [Machine.weigh, Move.threads, seats, spareSeats]

private theorem seats_comparePair {env : Interference} {pair : NodePair}
    (h : Stands plan.config.strategy caller t.frames .search) :
    Machine.weigh seats (comparePair plan env t s pair).threads =
      (t.frames.map Frame.seats).sum := by
  fun_cases comparePair plan env t s pair
  · exact seats_done h (by decide) _
  · exact seats_done h (by decide) _
  · simp [Machine.weigh, Move.threads, seats, spareSeats]

private theorem seats_resume {frame : Frame} {outcome : Outcome Unit}
    (h : Returns plan.config.strategy caller (frame :: t.frames) outcome) :
    Machine.weigh seats (resume plan caller t s frame outcome).threads =
      (⟨t.label, frame :: t.frames, .ret outcome⟩ : Thread).seats := by
  obtain ⟨hawaits, hsuits, hstands⟩ := h
  fun_cases resume plan caller t s frame outcome
  all_goals try
    simp [Machine.weigh, Move.threads, seats, spareSeats]
    done
  all_goals try
    rw [weigh_seats_done hstands (by simp [Frame.place])]
    simp [seats, spareSeats]
    done
  · obtain ⟨hframes, -⟩ := stands_gone hstands
    simp [Machine.weigh, Move.threads, seats, spareSeats, hframes]
  · have hlt := of_decide_eq_true (Bool.and_eq_true_iff.mp hsuits).2
    simp [Machine.weigh, Move.threads, seats, spareSeats]
    omega
  · simp [Machine.weigh, Move.threads, seats, spareSeats, refuseWorker]
    omega
  · cases hawaits
  · exact absurd rfl (hawaits _)

private theorem seats_done_ok : (t.done (.ok ())).seats = (t.frames.map Frame.seats).sum := by
  simp [seats, spareSeats]

private theorem seats_thread {child : Child} (hpools : strategy.pools = true)
    (h : child.errand.suits strategy = true) : child.thread.seats = 1 := by
  obtain ⟨label, errand⟩ := child
  cases errand with
  | participate => rfl
  | _ => simp [Errand.suits, Strategy.forks_of_pools hpools, Strategy.queues_of_pools hpools] at h

private theorem exists_started {errand : Errand} {frames : List Frame}
    (hpools : strategy.pools = true) (h : errand.suits strategy = true)
    (hstands : Stands strategy caller frames errand.place) :
    ∃ worker total below, frames = .started worker total :: below := by
  have hplace : errand.place = .hiring := by
    cases errand with
    | search pair => simp [Errand.suits, Strategy.forks_of_pools hpools] at h
    | _ => rfl
  rw [hplace] at hstands
  cases frames with
  | nil => cases caller <;> cases hstands
  | cons f frames =>
    have hhosts := hstands.1
    cases f <;> simp [Frame.hosts] at hhosts
    exact ⟨_, _, _, rfl⟩

private theorem seats_launch {child : Child} (hpools : plan.config.strategy.pools = true)
    (htyped : t.Typed plan.config.strategy caller) (htask : t.task = .launch child) :
    Machine.weigh seats (t.advance plan chance caller s).threads = t.seats := by
  obtain ⟨hsuits, -⟩ := htyped.stands htask (by simp)
  rw [seats_of_task htask (by simp)]
  simp only [advance, htask]
  split
  · simp [Machine.weigh, Move.threads, seats, spareSeats]
  · simp [Machine.weigh, Move.threads, seats_thread hpools hsuits, seats_done_ok]
    omega

private theorem seats_unregister {child : Child} (hpools : plan.config.strategy.pools = true)
    (htyped : t.Typed plan.config.strategy caller) (htask : t.task = .unregister child) :
    Machine.weigh seats (t.advance plan chance caller s).threads = t.seats := by
  -- The seat of a worker that is refused stays until the worker is signed off.
  obtain ⟨hsuits, hstands⟩ := htyped.stands htask (by simp)
  obtain ⟨worker, total, frames, hframes⟩ := exists_started hpools hsuits hstands
  rw [seats_of_task htask (by simp)]
  simp [advance, htask, Machine.weigh, Move.threads, seats, spareSeats, hframes, Outcome.fail]
  omega

private theorem seats_start {worker total : Nat} (hpools : plan.config.strategy.pools = true)
    (htask : t.task = .start worker total) :
    Machine.weigh seats (t.advance plan chance caller s).threads = t.seats := by
  rw [seats_of_task htask (by simp)]
  simp only [advance, htask]
  split
  · simp [Machine.weigh, Move.threads, seats, spareSeats]
    omega
  · rcases afterStart_eq plan.config.strategy t with ⟨-, hafter⟩ | ⟨hnot, -⟩
    · simp [hafter, Machine.weigh, Move.threads, seats, spareSeats]
      omega
    · simp [hpools] at hnot

private theorem seats_refund {unstarted : Nat} {cause : Failure} {token : Token}
    (hpools : plan.config.strategy.pools = true) (htask : t.task = .refund unstarted cause)
    (hrefund : s.token.release (unstarted - 1) = .ok token) :
    Machine.weigh seats (t.advance plan chance caller s).threads = t.seats := by
  rw [seats_of_task htask (by simp)]
  rcases afterRefund_eq plan.config.strategy t cause with ⟨-, hafter⟩ | ⟨hnot, -⟩
  · simp [advance, htask, hrefund, hafter, Machine.weigh, Move.threads, seats, spareSeats]
  · simp [hpools] at hnot

private theorem seats_tripped {kept : Except Failure Unit}
    (htyped : t.Typed plan.config.strategy caller) (htask : t.task = .tripped kept) :
    Machine.weigh seats (t.advance plan chance caller s).threads + t.leavingSeats s = t.seats := by
  have hstands := (htyped.stands htask (by simp)).2
  rw [leavingSeats, seats_of_task htask (by simp), htask]
  simp only [advance, htask]
  split
  · rw [weigh_seats_done hstands (by simp [Task.place])]
    exact Nat.add_comm _ _
  · simp [Machine.weigh, Move.threads, seats, spareSeats]

private theorem seats_ret {outcome : Outcome Unit} (htyped : t.Typed plan.config.strategy caller)
    (htask : t.task = .ret outcome) :
    Machine.weigh seats (t.advance plan chance caller s).threads = t.seats := by
  cases hframes : t.frames with
  | nil => simp [advance, htask, hframes, Machine.weigh, Move.threads]
  | cons frame frames =>
    have hreturns := htyped.returns htask
    rw [hframes] at hreturns
    simp only [advance, htask, hframes]
    refine (@seats_resume plan caller ⟨t.label, frames, t.task⟩ s frame outcome hreturns).trans ?_
    obtain ⟨label, frames', task⟩ := t
    subst hframes htask
    rfl

/-- Before a step, a thread that is not at the beginning of a search keeps its seats. -/
theorem seats_advance (hpools : plan.config.strategy.pools = true)
    (htyped : t.Typed plan.config.strategy caller) (hopens : t.task.opens = false)
    (hrefund : ∀ unstarted cause, t.task = .refund unstarted cause →
      ∃ token, s.token.release (unstarted - 1) = .ok token) :
    Machine.weigh seats (t.advance plan chance caller s).threads + t.leavingSeats s = t.seats := by
  have hqueues := Strategy.queues_of_pools hpools
  cases htask : t.task with
  | tripped kept => exact seats_tripped htyped htask
  | dismiss left unstarted cause =>
    rw [leavingSeats, seats_of_task htask (by simp), htask]
    cases left with
    | zero => simp [advance, htask, Machine.weigh, Move.threads, seats, spareSeats]
    | succ left =>
      simp [advance, htask, Machine.weigh, Move.threads, seats, spareSeats]
      omega
  | acquire | schedule | expand | assemble | seed _ =>
    rw [htask] at hopens
    cases hopens
  | fork _ _ | branchOff _ _ | recruit _ | drain | take | finish _ | hold _ | surrender _ | depart _
  | awaitCohort _ =>
    have hsuits := (htyped.stands htask (by simp)).1
    simp [hqueues, Strategy.forks_of_pools hpools] at hsuits
  | enter pair =>
    have hstands := (htyped.stands htask (by simp)).2
    rw [leavingSeats, seats_of_task htask (by simp), htask, advance, htask,
      seats_enterPair hstands]
    exact (Nat.zero_add _).symm
  | compare pair =>
    have hstands := (htyped.stands htask (by simp)).2
    rw [leavingSeats, seats_of_task htask (by simp), htask, advance, htask,
      seats_comparePair hstands]
    exact (Nat.zero_add _).symm
  | launch child =>
    rw [leavingSeats, htask]
    exact seats_launch hpools htyped htask
  | unregister child =>
    rw [leavingSeats, htask]
    exact seats_unregister hpools htyped htask
  | start worker total =>
    rw [leavingSeats, htask]
    exact seats_start hpools htask
  | refund unstarted cause =>
    obtain ⟨token, hrefund⟩ := hrefund unstarted cause htask
    rw [leavingSeats, htask]
    exact seats_refund hpools htask hrefund
  | ret outcome =>
    rw [leavingSeats, htask]
    exact seats_ret htyped htask
  | inline pairs =>
    have hstands := (htyped.stands htask (by simp)).2
    rw [leavingSeats, seats_of_task htask (by simp), htask]
    cases pairs with
    | nil =>
      simp only [advance, htask]
      rw [weigh_seats_done hstands (by simp [Task.place])]
      exact (Nat.zero_add _).symm
    | cons pair rest =>
      simp [advance, htask, Machine.weigh, Move.threads, seats, spareSeats]
  | joinAll _ | unwind _ =>
    have hstands := (htyped.stands htask (by simp)).2
    rw [leavingSeats, seats_of_task htask (by simp), htask]
    simp only [advance, htask]
    rw [weigh_seats_done hstands (by simp [Task.place])]
    exact (Nat.zero_add _).symm
  | offer first rest =>
    rw [leavingSeats, seats_of_task htask (by simp), htask]
    cases rest with
    | nil => simp [advance, htask, Machine.weigh, Move.threads, seats, spareSeats]
    | cons pair rest =>
      simp only [advance, htask]
      split <;> simp [Machine.weigh, Move.threads, seats, spareSeats]
  | _ =>
    rw [leavingSeats, seats_of_task htask (by simp), htask]
    simp only [advance, htask]
    repeat' split
    all_goals simp [Machine.weigh, Move.threads, seats, spareSeats]

/-! ### Who has a seat -/

/-- Taking part in the pool goes with one seat. -/
theorem seats_of_participating (htyped : t.Typed strategy caller)
    (h : t.task.place = .participating) : t.seats = 1 := by
  have hret (o : Outcome Unit) : t.task ≠ .ret o := fun ht ↦ by simp [ht, Task.place] at h
  have hframes : (t.frames.map Frame.seats).sum = 0 := by
    have hstands := (htyped.stands rfl hret).2
    rw [h] at hstands
    cases hcases : t.frames with
    | nil => rfl
    | cons f frames =>
      rw [hcases] at hstands
      obtain ⟨hhosts, -, hbelow⟩ := hstands
      cases f <;> simp [Frame.hosts] at hhosts
      · cases frames with
        | nil => rfl
        | cons f' frames' =>
          obtain ⟨hhosts', -, hbelow'⟩ := hbelow
          cases f' <;> simp [Frame.hosts, Frame.place] at hhosts'
          obtain ⟨rfl, -⟩ := stands_gone hbelow'
          rfl
      · obtain ⟨rfl, -⟩ := stands_leading hbelow
        rfl
      · obtain ⟨rfl, -⟩ := stands_main hbelow
        rfl
  have hseats : t.task.seats = 1 := by
    cases htask : t.task <;> simp [htask, Task.place] at h ⊢
  rw [seats_of_task rfl fun stop ↦ hret _, hframes, hseats]

/-- In a pool, whoever searches a pair has a seat. -/
theorem seats_pos_of_search {frames : List Frame} (hpools : strategy.pools = true)
    (h : Stands strategy caller frames .search) : 0 < (frames.map Frame.seats).sum := by
  have hforks := Strategy.forks_of_pools hpools
  induction frames with
  | nil => cases caller <;> cases h
  | cons f frames ih =>
    obtain ⟨hhosts, hsuits, hbelow⟩ := h
    rw [List.map_cons, List.sum_cons]
    cases f with
    | leave pair => exact Nat.add_pos_right _ (ih hbelow)
    | rest pairs => exact Nat.add_pos_right _ (ih hbelow)
    | offered first rest => exact Nat.add_pos_right _ (ih hbelow)
    | job kept => exact Nat.add_pos_left Nat.one_pos _
    | drained => simp [Frame.suits, Strategy.queues_of_pools hpools] at hsuits
    | _ => simp [Frame.hosts, hforks, hpools] at hhosts

/-- At the beginning there are no seats. -/
theorem seats_of_opens (htyped : t.Typed strategy caller) (h : t.task.opens = true) :
    t.seats = 0 := by
  have hret (o : Outcome Unit) : t.task ≠ .ret o := fun ht ↦ by simp [ht, Task.opens] at h
  have hstands := (htyped.stands rfl hret).2
  have hframes : t.frames = [] ∨ t.frames = [.close] := by
    cases htask : t.task <;> simp only [htask] at h hstands <;> first | cases h; done | skip
    · exact .inl (stands_main hstands).1
    all_goals exact .inr (stands_leading hstands).1
  have hseats : t.task.seats = 0 := by
    cases htask : t.task <;> simp only [htask] at h <;> first | rfl | cases h
  rw [seats_of_task rfl fun stop ↦ hret _, hseats]
  rcases hframes with hframes | hframes <;> rw [hframes] <;> rfl

/-! ### The barrier -/

/-- The barrier after the next step of a thread of a pool. -/
def barrierAfter (plan : Plan) (t : Thread) (s : Shared) : Barrier :=
  match t.task with
  | .assemble => Barrier.ofParties ((s.token.tryAcquire (plan.config.threads - 1)).1 + 1)
  | .dismiss (_ + 1) _ _ => s.barrier.leave
  | .announce => s.barrier.breakWaiters.2
  | .arrive _ => s.barrier.arrive.2
  | _ => s.barrier

private theorem barrier_enterPair (pair : NodePair) :
    (enterPair plan t s pair).shared.barrier = s.barrier := by
  rcases enterPair_eq plan t s pair with ⟨-, hmove⟩ | ⟨-, task, -, hmove⟩ <;> rw [hmove]

private theorem barrier_comparePair (env : Interference) (pair : NodePair) :
    (comparePair plan env t s pair).shared.barrier = s.barrier := by
  fun_cases comparePair plan env t s pair <;> rfl

private theorem barrier_resume (frame : Frame) (outcome : Outcome Unit) :
    (resume plan caller t s frame outcome).shared.barrier = s.barrier := by
  fun_cases resume plan caller t s frame outcome <;> simp

/-- What a step does to the barrier. -/
theorem barrier_advance (hpools : plan.config.strategy.pools = true) :
    (t.advance plan chance caller s).shared.barrier = t.barrierAfter plan s := by
  fun_cases advance plan chance caller t s
  all_goals rw [barrierAfter, ‹t.task = _›]
  all_goals try
    first
    | rfl
    | simp; done
    | exact barrier_enterPair _
    | exact barrier_comparePair _ _
    | exact barrier_resume _ _
  · exact Shared.barrier_note _ _ _
  · rcases signOff_eq plan.config.strategy s with ⟨-, hsign⟩ | ⟨hnot, -⟩
    · exact congrArg Shared.barrier hsign
    · simp [hpools] at hnot
  · exact Shared.barrier_note _ _ _
  · rw [‹s.token.tryAcquire _ = _›]
  · rw [‹s.barrier.breakWaiters = _›]
    dsimp only
    split <;> rfl
  · rw [‹s.barrier.arrive = _›]
  · rw [‹s.barrier.arrive = _›]

private theorem isAtBarrier_enterPair (pair : NodePair) :
    (enterPair plan t s pair).isAtBarrier = false := by
  rcases enterPair_eq plan t s pair with ⟨-, hmove⟩ | ⟨-, task, hfollows, hmove⟩ <;> rw [hmove]
  · rfl
  · cases hfollows <;> rfl

private theorem isAtBarrier_comparePair (env : Interference) (pair : NodePair) :
    (comparePair plan env t s pair).isAtBarrier = false := by
  fun_cases comparePair plan env t s pair <;> rfl

private theorem isAtBarrier_thread (child : Child) : child.thread.task.isAtBarrier = false := by
  fun_cases Child.thread child <;> rfl

private theorem isAtBarrier_resume (frame : Frame) (outcome : Outcome Unit) :
    (resume plan caller t s frame outcome).isAtBarrier = false := by
  fun_cases resume plan caller t s frame outcome <;> rfl

private theorem comesFrom_of_isAtBarrier {move : Move} {u : Thread} {before : Task}
    (h : move.isAtBarrier = false) (hu : u ∈ move.threads) : u.task.comesFrom s before := by
  have hplain : u.task.isAtBarrier = false := by
    simpa using List.any_eq_false.mp h u hu
  cases htask : u.task <;> rw [htask] at hplain <;> first | exact True.intro | cases hplain

/-- A thread arrives at the barrier when it has found the queue empty, and waits or leaves the
barrier as it finds it. -/
theorem comesFrom_advance {u : Thread} (hu : u ∈ (t.advance plan chance caller s).threads) :
    u.task.comesFrom s t.task := by
  revert hu
  fun_cases advance plan chance caller t s
  all_goals try exact comesFrom_of_isAtBarrier rfl
  all_goals rw [‹t.task = _›]
  all_goals try
    simp only [Move.threads, Option.toList_some, Option.toList_none, List.append_nil,
      List.mem_singleton]
    rintro rfl
    first
    | exact ⟨rfl, (Fifo.pop?_eq_none_iff _).mp ‹_›⟩
    | exact ⟨rfl, by rw [‹s.barrier.arrive = _›]⟩
    | exact .inl ⟨rfl, by rw [‹s.barrier.arrive = _›]⟩
    | exact .inr ⟨_, rfl, ‹_›⟩
  · apply comesFrom_of_isAtBarrier
    fun_cases openingTask plan <;> rfl
  · exact comesFrom_of_isAtBarrier (isAtBarrier_enterPair _)
  · exact comesFrom_of_isAtBarrier (isAtBarrier_comparePair _ _)
  · apply comesFrom_of_isAtBarrier
    simp only [Move.isAtBarrier, Move.threads, Option.toList_some, List.singleton_append,
      List.any_cons, List.any_nil, isAtBarrier_thread]
    rfl
  · apply comesFrom_of_isAtBarrier
    rcases afterStart_eq plan.config.strategy t with ⟨-, hafter⟩ | ⟨-, hafter⟩ <;> rw [hafter] <;> rfl
  · apply comesFrom_of_isAtBarrier
    rcases afterRefund_eq plan.config.strategy t _ with ⟨-, hafter⟩ | ⟨-, hafter⟩ <;>
      rw [hafter] <;> rfl
  · exact comesFrom_of_isAtBarrier (isAtBarrier_resume _ _)
  · simp only [Move.threads, Option.toList_some, Option.toList_none, List.append_nil,
      List.mem_singleton]
    rintro rfl
    rw [‹u.task = _›]
    exact True.intro

end Thread
end RayAdjacency
