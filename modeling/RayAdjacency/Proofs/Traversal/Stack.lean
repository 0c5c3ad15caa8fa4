import RayAdjacency.Proofs.Traversal.Moves

/-!
# Stacks of threads

Which task can stand on which frame depends on the strategy alone. `Place` sorts the tasks by the
part of a search that they belong to; a frame hosts the tasks of some places, and goes on at a place
of its own. `Thread.Typed` says that a stack fits together down to the bottom, and every step keeps
it so.
-/

namespace RayAdjacency

/-- The parts of a search that tasks belong to. -/
inductive Place where
  /-- The descent into node pairs. -/
  | search
  /-- The call back of waiting participants. -/
  | announcing
  /-- The request for one worker. -/
  | hiring
  /-- What the calling thread does for its strategy. -/
  | leading
  /-- The draining of the job queue. -/
  | draining
  /-- The part in the pool. -/
  | participating
  /-- The end of a worker. -/
  | parting
  /-- The bottom of the calling thread. -/
  | main
  /-- The bottom of every other thread, where no task stands. -/
  | gone
deriving DecidableEq

namespace Place

/-- The bottom of a thread. -/
def bottom (caller : Bool) : Place := if caller then main else gone

/-- Which outcomes a task of a place may come to. -/
def answers : Place → Outcome Unit → Prop
  | announcing, o => o = .ok ()
  | hiring, o => ∀ message, o ≠ .error (.panicked message)
  | gone, _ => False
  | _, _ => True

end Place

/-- Whether a strategy starts threads for an errand. -/
def Errand.suits (strategy : Strategy) : Errand → Bool
  | search _ => strategy.forks
  | drain => strategy.queues
  | participate => strategy.pools

/-- Where a thread for an errand is asked for. -/
def Errand.place : Errand → Place
  | search _ => .search
  | _ => .hiring

/-- Asking for a thread may fail, but does not panic. -/
theorem Errand.answers_place (errand : Errand) {o : Outcome Unit}
    (ho : ∀ message, o ≠ .error (.panicked message)) : errand.place.answers o := by
  cases errand with
  | search pair => trivial
  | drain => exact ho
  | participate => exact ho

namespace Task

/-- The part of a search that a task belongs to. -/
def place : Task → Place
  | enter _ | compare _ | emit _ | inline _ | fork .. | branchOff .. | consider _ | offer .. => .search
  | announce => .announcing
  | register child | launch child | retract child | unregister child => child.errand.place
  | schedule | start .. | dismiss .. | refund .. | expand | recruit _ | awaitCohort _ | assemble
  | seed _ => .leading
  | drain | take => .draining
  | participate _ | heed .. | arrive _ | await .. | tripped _ => .participating
  | finish _ | hold _ | surrender _ | depart _ => .parting
  | acquire | giveBack _ | joinAll _ | unwind _ => .main
  | ret _ => .gone

/-- Whether a task occurs under a strategy. -/
@[simp] def suits (strategy : Strategy) : Task → Bool
  | fork .. | branchOff .. => strategy.forks
  | register child | launch child | retract child | unregister child => child.errand.suits strategy
  | start .. | dismiss .. | refund .. => strategy.queues || strategy.pools
  | expand | recruit _ | awaitCohort _ | drain | take | finish _ | hold _ | surrender _ | depart _ =>
    strategy.queues
  | assemble | seed _ | consider _ | offer .. | participate _ | heed .. | arrive _ | await ..
  | tripped _ => strategy.pools
  | _ => true

/-- The tasks at the bottom of the calling thread. -/
theorem cases_of_place_main {task : Task} (h : task.place = .main) :
    task = .acquire ∨ (∃ searched, task = .giveBack searched) ∨
      (∃ searched, task = .joinAll searched) ∨ ∃ message, task = .unwind message := by
  cases task with
  | acquire => exact .inl rfl
  | giveBack searched => exact .inr (.inl ⟨searched, rfl⟩)
  | joinAll searched => exact .inr (.inr (.inl ⟨searched, rfl⟩))
  | unwind message => exact .inr (.inr (.inr ⟨message, rfl⟩))
  | register child | launch child | retract child | unregister child =>
    cases herrand : child.errand <;> simp [place, Errand.place, herrand] at h
  | _ => cases h

end Task

namespace Frame

/-- Where a frame goes on. -/
def place : Frame → Place
  | leave _ | rest _ | offered .. => .search
  | drained => .draining
  | job _ => .participating
  | started .. | opened _ | cohort | failWith _ => .leading
  | permit | worker => .parting
  | close => .main
  | child => .gone

/-- Whether a frame occurs under a strategy. -/
@[simp] def suits (strategy : Strategy) : Frame → Bool
  | offered .. | job _ | opened _ | failWith _ => strategy.pools
  | drained | cohort | worker => strategy.queues
  | started n total => (strategy.queues || strategy.pools) && decide (n < total)
  | _ => true

/-- Whether tasks of a place stand on a frame. -/
def hosts (strategy : Strategy) : Frame → Place → Bool
  | leave _, p | rest _, p | drained, p | job _, p => p == .search
  | offered .., p => p == .search || p == .announcing
  | started .., p => p == .hiring
  | opened _, p => p == .announcing
  | cohort, p | worker, p => p == .draining
  | failWith _, p => p == .participating
  | permit, p => (p == .search && strategy.forks) || (p == .participating && strategy.pools)
  | child, p => p == .parting
  | close, p => p == .leading || (p == .participating && strategy.pools)
    || (p == .search && !strategy.queues && !strategy.pools)

/-- Which outcomes come back to a frame. -/
def awaits : Frame → Outcome Unit → Prop
  | started .., o => ∀ message, o ≠ .error (.panicked message)
  | opened _, o => o = .ok ()
  | _, _ => True

/-- What a hosted task may come to comes back to the frame. -/
theorem awaits_of_hosts {strategy : Strategy} {f : Frame} {p : Place} {o : Outcome Unit}
    (h : f.hosts strategy p = true) (ho : p.answers o) : f.awaits o := by
  cases f with
  | started worker total =>
    obtain rfl : p = .hiring := by simpa [hosts] using h
    exact ho
  | opened workers =>
    obtain rfl : p = .announcing := by simpa [hosts] using h
    exact ho
  | _ => trivial

end Frame

/-- Whether a task of a place may stand on a stack of frames. -/
def Stands (strategy : Strategy) (caller : Bool) : List Frame → Place → Prop
  | [], p => p = .bottom caller
  | f :: frames, p =>
    f.hosts strategy p = true ∧ f.suits strategy = true ∧ Stands strategy caller frames f.place

/-- Whether an outcome may come back to a stack of frames. -/
def Returns (strategy : Strategy) (caller : Bool) : List Frame → Outcome Unit → Prop
  | [], _ => caller = true
  | f :: frames, o =>
    f.awaits o ∧ f.suits strategy = true ∧ Stands strategy caller frames f.place

/-- What a task may come to comes back to its stack. -/
theorem Stands.returns {strategy : Strategy} {caller : Bool} {frames : List Frame} {p : Place}
    {o : Outcome Unit} (h : Stands strategy caller frames p) (ho : p.answers o) :
    Returns strategy caller frames o := by
  cases frames with
  | nil =>
    obtain rfl : p = .bottom caller := h
    cases caller with
    | true => rfl
    | false => exact ho.elim
  | cons f frames =>
    obtain ⟨hhosts, hsuits, hbelow⟩ := h
    exact ⟨Frame.awaits_of_hosts hhosts ho, hsuits, hbelow⟩

/-- The tasks of the bottom of the calling thread stand on no frame. -/
theorem stands_main {strategy : Strategy} {caller : Bool} {frames : List Frame}
    (h : Stands strategy caller frames .main) : frames = [] ∧ caller = true := by
  cases frames with
  | nil =>
    cases caller with
    | true => exact ⟨rfl, rfl⟩
    | false => cases h
  | cons f frames =>
    have hhosts := h.1
    cases f <;> simp [Frame.hosts] at hhosts

/-- Nothing but the bottom frame of a thread goes on at the bottom. -/
theorem stands_gone {strategy : Strategy} {caller : Bool} {frames : List Frame}
    (h : Stands strategy caller frames .gone) : frames = [] ∧ caller = false := by
  cases frames with
  | nil =>
    cases caller with
    | true => cases h
    | false => exact ⟨rfl, rfl⟩
  | cons f frames =>
    have hhosts := h.1
    cases f <;> simp [Frame.hosts] at hhosts

/-- What the calling thread does for its strategy stands on its bottom frame alone. -/
theorem stands_leading {strategy : Strategy} {caller : Bool} {frames : List Frame}
    (h : Stands strategy caller frames .leading) : frames = [.close] ∧ caller = true := by
  cases frames with
  | nil => cases caller <;> cases h
  | cons f frames =>
    obtain ⟨hhosts, -, hbelow⟩ := h
    cases f <;> simp [Frame.hosts] at hhosts
    obtain ⟨rfl, hcaller⟩ := stands_main hbelow
    exact ⟨rfl, hcaller⟩

/-- The end of a worker stands on its bottom frame alone. -/
theorem stands_parting {strategy : Strategy} {caller : Bool} {frames : List Frame}
    (h : Stands strategy caller frames .parting) : frames = [.child] ∧ caller = false := by
  cases frames with
  | nil => cases caller <;> cases h
  | cons f frames =>
    obtain ⟨hhosts, -, hbelow⟩ := h
    cases f <;> simp [Frame.hosts] at hhosts
    obtain ⟨rfl, hcaller⟩ := stands_gone hbelow
    exact ⟨rfl, hcaller⟩

namespace Thread

/-- A thread that goes to a task has it. -/
@[simp] theorem task_go (t : Thread) (task : Task) : (t.go task).task = task := rfl

/-- A thread that goes to a task keeps its frames. -/
@[simp] theorem frames_go (t : Thread) (task : Task) : (t.go task).frames = t.frames := rfl

/-- A thread that calls a task has it. -/
@[simp] theorem task_call (t : Thread) (frame : Frame) (task : Task) :
    (t.call frame task).task = task := rfl

/-- A thread that calls a task has one more frame. -/
@[simp] theorem frames_call (t : Thread) (frame : Frame) (task : Task) :
    (t.call frame task).frames = frame :: t.frames := rfl

/-- A thread whose task is done returns. -/
@[simp] theorem task_done (t : Thread) (o : Outcome Unit) : (t.done o).task = .ret o := rfl

/-- A thread whose task is done keeps its frames. -/
@[simp] theorem frames_done (t : Thread) (o : Outcome Unit) : (t.done o).frames = t.frames := rfl

/-- A thread whose stack fits together. -/
def Typed (strategy : Strategy) (caller : Bool) (t : Thread) : Prop :=
  match t.task with
  | .ret o => Returns strategy caller t.frames o
  | task => task.suits strategy = true ∧ Stands strategy caller t.frames task.place

variable {strategy : Strategy} {caller : Bool} {t : Thread} {task : Task}
  {o : Outcome Unit}

/-- What holds of the stack of a thread that has not come to an outcome. -/
theorem Typed.stands (h : t.Typed strategy caller) (ht : t.task = task)
    (hret : ∀ o, task ≠ .ret o) :
    task.suits strategy = true ∧ Stands strategy caller t.frames task.place := by
  subst ht
  unfold Typed at h
  split at h
  · next o ho => exact absurd ho (hret o)
  · exact h

/-- A typed thread that returns does so to frames that take its outcome. -/
theorem Typed.returns (h : t.Typed strategy caller) (ht : t.task = .ret o) :
    Returns strategy caller t.frames o := by
  rw [Typed, ht] at h
  exact h

variable {plan : Plan} {chance : Chance} {s : Shared}


private theorem typed_openingTask (h : Stands plan.config.strategy caller t.frames .leading) :
    (t.go (openingTask plan)).Typed plan.config.strategy caller := by
  obtain ⟨hframes, rfl⟩ := stands_leading h
  rw [openingTask]
  cases plan.config.strategy <;>
    simp [Typed, go, Task.suits, Task.place, hframes, Stands, Frame.hosts, Frame.suits, Frame.place,
      Place.bottom, Strategy.queues, Strategy.pools]

private theorem stands_leave {frames : List Frame} {pair : NodePair}
    (h : Stands strategy caller frames .search) :
    Stands strategy caller (.leave pair :: frames) .search := ⟨rfl, rfl, h⟩

private theorem typed_enterPair {pair : NodePair} {t' : Thread}
    (h : Stands plan.config.strategy caller t.frames .search)
    (ht' : (enterPair plan t s pair).thread = some t') : t'.Typed plan.config.strategy caller := by
  have hleave := @stands_leave _ _ _ pair h
  rcases enterPair_eq plan t s pair with ⟨-, hmove⟩ | ⟨-, task, hfollows, hmove⟩ <;>
    rw [hmove] at ht' <;> cases ht'
  · exact h.returns trivial
  · cases hfollows with
    | empty => exact hleave.returns trivial
    | inline => exact ⟨rfl, hleave⟩
    | fork _ _ hforks => exact ⟨hforks, hleave⟩
    | consider _ _ hpools => exact ⟨hpools, hleave⟩
    | compare => exact ⟨rfl, hleave⟩

private theorem typed_comparePair {env : Interference} {pair : NodePair} {t' : Thread}
    (h : Stands plan.config.strategy caller t.frames .search)
    (ht' : (comparePair plan env t s pair).thread = some t') :
    t'.Typed plan.config.strategy caller := by
  revert ht'
  fun_cases comparePair plan env t s pair <;> rintro ⟨⟩
  · exact h.returns trivial
  · exact h.returns trivial
  · exact ⟨rfl, h⟩

private theorem typed_afterStart (hsuits : strategy.queues = true ∨ strategy.pools = true)
    (h : Stands strategy caller t.frames .leading) :
    (afterStart strategy t).Typed strategy caller := by
  obtain ⟨hframes, rfl⟩ := stands_leading h
  cases strategy <;> simp [Strategy.queues, Strategy.pools] at hsuits
  all_goals
    simp [afterStart, Typed, go, call, Task.suits, Task.place, hframes, Stands, Frame.hosts,
      Frame.suits, Frame.place, Place.bottom, Strategy.queues, Strategy.pools]

private theorem typed_afterRefund {cause : Failure}
    (hsuits : strategy.queues = true ∨ strategy.pools = true)
    (h : Stands strategy caller t.frames .leading) :
    (afterRefund strategy t cause).Typed strategy caller := by
  obtain ⟨hframes, rfl⟩ := stands_leading h
  cases strategy <;> simp [Strategy.queues, Strategy.pools] at hsuits
  all_goals
    simp [afterRefund, Typed, go, call, Task.suits, Task.place, hframes, Stands, Frame.hosts,
      Frame.suits, Frame.place, Place.bottom, Strategy.queues, Strategy.pools]

private theorem workerErrand_suits (hsuits : strategy.queues = true ∨ strategy.pools = true) :
    (workerErrand strategy).suits strategy = true ∧ (workerErrand strategy).place = .hiring := by
  cases strategy <;> simp_all [workerErrand, Errand.suits, Errand.place, Strategy.queues,
    Strategy.pools]

private theorem typed_resume {frame : Frame} {outcome : Outcome Unit} {t' : Thread}
    (h : Returns plan.config.strategy caller (frame :: t.frames) outcome)
    (ht' : (resume plan caller t s frame outcome).thread = some t') :
    t'.Typed plan.config.strategy caller := by
  obtain ⟨-, hsuits, hstands⟩ := h
  revert ht'
  fun_cases resume plan caller t s frame outcome <;> rintro ⟨⟩
  all_goals
    first
    | exact hstands.returns trivial
    | exact ⟨by simp_all [Frame.suits, Task.suits, refuseWorker], hstands⟩

/-- A thread that goes on keeps a stack that fits together. -/
theorem typed_advance {t' : Thread} (h : t.Typed plan.config.strategy caller)
    (ht' : (t.advance plan chance caller s).thread = some t') :
    t'.Typed plan.config.strategy caller := by
  revert ht'
  fun_cases advance plan chance caller t s
  -- Most tasks come to an outcome, or turn to a task of their own place.
  all_goals try
    rintro ⟨⟩
    have hstands := h.stands ‹_› (by simp)
    simp only [Task.place, Task.suits] at hstands
    first
    | exact hstands.2.returns trivial
    | exact hstands.2.returns rfl
    | exact hstands.2.returns (Errand.answers_place _ fun _ h ↦ by cases h)
    | refine ⟨?_, ?_⟩ <;> simp_all [go, call, Task.suits, Task.place, Stands, Frame.hosts,
        Frame.suits, Frame.place]; done
  all_goals intro ht'
  · cases ht'
    have hstands := h.stands ‹t.task = _› (by simp)
    exact typed_openingTask hstands.2
  · have hstands := h.stands ‹t.task = _› (by simp)
    exact typed_enterPair hstands.2 ht'
  · have hstands := h.stands ‹t.task = _› (by simp)
    exact typed_comparePair hstands.2 ht'
  · cases ht'
    obtain ⟨hsuits, hstands⟩ := h.stands ‹t.task = _› (by simp)
    exact ⟨hsuits, rfl, rfl, hstands⟩
  · cases ht'
    obtain ⟨hsuits, hstands⟩ := h.stands ‹t.task = _› (by simp)
    rw [Task.suits] at hsuits
    obtain ⟨herrand, hplace⟩ := workerErrand_suits (Bool.or_eq_true _ _ ▸ hsuits)
    refine ⟨herrand, by simpa [Frame.hosts, Task.place] using hplace, ?_, hstands⟩
    simp [Frame.suits, hsuits, ‹_ < _›]
  · cases ht'
    obtain ⟨hsuits, hstands⟩ := h.stands ‹t.task = _› (by simp)
    rw [Task.suits, Bool.or_eq_true] at hsuits
    exact typed_afterStart hsuits hstands
  · cases ht'
    obtain ⟨hsuits, hstands⟩ := h.stands ‹t.task = _› (by simp)
    rw [Task.suits, Bool.or_eq_true] at hsuits
    exact typed_afterRefund hsuits hstands
  · cases ht'
    have hstands := h.stands ‹t.task = _› (by simp)
    exact ⟨trivial, rfl, hstands.2⟩
  · have hreturns := h.returns ‹t.task = _›
    rw [‹t.frames = _›] at hreturns
    exact typed_resume hreturns ht'
  · cases ht'
    exact h

private theorem started_resume (frame : Frame) (outcome : Outcome Unit) :
    (resume plan caller t s frame outcome).started = none := by
  fun_cases resume plan caller t s frame outcome <;> rfl

private theorem ended_of_resume {frame : Frame} {outcome : Outcome Unit}
    (h : (resume plan caller t s frame outcome).thread = none) : frame = .child := by
  revert h
  fun_cases resume plan caller t s frame outcome <;> rintro ⟨⟩
  rfl

/-- A thread is started by the task that asks for it. -/
theorem started_advance {u : Thread} (h : (t.advance plan chance caller s).started = some u) :
    ∃ child, t.task = .launch child ∧ chance.refused = false ∧ u = child.thread := by
  revert h
  fun_cases advance plan chance caller t s
  all_goals try (rintro ⟨⟩; done)
  · fun_cases enterPair plan t s _ <;> rintro ⟨⟩
  · fun_cases comparePair plan chance.interference t s _ <;> rintro ⟨⟩
  · rintro ⟨⟩
    exact ⟨_, ‹_›, Bool.not_eq_true _ ▸ ‹¬chance.refused = true›, rfl⟩
  · rw [started_resume]
    rintro ⟨⟩

/-- A thread that does not launch another one starts none. -/
theorem started_eq_none (hlaunch : ∀ child, t.task ≠ .launch child) :
    (t.advance plan chance caller s).started = none := by
  rw [Option.eq_none_iff_forall_ne_some]
  intro u hu
  obtain ⟨child, htask, -⟩ := started_advance hu
  exact hlaunch child htask

/-- The stack of a new thread fits together. -/
theorem typed_thread {child : Child} (h : child.errand.suits strategy = true) :
    child.thread.Typed strategy false := by
  obtain ⟨label, errand⟩ := child
  cases errand with
  | search pair =>
    have hhosts : Frame.permit.hosts strategy .search = true := by
      simpa [Frame.hosts, Errand.suits] using h
    exact ⟨rfl, hhosts, rfl, rfl, rfl, rfl⟩
  | drain => exact ⟨h, rfl, h, rfl, rfl, rfl⟩
  | participate =>
    have hhosts : Frame.permit.hosts strategy .participating = true := by
      simpa [Frame.hosts, Errand.suits] using h
    exact ⟨h, hhosts, rfl, rfl, rfl, rfl⟩

/-- A thread ends on its bottom frame. -/
theorem ended_of_advance (h : (t.advance plan chance caller s).thread = none) :
    ∃ o frames, t.task = .ret o ∧ t.frames = .child :: frames := by
  revert h
  fun_cases advance plan chance caller t s
  all_goals try rintro ⟨⟩
  · fun_cases enterPair plan t s _ <;> rintro ⟨⟩
  · fun_cases comparePair plan chance.interference t s _ <;> rintro ⟨⟩
  · intro h
    have hframes := ‹t.frames = _›
    rw [ended_of_resume h] at hframes
    exact ⟨_, _, ‹_›, hframes⟩

end Thread

namespace Machine

variable {plan : Plan} {chance : Chance} {m m' : Machine}

/-- Machines whose stacks fit together. -/
structure Typed (plan : Plan) (m : Machine) : Prop where
  caller : m.caller.Typed plan.config.strategy true
  workers : ∀ t ∈ m.workers, t.Typed plan.config.strategy false

/-- Every thread of a typed machine is typed. -/
theorem Typed.exists_typed (h : Typed plan m) {t : Thread} (ht : t ∈ m.threads) :
    ∃ caller, t.Typed plan.config.strategy caller := by
  rcases List.mem_cons.mp ht with rfl | ht
  · exact ⟨true, h.caller⟩
  · exact ⟨false, h.workers t ht⟩

/-- The calling thread does not end. -/
theorem Typed.moved (h : Typed plan m) {choice : Choice} (hstep : m.step plan choice = some m') :
    ∃ t, m.actor choice = some t ∧ Moved plan choice.toChance m t m' := by
  refine moved_of_step (fun hnone ↦ ?_) hstep
  obtain ⟨o, frames, hret, hframes⟩ := Thread.ended_of_advance hnone
  have hreturns := h.caller.returns hret
  rw [hframes] at hreturns
  cases (stands_gone hreturns.2.2).2

/-- The stack of a thread that takes a step fits together. -/
theorem Typed.of_replaced (h : Typed plan m) {caller : Bool} {t : Thread} {others : List Thread}
    (hreplaced : Replaced plan chance m m' caller t others) : t.Typed plan.config.strategy caller := by
  cases caller with
  | true => exact hreplaced.caller_eq rfl ▸ h.caller
  | false => exact h.workers t (hreplaced.mem_workers rfl)

/-- Every step keeps the stacks together. -/
theorem Typed.step (h : Typed plan m) {t : Thread} (hmoved : Moved plan chance m t m') :
    Typed plan m' := by
  have hstarted {caller : Bool} {t u : Thread} (ht : t.Typed plan.config.strategy caller)
      (hu : (t.advance plan chance caller m.shared).started = some u) :
      u.Typed plan.config.strategy false := by
    obtain ⟨child, htask, -, rfl⟩ := Thread.started_advance hu
    exact Thread.typed_thread (ht.stands htask (by simp)).1
  cases hmoved with
  | caller hready hmove =>
    refine ⟨Thread.typed_advance h.caller (by rw [hmove]), fun u hu ↦ ?_⟩
    rcases List.mem_append.mp hu with hu | hu
    · exact h.workers u hu
    · exact hstarted h.caller (by rw [hmove]; exact Option.mem_toList.mp hu)
  | @worker before after t move hworkers hready hmove =>
    have ht := h.workers t (hworkers ▸ by simp)
    refine ⟨h.caller, fun u hu ↦ ?_⟩
    simp only [List.mem_append, Option.mem_toList] at hu
    rcases hu with ((hu | hu) | hu) | hu
    · exact h.workers u (hworkers ▸ by simp [hu])
    · exact Thread.typed_advance ht (hmove ▸ hu)
    · exact h.workers u (hworkers ▸ by simp [hu])
    · exact hstarted ht (hmove ▸ hu)

/-- The stacks of every reachable machine fit together. -/
theorem typed_of_reachable (h : Reachable plan m) : Typed plan m := by
  induction h with
  | refl => exact ⟨⟨rfl, rfl⟩, fun t ht ↦ absurd ht List.not_mem_nil⟩
  | step _ hstep ih =>
    obtain ⟨t, -, hmoved⟩ := ih.moved hstep
    exact ih.step hmoved

/-- What holds at the start, and is kept by every step of a reachable machine, holds of every
reachable machine. -/
@[elab_as_elim]
theorem Reachable.induction {P : Machine → Prop} (h : Reachable plan m)
    (start : P (ofBudget plan.config.threads))
    (step : ∀ {m m' : Machine} {chance : Chance} {t : Thread}, Reachable plan m → Typed plan m →
      Moved plan chance m t m' → P m → P m') : P m := by
  induction h with
  | refl => exact start
  | step h hstep ih =>
    have htyped := typed_of_reachable h
    obtain ⟨t, -, hmoved⟩ := htyped.moved hstep
    exact step h htyped hmoved ih

end Machine
end RayAdjacency
