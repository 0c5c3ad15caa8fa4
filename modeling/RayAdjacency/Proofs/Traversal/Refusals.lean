import RayAdjacency.Proofs.Root.Build
import RayAdjacency.Proofs.Traversal.Jobs
import RayAdjacency.Proofs.Traversal.Permits

/-!
# Refused threads

A thread that wants another one registers it and asks the operating system for it. If it is refused,
it gives back the permit that the other thread should have brought, and undoes the registration.
Other threads go on in between. `Machine.Attempt` keeps apart what the steps of the one thread
change in the books of the token and what those of all others change.

In the end the registry has as many active children as if nothing had been asked for, no failure is
recorded, and the permit is free. The two counts of children stay where they are: both count the
threads asked for, and not those that have run (`Machine.rescinds`).
-/

namespace RayAdjacency

/-- What a token tells of its child threads, and how many permits are free. -/
@[ext] structure Books where
  active : Int
  spawned : Int
  /-- What the counter of threads says. -/
  counted : Int
  available : Int
deriving Repr, DecidableEq

namespace Books

/-- No change at all. -/
def zero : Books := ⟨0, 0, 0, 0⟩

/-- One change after another. -/
def plus (a b : Books) : Books :=
  ⟨a.active + b.active, a.spawned + b.spawned, a.counted + b.counted, a.available + b.available⟩

/-- What has changed since. -/
def since (a b : Books) : Books :=
  ⟨a.active - b.active, a.spawned - b.spawned, a.counted - b.counted, a.available - b.available⟩

private theorem plus_zero (a : Books) : a.plus zero = a := by
  simp only [plus, zero, Int.add_zero]

private theorem plus_assoc (a b c : Books) : (a.plus b).plus c = a.plus (b.plus c) := by
  simp only [plus, Int.add_assoc]

private theorem plus_right_comm (a b c : Books) : (a.plus b).plus c = (a.plus c).plus b := by
  simp only [plus, Int.add_right_comm]

private theorem plus_since (a b : Books) : (a.plus b).since a = b := by
  ext <;> simp only [plus, since] <;> omega

private theorem plus_since_self (a b : Books) : a.plus (b.since a) = b := by
  ext <;> simp only [plus, since] <;> omega

end Books

/-- The books of a token. -/
def Token.books (t : Token) : Books :=
  ⟨t.children.active, t.children.spawned, t.tally.get .threadsSpawned, t.permits.available⟩

/-- The child that a task asks for, or gives up. -/
def Task.child? : Task → Option Child
  | .register child | .launch child | .retract child | .unregister child => some child
  | _ => none

/-- What a task that asks for a child changes in the books. -/
def Task.entry : Task → Books
  | .register _ => ⟨1, 1, 1, 0⟩
  | .retract _ => ⟨0, 0, 0, 1⟩
  | .unregister _ => ⟨-1, 0, 0, 0⟩
  | _ => .zero

namespace Thread

/-- Number of children that a thread registers in its next step. -/
def registers (t : Thread) : Nat :=
  match t.task with
  | .register _ => 1
  | _ => 0

/-- Number of children that a thread has registered and not yet asked for. -/
def pending (t : Thread) : Nat :=
  match t.task with
  | .launch _ => 1
  | _ => 0

/-- Number of threads that a thread is refused in its next step. -/
def refusals (t : Thread) (chance : Chance) : Nat :=
  match t.task with
  | .launch _ => if chance.refused then 1 else 0
  | _ => 0

/-- How far a thread has come that asks for a child, and what it has changed in the books. -/
inductive Asking (t : Thread) (child : Child) : Books → Thread → Prop
  | asks : Asking t child ⟨0, 0, 0, 0⟩ t
  | registered : Asking t child ⟨1, 1, 1, 0⟩ (t.go (.launch child))
  | started : Asking t child ⟨1, 1, 1, 0⟩ (t.done (.ok ()))
  | refused : Asking t child ⟨1, 1, 1, 0⟩ (t.go (.retract child))
  | retracted : Asking t child ⟨1, 1, 1, 1⟩ (t.go (.unregister child))
  | failed : Asking t child ⟨0, 1, 1, 1⟩ (t.done (Outcome.fail (Token.spawnRefused child.label)))

variable {plan : Plan} {chance : Chance} {caller : Bool} {t u v : Thread} {s : Shared} {k : Nat}
  {child : Child}

/-! ### The counts of children -/

private theorem spawned_dropGuard (token : Token) (n : Nat) :
    (token.dropGuard n).1.children.spawned = token.children.spawned := by
  rw [Token.dropGuard]
  split
  · rfl
  · split
    · next h => rw [Token.children_of_release h]
    · rfl

private theorem spawned_finish (c : Children) (outcome : Except Failure Unit) :
    (c.finish outcome).spawned = c.spawned := by
  cases outcome <;> rfl

private theorem spawned_join (c : Children) : c.join.2.spawned = c.spawned := by
  rw [Children.join]
  split <;> rfl

/-- The registry has had as many children as have been registered. -/
theorem spawned_advance : (t.advance plan chance caller s).shared.token.children.spawned =
    s.token.children.spawned + t.registers := by
  rw [children_advance]
  fun_cases registers t
  · next htask =>
    rw [childrenAfter, htask]
    rfl
  · next hother =>
    fun_cases childrenAfter t s
    · next htask => exact (hother _ htask).elim
    all_goals first
      | exact spawned_dropGuard _ _
      | exact spawned_finish _ _
      | exact spawned_join _
      | rfl

/-- The counter of threads counts the registrations. -/
theorem get_threadsSpawned_advance :
    (t.advance plan chance caller s).shared.token.tally.get .threadsSpawned =
      s.token.tally.get .threadsSpawned + t.registers := by
  rw [registers]
  fun_cases advance plan chance caller t s
  all_goals rw [‹t.task = _›]
  all_goals try
    first
    | rfl
    | exact congrArg Tally.threadsSpawned (Token.tally_of_release ‹_›)
    | exact congrArg Tally.threadsSpawned (Token.tally_of_tryAcquire ‹_›)
    | exact congrArg Tally.threadsSpawned (Token.tally_of_join ‹_›)
    | exact get_enterPair _ rfl
    | exact get_comparePair _ _ rfl
    | exact get_resume _ _ rfl
    | simp; done
  · exact congrArg Tally.threadsSpawned (congrArg Token.tally (Shared.token_note _ _ _))
  · next hlevels _ =>
    have hkept := Root.get_expandLevels (c := .threadsSpawned) hlevels rfl
    exact hkept
  · rw [Shared.token_note]
    exact congrArg Tally.threadsSpawned (Token.tally_of_tryAcquire ‹_›)
  · dsimp only
    split <;> rfl

private theorem launched_note (s : Shared) (caller : Bool) (records : List LogRecord) :
    (s.note caller records).launched = s.launched := by
  obtain ⟨log, h⟩ := s.note_eq caller records
  rw [h]

private theorem launched_dropPermit : (s.dropPermit caller).launched = s.launched :=
  launched_note _ _ _

private theorem launched_enterPair (pair : NodePair) :
    (enterPair plan t s pair).shared.launched = s.launched := by
  fun_cases enterPair plan t s pair <;> rfl

private theorem launched_comparePair (env : Interference) (pair : NodePair) :
    (comparePair plan env t s pair).shared.launched = s.launched := by
  fun_cases comparePair plan env t s pair <;> rfl

private theorem launched_resume (frame : Frame) (outcome : Outcome Unit) :
    (resume plan caller t s frame outcome).shared.launched = s.launched := by
  fun_cases resume plan caller t s frame outcome
  all_goals first | rfl | exact launched_dropPermit | exact launched_note _ _ _

/-- Whoever asks for a thread is started one or refused one. -/
theorem launched_advance : (t.advance plan chance caller s).shared.launched +
    t.refusals chance = s.launched + t.pending := by
  rw [refusals, pending]
  fun_cases advance plan chance caller t s
  all_goals rw [‹t.task = _›]
  all_goals try
    first
    | rfl
    | exact launched_enterPair _
    | exact launched_comparePair _ _
    | exact launched_resume _ _
    | exact launched_note _ _ _
    | exact launched_dropPermit
  · simp [‹chance.refused = true›]
  · simp only [‹¬chance.refused = true›, launched_note]
    rfl
  · rcases signOff_eq plan.config.strategy s with ⟨-, hafter⟩ | ⟨-, hafter⟩ <;> rw [hafter]
  · dsimp only
    split <;> rfl

/-- Of the threads that a step asks for, it starts those that are not refused. -/
theorem answered_advance : (t.advance plan chance caller s).started.toList.length +
    t.refusals chance = t.pending := by
  fun_cases pending t
  · next htask =>
    rw [refusals, htask]
    by_cases hrefused : chance.refused = true
    · simp only [advance, htask, if_pos hrefused]
      rfl
    · simp only [advance, htask, if_neg hrefused]
      rfl
  · next hother =>
    rw [started_eq_none hother, refusals]
    split
    · next htask => exact (hother _ htask).elim
    · rfl

private theorem pending_enterPair (pair : NodePair) :
    Machine.weigh pending (enterPair plan t s pair).threads = 0 := by
  rcases enterPair_eq plan t s pair with ⟨-, hmove⟩ | ⟨-, task, hfollows, hmove⟩ <;> rw [hmove]
  · rfl
  · cases hfollows <;> rfl

private theorem pending_comparePair (env : Interference) (pair : NodePair) :
    Machine.weigh pending (comparePair plan env t s pair).threads = 0 := by
  fun_cases comparePair plan env t s pair <;> rfl

private theorem pending_resume (frame : Frame) (outcome : Outcome Unit) :
    Machine.weigh pending (resume plan caller t s frame outcome).threads = 0 := by
  fun_cases resume plan caller t s frame outcome <;> rfl

/-- A thread has registered a child and not asked for it right after it has registered it. -/
theorem pending_advance :
    Machine.weigh pending (t.advance plan chance caller s).threads = t.registers := by
  rw [registers]
  fun_cases advance plan chance caller t s
  all_goals rw [‹t.task = _›]
  all_goals try
    first
    | rfl
    | exact pending_enterPair _
    | exact pending_comparePair _ _
    | exact pending_resume _ _
  · fun_cases openingTask plan <;> rfl
  · next child _ _ _ =>
    obtain ⟨label, errand⟩ := child
    cases errand <;> rfl
  · rcases afterStart_eq plan.config.strategy t with ⟨-, hafter⟩ | ⟨-, hafter⟩ <;>
      rw [hafter] <;> rfl
  · next cause _ _ _ =>
    rcases afterRefund_eq plan.config.strategy t cause with ⟨-, hafter⟩ | ⟨-, hafter⟩ <;>
      rw [hafter] <;> rfl
  · simp [Move.threads, Machine.weigh, pending, ‹t.task = _›]

/-! ### One attempt -/

private theorem dropGuard_eq {token : Token} (h : token.permits.Balances k) (hk : 1 ≤ k) :
    (token.dropGuard 1).1 = { token with
      permits := { token.permits with available := token.permits.available + 1 } } := by
  have hheld : ¬token.permits.held < 1 := by
    rw [Permits.Balances] at h
    rw [Permits.held]
    omega
  rw [Token.dropGuard, if_neg Nat.one_ne_zero, Token.release, Permits.release, if_neg hheld]
  rfl

/-- What a step changes in the books while a thread asks for a child. The failure recorded is never
touched. -/
theorem books_advance (hbalances : s.token.permits.Balances k) (hk : t.permits ≤ k)
    (hactive : t.heads ≤ s.token.children.active + 1) (hchild : t.task.child? = some child) :
    (t.advance plan chance caller s).shared.token.books = s.token.books.plus t.task.entry ∧
      (t.advance plan chance caller s).shared.token.children.failure =
        s.token.children.failure := by
  cases htask : t.task with
  | register child =>
    simp only [advance, htask, Token.books, Token.register, Children.register, Books.plus,
      Task.entry, Tally.bump, Tally.get_add, if_true, Books.mk.injEq, and_true]
    omega
  | launch child =>
    have htoken : (t.advance plan chance caller s).shared.token = s.token := by
      simp only [advance, htask]
      split
      · rfl
      · exact Shared.token_note _ _ _
    rw [htoken]
    exact ⟨(Books.plus_zero _).symm, rfl⟩
  | retract child =>
    have hone : 1 ≤ k := by
      rw [permits_of_task htask, Task.permits] at hk
      omega
    have htoken : (t.advance plan chance caller s).shared.token = (s.token.dropGuard 1).1 := by
      simp only [advance, htask, Shared.token_dropPermit]
    rw [htoken, dropGuard_eq hbalances hone]
    simp only [Token.books, Books.plus, Task.entry, Books.mk.injEq, and_true]
    omega
  | unregister child =>
    have hheads : t.heads = 2 := by rw [heads, htask]
    simp only [advance, htask, Token.books, Token.finish, Children.finish, Books.plus,
      Task.entry, Books.mk.injEq, and_true]
    omega
  | _ =>
    rw [htask] at hchild
    cases hchild

/-- A thread that asks for a child comes to the next point. -/
theorem Asking.advance {own : Books} (htask : t.task = .register child) (h : Asking t child own u)
    (hasks : u.task.child?.isSome)
    (hnext : (u.advance plan chance caller s).thread = some v) :
    Asking t child (own.plus u.task.entry) v := by
  cases h with
  | asks =>
    simp only [Thread.advance, htask] at hnext
    cases hnext
    rw [htask]
    exact .registered
  | registered =>
    by_cases hrefused : chance.refused = true
    · simp only [Thread.advance, go, if_pos hrefused] at hnext
      cases hnext
      exact .refused
    · simp only [Thread.advance, go, if_neg hrefused] at hnext
      cases hnext
      exact .started
  | refused =>
    simp only [Thread.advance, go] at hnext
    cases hnext
    exact .retracted
  | retracted =>
    simp only [Thread.advance, go] at hnext
    cases hnext
    exact .failed
  | started => cases hasks
  | failed => cases hasks

/-- A thread that fails has been refused. -/
theorem Asking.eq_of_failed {own : Books} (h : Asking t child own u)
    (htask : t.task = .register child)
    (hfailed : u.task = .ret (Outcome.fail (Token.spawnRefused child.label))) :
    own = ⟨0, 1, 1, 1⟩ := by
  cases h with
  | asks =>
    rw [htask] at hfailed
    cases hfailed
  | failed => rfl
  | _ => cases hfailed

end Thread

namespace Machine

variable {plan : Plan} {m m' m'' : Machine} {t u v : Thread} {child : Child} {choice : Choice}
  {own others : Books} {ran refused : Nat}

/-- Runs on from a machine `m`, in which a thread `t` asks for a child: what the thread has become,
what its own steps have changed in the books so far, and what those of all other threads have
changed. Threads that do not differ are not told apart. -/
inductive Attempt (plan : Plan) (m : Machine) (t : Thread) :
    Books → Books → Thread → Machine → Prop
  | refl : Attempt plan m t .zero .zero t m
  | own {own others : Books} {u v : Thread} {m' m'' : Machine} {choice : Choice}
      (h : Attempt plan m t own others u m') (hasks : u.task.child?.isSome)
      (hactor : m'.actor choice = some u) (hstep : m'.step plan choice = some m'')
      (hnext : (u.advance plan choice.toChance choice.worker.isNone m'.shared).thread = some v) :
      Attempt plan m t (own.plus (m''.shared.token.books.since m'.shared.token.books)) others v m''
  | other {own others : Books} {u : Thread} {m' m'' : Machine} {choice : Choice}
      (h : Attempt plan m t own others u m') (hstep : m'.step plan choice = some m'')
      (hstays : u ∈ m''.threads) :
      Attempt plan m t own (others.plus (m''.shared.token.books.since m'.shared.token.books)) u m''

/-- An attempt is a run. -/
theorem Attempt.leads (h : Attempt plan m t own others u m') : Leads plan m m' := by
  induction h with
  | refl => exact .refl
  | own _ _ _ hstep _ ih => exact ih.step hstep
  | other _ hstep _ ih => exact ih.step hstep

/-- What a step of a thread changes that asks for a child, wherever the search has come. -/
theorem books_step (h : Reachable plan m) (hactor : m.actor choice = some t)
    (hstep : m.step plan choice = some m') (hasks : t.task.child?.isSome) :
    m'.shared.token.books = m.shared.token.books.plus t.task.entry ∧
      m'.shared.token.children.failure = m.shared.token.children.failure := by
  obtain ⟨child, hchild⟩ := Option.isSome_iff_exists.mp hasks
  obtain ⟨t', hactor', hmoved⟩ := (typed_of_reachable h).moved hstep
  obtain rfl := Option.some.inj (hactor.symm.trans hactor')
  obtain ⟨caller, others, hreplaced⟩ := hmoved.exists_replaced
  have ht : t ∈ m.threads := hreplaced.before.mem_iff.mpr (.head _)
  have hbalances := balances_of_task h ht fun o ho ↦ by
    rw [ho] at hchild
    cases hchild
  have hheads : t.heads ≤ m.shared.token.children.active + 1 := by
    rw [← heads_threads h]
    exact le_weigh ht
  rw [hreplaced.shared_eq]
  exact Thread.books_advance hbalances (le_weigh ht) hheads hchild

/-- Whatever other threads do, what the steps of the one thread have changed is known at every
point. -/
theorem Attempt.asking (h : Attempt plan m t own others u m') (hm : Reachable plan m)
    (htask : t.task = .register child) : Thread.Asking t child own u := by
  induction h with
  | refl => exact .asks
  | own h hasks hactor hstep hnext ih =>
    obtain ⟨hbooks, -⟩ := books_step (hm.trans h.leads) hactor hstep hasks
    rw [hbooks, Books.plus_since]
    exact ih.advance htask hasks hnext
  | other _ _ _ ih => exact ih

/-- The changes of the one thread and those of all others make up the whole change. -/
theorem Attempt.books_eq (h : Attempt plan m t own others u m') :
    m'.shared.token.books = (m.shared.token.books.plus own).plus others := by
  induction h with
  | refl => rw [Books.plus_zero, Books.plus_zero]
  | own _ _ _ _ _ ih =>
    rw [← Books.plus_assoc, Books.plus_right_comm, ← ih, Books.plus_since_self]
  | other _ _ _ ih => rw [← Books.plus_assoc, ← ih, Books.plus_since_self]

/-- A thread that asks for a child never waits. -/
theorem exists_step_of_child (hactor : m.actor choice = some t) (hasks : t.task.child?.isSome) :
    ∃ m', m.step plan choice = some m' := by
  have hready : t.isBlocked plan choice.toChance m.workers.isEmpty m.shared = false := by
    rw [Thread.isBlocked]
    cases htask : t.task
    all_goals first
      | rfl
      | rw [htask] at hasks
        cases hasks
  rw [actor] at hactor
  rw [step]
  cases hworker : choice.worker with
  | none =>
    rw [hworker] at hactor
    cases hactor
    simp [stepCaller, isReady, hready]
  | some i =>
    rw [hworker] at hactor
    simp only at hactor
    simp [stepWorker, isReady, hactor, hready]

private theorem step_of_actor (hactor : m.actor choice = some t)
    (hstep : m.step plan choice = some m') :
    let move := t.advance plan choice.toChance choice.worker.isNone m.shared
    m'.shared = move.shared ∧ ∀ u, move.thread = some u → m'.actor choice = some u := by
  simp only [actor] at hactor ⊢
  rw [step] at hstep
  cases hworker : choice.worker with
  | none =>
    rw [hworker] at hactor hstep
    cases hactor
    simp only [stepCaller] at hstep
    split at hstep <;> cases hstep
    refine ⟨rfl, fun u hnext ↦ ?_⟩
    rw [Option.isNone_none] at hnext
    simp only [hnext, Option.getD_some]
  | some i =>
    rw [hworker] at hactor hstep
    simp only at hactor
    simp only [stepWorker, hactor, Option.bind_eq_bind, Option.bind_some] at hstep
    split at hstep <;> cases hstep
    refine ⟨rfl, fun u hnext ↦ ?_⟩
    rw [Option.isNone_some] at hnext
    obtain ⟨hi, -⟩ := List.getElem?_eq_some_iff.mp hactor
    have hlength : (m.workers.take i).length = i := List.length_take_of_le (Nat.le_of_lt hi)
    simp [hnext, hlength]

private theorem Attempt.next (h : Attempt plan m t own others u m') (hasks : u.task.child?.isSome)
    (hactor : m'.actor choice = some u)
    (hnext : ∀ caller s, (u.advance plan choice.toChance caller s).thread = some v) :
    ∃ own' m'', Attempt plan m t own' others v m'' ∧ m''.actor choice = some v := by
  obtain ⟨m'', hstep⟩ := @exists_step_of_child plan m' u choice hactor hasks
  exact ⟨_, m'', h.own hasks hactor hstep (hnext _ _),
    (step_of_actor hactor hstep).2 v (hnext _ _)⟩

/-- A thread that is refused a child gets the refusal for an answer. -/
theorem exists_failed (hactor : m.actor choice = some t) (htask : t.task = .register child)
    (hrefused : choice.refused = true) : ∃ own m', Attempt plan m t own .zero
      (t.done (Outcome.fail (Token.spawnRefused child.label))) m' := by
  obtain ⟨own₁, m₁, h₁, hactor₁⟩ := Attempt.refl.next (by rw [htask]; rfl) hactor
    (v := t.go (.launch child)) fun _ _ ↦ by simp only [Thread.advance, htask]
  obtain ⟨own₂, m₂, h₂, hactor₂⟩ := h₁.next rfl hactor₁ (v := t.go (.retract child))
    fun _ _ ↦ by simp only [Thread.advance, Thread.go, if_pos hrefused]
  obtain ⟨own₃, m₃, h₃, hactor₃⟩ := h₂.next rfl hactor₂ (v := t.go (.unregister child))
    fun _ _ ↦ by simp only [Thread.advance, Thread.go]
  obtain ⟨own₄, m₄, h₄, -⟩ := h₃.next rfl hactor₃
    (v := t.done (Outcome.fail (Token.spawnRefused child.label)))
    fun _ _ ↦ by simp only [Thread.advance, Thread.go, Thread.done]
  exact ⟨own₄, m₄, h₄⟩

/-- Runs from the start of a search, with the numbers of threads that have been started and that
have been refused. -/
inductive Launches (plan : Plan) : Nat → Nat → Machine → Prop
  | start : Launches plan 0 0 (ofBudget plan.config.threads)
  | step {ran refused : Nat} {m m' : Machine} {choice : Choice} {t : Thread}
      (h : Launches plan ran refused m) (hactor : m.actor choice = some t)
      (hstep : m.step plan choice = some m') :
      Launches plan
        (ran + (t.advance plan choice.toChance choice.worker.isNone
          m.shared).started.toList.length)
        (refused + t.refusals choice.toChance) m'

/-- A machine that has started and been refused so many threads is reachable. -/
theorem Launches.reachable (h : Launches plan ran refused m) : Reachable plan m := by
  induction h with
  | start => exact .refl
  | step _ _ hstep ih => exact Leads.step ih hstep

/-- Every run starts and refuses some number of threads. -/
theorem Reachable.exists_launches (h : Reachable plan m) :
    ∃ ran refused, Launches plan ran refused m := by
  induction h with
  | refl => exact ⟨0, 0, .start⟩
  | step h hstep ih =>
    obtain ⟨ran, refused, hlaunches⟩ := ih
    obtain ⟨t, hactor, -⟩ := (typed_of_reachable h).moved hstep
    exact ⟨_, _, hlaunches.step hactor hstep⟩

/-- What the counts say during a run. -/
structure Counted (ran refused : Nat) (m : Machine) : Prop where
  launched_eq : m.shared.launched = ran
  /-- A child that has been counted has run, has been refused, or is still to be asked for. -/
  spawned_eq : m.shared.token.children.spawned =
    ran + refused + weigh Thread.pending m.threads
  counted_eq : m.shared.token.tally.get .threadsSpawned = m.shared.token.children.spawned

private theorem Counted.step (h : Counted ran refused m) (hm : Reachable plan m)
    (hactor : m.actor choice = some t) (hstep : m.step plan choice = some m') :
    Counted (ran + (t.advance plan choice.toChance choice.worker.isNone
      m.shared).started.toList.length) (refused + t.refusals choice.toChance) m' := by
  obtain ⟨t', hactor', hmoved⟩ := (typed_of_reachable hm).moved hstep
  obtain rfl := Option.some.inj (hactor.symm.trans hactor')
  obtain ⟨caller, others, hreplaced⟩ := hmoved.exists_replaced
  have hshared := (step_of_actor hactor hstep).1
  have hlaunched :=
    @Thread.launched_advance plan choice.toChance choice.worker.isNone t m.shared
  have hanswered :=
    @Thread.answered_advance plan choice.toChance choice.worker.isNone t m.shared
  obtain ⟨hran, hspawned, hcounted⟩ := h
  rw [weigh_perm hreplaced.before, weigh] at hspawned
  constructor
  · rw [hshared]
    omega
  · rw [weigh_perm hreplaced.after, weigh_append, Thread.pending_advance, hshared,
      Thread.spawned_advance]
    omega
  · rw [hshared, Thread.spawned_advance, Thread.get_threadsSpawned_advance, hcounted]

/-- The counts agree with every run. -/
theorem Launches.counted (h : Launches plan ran refused m) : Counted ran refused m := by
  induction h with
  | start => exact ⟨rfl, rfl, rfl⟩
  | step h hactor hstep ih => exact ih.step h.reachable hactor hstep

/-- When no child is active, none is still to be asked for. -/
theorem pending_of_active_eq_zero (h : Reachable plan m)
    (hactive : m.shared.token.children.active = 0) : weigh Thread.pending m.threads = 0 := by
  have hheads := heads_threads h
  rw [threads, workers_of_active_eq_zero h hactive] at hheads ⊢
  rw [hactive, weigh, weigh, Thread.heads] at hheads
  rw [weigh, weigh, Thread.pending]
  split
  · next htask =>
    rw [htask] at hheads
    cases hheads
  · rfl

/-- What refused threads leave behind. -/
structure Rescinds (plan : Plan) : Prop where
  /-- A thread that asks for a child goes through these points. What its own steps have changed on
  the way does not depend on what other threads do, and together with what those have changed it
  is all that has changed. -/
  asks : ∀ {m t child own others u m'}, Reachable plan m → t.task = .register child →
    Attempt plan m t own others u m' → Thread.Asking t child own u ∧
      m'.shared.token.books = (m.shared.token.books.plus own).plus others
  /-- If the child is refused, as many children are active as before and the permit of the child is
  free, but both counts of children have grown. -/
  cancels : ∀ {m t child own others u m'}, Reachable plan m → t.task = .register child →
    Attempt plan m t own others u m' →
    u.task = .ret (Outcome.fail (Token.spawnRefused child.label)) → own = ⟨0, 1, 1, 1⟩
  /-- A thread that is refused a child can go on to this failure. -/
  fails : ∀ {m t child choice}, Reachable plan m → m.actor choice = some t →
    t.task = .register child → choice.refused = true → ∃ m', Attempt plan m t ⟨0, 1, 1, 1⟩ .zero
      (t.done (Outcome.fail (Token.spawnRefused child.label))) m'
  /-- None of these steps touches the failure recorded. -/
  failure : ∀ {m t choice m'}, Reachable plan m → m.actor choice = some t →
    t.task.child?.isSome → m.step plan choice = some m' →
    m'.shared.token.children.failure = m.shared.token.children.failure
  /-- When no child is active, both counts exceed the number of threads that have run by that of the
  refusals. -/
  counts : ∀ {ran refused m}, Launches plan ran refused m →
    m.shared.token.children.active = 0 → m.shared.launched = ran ∧
      m.shared.token.children.spawned = ran + refused ∧
      m.shared.token.tally.get .threadsSpawned = ran + refused
  /-- Every run starts and refuses some number of threads. -/
  launches : ∀ {m}, Reachable plan m → ∃ ran refused, Launches plan ran refused m

/-- Under every strategy and schedule, a refusal leaves the two counts of children too large, and
nothing else. -/
theorem rescinds (plan : Plan) : Rescinds plan where
  asks hm htask h := ⟨h.asking hm htask, h.books_eq⟩
  cancels hm htask h hfailed := (h.asking hm htask).eq_of_failed htask hfailed
  fails hm hactor htask hrefused := by
    obtain ⟨own, m', h⟩ := exists_failed hactor htask hrefused
    have hown := (h.asking hm htask).eq_of_failed htask rfl
    rw [hown] at h
    exact ⟨m', h⟩
  failure hm hactor hasks hstep := (books_step hm hactor hstep hasks).2
  counts h hactive := by
    obtain ⟨hlaunched, hspawned, hcounted⟩ := h.counted
    rw [pending_of_active_eq_zero h.reachable hactive, Nat.add_zero] at hspawned
    exact ⟨hlaunched, hspawned, hcounted.trans hspawned⟩
  launches h := h.exists_launches

/-- A search of four rays that is refused its only worker counts it for a child that has run. -/
theorem spawned_of_refused : ¬∀ (plan : Plan) (m : Machine), Reachable plan m →
    m.shared.token.children.active = 0 → m.shared.token.children.spawned = m.shared.launched ∧
      m.shared.token.tally.get .threadsSpawned = m.shared.launched := by
  intro h
  have hpasses : Root.crossingPasses (fun r stores ↦
      let m := (ofBudget 2).run ⟨⟨r, stores, .combinatorial⟩, .jobQueue 2 1 .waitHalfDone, 0⟩
        (some 0) .zero 400
      decide (m.shared.token.children.active = 0 ∧ m.shared.token.children.spawned = 1 ∧
        m.shared.launched = 0)) = true := by
    decide +kernel
  obtain ⟨r, built, hbuild, hrun⟩ := Root.exists_build_crossing hpasses
  obtain ⟨hactive, hspawned, hlaunched⟩ := of_decide_eq_true hrun
  have hreachable := @leads_run ⟨⟨r, built.stores, .combinatorial⟩, .jobQueue 2 1 .waitHalfDone, 0⟩
    (some 0) .zero 400 (ofBudget 2)
  obtain ⟨heq, -⟩ := h _ _ hreachable hactive
  rw [hspawned, hlaunched] at heq
  cases heq

end Machine
end RayAdjacency
