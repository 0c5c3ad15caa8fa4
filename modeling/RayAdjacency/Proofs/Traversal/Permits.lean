import RayAdjacency.Proofs.Traversal.Ending

/-!
# The permits of a search

Each thread holds permits for itself and for the threads that it is about to start; `Thread.permits`
counts them. Every step keeps the permits held and the free ones in balance with the budget, so a
thread that gives permits back is never refused. Only a search that ends with a panic keeps the
permit of the calling thread.
-/

namespace RayAdjacency

/-- The permits that go with a task. -/
@[simp] def Task.permits : Task → Nat
  | giveBack _ | unwind _ | branchOff .. | register _ | launch _ | retract _ | finish _ | hold _
  | surrender _ => 1
  | start worker total => total - worker
  | dismiss _ unstarted _ | refund unstarted _ => unstarted - 1
  | seed workers => workers
  | _ => 0

/-- The permits that go with a frame. -/
@[simp] def Frame.permits : Frame → Nat
  | permit | worker | close => 1
  | started n total => total - n - 1
  | opened workers => workers
  | _ => 0

/-- The permits that a thread holds. -/
def Thread.permits (t : Thread) : Nat := t.task.permits + (t.frames.map Frame.permits).sum

/-- Whether `n` permits that are held and those that are free make up the budget. -/
def Permits.Balances (p : Permits) (n : Nat) : Prop := n + p.available = p.budget

/-- Of a budget that has a permit, the calling thread gets one. -/
theorem Permits.exists_acquireInitial {budget : Nat} (h : 1 ≤ budget) :
    ∃ p, (ofBudget budget).acquireInitial = .ok p := by
  have hone : min budget 1 = 1 := Nat.min_eq_right h
  rw [acquireInitial, tryAcquire, ofBudget]
  simp only [hone]
  exact ⟨_, rfl⟩

private theorem Permits.eq_of_acquireInitial {p q : Permits} (h : p.acquireInitial = .ok q) :
    q.budget = p.budget ∧ q.available + 1 = p.available := by
  rw [acquireInitial, tryAcquire] at h
  split at h
  · next hone =>
    cases h
    obtain ⟨hmin, rfl⟩ := Prod.mk.inj hone
    refine ⟨rfl, ?_⟩
    show p.available - min p.available 1 + 1 = p.available
    omega
  · cases h

namespace Token

variable {t t' : Token} {n k taken : Nat}

private theorem permits_of_release (h : t.release n = .ok t') :
    t'.permits.budget = t.permits.budget ∧ t'.permits.available = t.permits.available + n := by
  rw [release, Permits.release] at h
  split at h <;> cases h
  exact ⟨rfl, rfl⟩

private theorem permits_of_tryAcquire (h : t.tryAcquire n = (taken, t')) :
    t'.permits.budget = t.permits.budget ∧
      taken + t'.permits.available = t.permits.available := by
  rw [tryAcquire, Permits.tryAcquire] at h
  cases h
  refine ⟨rfl, ?_⟩
  show min t.permits.available n + (t.permits.available - min t.permits.available n) = _
  omega

private theorem permits_of_join {joined : Except Failure Unit} (h : t.join = (joined, t')) :
    t'.permits = t.permits := by
  rw [join] at h
  cases h
  rfl

/-- Permits that are held can be given back. -/
theorem exists_release (h : t.permits.Balances k) (hn : n ≤ k) : ∃ t', t.release n = .ok t' := by
  have hheld : ¬t.permits.held < n := by
    have : k + t.permits.available = t.permits.budget := h
    rw [Permits.held]
    omega
  rw [release, Permits.release, if_neg hheld]
  exact ⟨_, rfl⟩

private theorem permits_dropGuard (h : t.permits.Balances k) (hk : 1 ≤ k) :
    (t.dropGuard 1).1.permits.budget = t.permits.budget ∧
      (t.dropGuard 1).1.permits.available = t.permits.available + 1 := by
  obtain ⟨t', hrelease⟩ := exists_release h hk
  rw [dropGuard, if_neg Nat.one_ne_zero, hrelease]
  exact permits_of_release hrelease

private theorem budget_dropGuard (t : Token) (n : Nat) :
    (t.dropGuard n).1.permits.budget = t.permits.budget := by
  rw [dropGuard]
  split
  · rfl
  · split
    · next hrelease => exact (permits_of_release hrelease).1
    · rfl

end Token

namespace Thread

variable {plan : Plan} {chance : Chance} {caller : Bool} {t : Thread} {s : Shared} {rest : Nat}

/-- A thread holds the permits of its task and those of its frames. -/
theorem permits_of_task {task : Task} (h : t.task = task) :
    t.permits = task.permits + (t.frames.map Frame.permits).sum := by
  rw [permits, h]

private theorem permits_thread (child : Child) : child.thread.permits = 1 := by
  fun_cases Child.thread child <;> simp [permits]

private theorem permits_openingTask :
    (t.go (openingTask plan)).permits = (t.frames.map Frame.permits).sum := by
  fun_cases openingTask plan <;> simp [permits]

private theorem permits_afterStart (strategy : Strategy) :
    (afterStart strategy t).permits = (t.frames.map Frame.permits).sum := by
  rcases afterStart_eq strategy t with ⟨-, hafter⟩ | ⟨-, hafter⟩ <;> rw [hafter] <;>
    simp [permits]

private theorem permits_afterRefund (strategy : Strategy) (cause : Failure) :
    (afterRefund strategy t cause).permits = (t.frames.map Frame.permits).sum := by
  rcases afterRefund_eq strategy t cause with ⟨-, hafter⟩ | ⟨-, hafter⟩ <;> rw [hafter] <;>
    simp [permits]

private theorem weigh_enterPair (pair : NodePair) :
    Machine.weigh permits (enterPair plan t s pair).threads = (t.frames.map Frame.permits).sum ∧
      (enterPair plan t s pair).shared.token.permits = s.token.permits := by
  rcases enterPair_eq plan t s pair with ⟨-, hmove⟩ | ⟨-, task, hfollows, hmove⟩ <;> rw [hmove]
  · simp [Machine.weigh, Move.threads, permits]
  · have hpermits : (t.call (.leave pair) task).permits = (t.frames.map Frame.permits).sum := by
      cases hfollows <;> simp [permits]
    simp [Machine.weigh, Move.threads, hpermits]

private theorem weigh_comparePair (env : Interference) (pair : NodePair) :
    Machine.weigh permits (comparePair plan env t s pair).threads =
        (t.frames.map Frame.permits).sum ∧
      (comparePair plan env t s pair).shared.token.permits = s.token.permits := by
  fun_cases comparePair plan env t s pair
  all_goals exact ⟨by simp [Machine.weigh, Move.threads, permits], rfl⟩

private theorem balances_resume {frame : Frame} {outcome : Outcome Unit}
    (hreturns : Returns plan.config.strategy caller (frame :: t.frames) outcome)
    (h : s.token.permits.Balances (frame.permits + (t.frames.map Frame.permits).sum + rest)) :
    (resume plan caller t s frame outcome).shared.token.permits.Balances
      (Machine.weigh permits (resume plan caller t s frame outcome).threads + rest) := by
  obtain ⟨hawaits, -, hstands⟩ := hreturns
  fun_cases resume plan caller t s frame outcome
  all_goals try
    unfold Permits.Balances at h ⊢
    simp [Machine.weigh, Move.threads, permits, refuseWorker, Token.finish] at h ⊢
    omega
  · obtain ⟨hbudget, havailable⟩ := Token.permits_dropGuard h (by simp; omega)
    unfold Permits.Balances at h ⊢
    simp [Machine.weigh, Move.threads, permits] at h ⊢
    omega
  · obtain ⟨hframes, -⟩ := stands_gone hstands
    simpa [Machine.weigh, Move.threads, hframes, Token.finish] using h
  · cases hawaits
  · exact absurd rfl (hawaits _)

private theorem balances_giveBack {searched : Outcome Unit} (htask : t.task = .giveBack searched)
    (h : s.token.permits.Balances (t.permits + rest)) :
    (t.advance plan chance caller s).shared.token.permits.Balances
      (Machine.weigh permits (t.advance plan chance caller s).threads + rest) := by
  rw [permits_of_task htask] at h
  obtain ⟨token, hrelease⟩ := Token.exists_release h (n := 1) (by simp; omega)
  have hpermits := Token.permits_of_release hrelease
  unfold Permits.Balances at h ⊢
  simp [advance, htask, hrelease, Machine.weigh, Move.threads, permits] at h ⊢
  omega

private theorem balances_refund {unstarted : Nat} {cause : Failure}
    (htask : t.task = .refund unstarted cause)
    (h : s.token.permits.Balances (t.permits + rest)) :
    (t.advance plan chance caller s).shared.token.permits.Balances
      (Machine.weigh permits (t.advance plan chance caller s).threads + rest) := by
  rw [permits_of_task htask] at h
  obtain ⟨token, hrelease⟩ := Token.exists_release h (n := unstarted - 1) (by simp; omega)
  have hpermits := Token.permits_of_release hrelease
  unfold Permits.Balances at h ⊢
  simp [advance, htask, hrelease, Machine.weigh, Move.threads, permits_afterRefund] at h ⊢
  omega

private theorem balances_dropPermit {task : Task}
    (hmove : t.advance plan chance caller s = ⟨t.go task, s.dropPermit caller, none⟩)
    (hholds : t.task.permits = task.permits + 1)
    (h : s.token.permits.Balances (t.permits + rest)) :
    (t.advance plan chance caller s).shared.token.permits.Balances
      (Machine.weigh permits (t.advance plan chance caller s).threads + rest) := by
  rw [permits, hholds] at h
  obtain ⟨hbudget, havailable⟩ := Token.permits_dropGuard h (by omega)
  unfold Permits.Balances at h ⊢
  rw [hmove, Shared.token_dropPermit, hbudget, havailable]
  simp [Machine.weigh, Move.threads, permits, -Task.permits] at h ⊢
  omega

private theorem balances_acquire (htask : t.task = .acquire)
    (h : s.token.permits.Balances (t.permits + rest)) :
    (t.advance plan chance caller s).shared.token.permits.Balances
      (Machine.weigh permits (t.advance plan chance caller s).threads + rest) := by
  rw [permits_of_task htask] at h
  unfold Permits.Balances at h ⊢
  simp only [advance, htask]
  split
  · next hacquire =>
    obtain ⟨hbudget, havailable⟩ := Permits.eq_of_acquireInitial hacquire
    simp [Machine.weigh, Move.threads, permits] at h ⊢
    omega
  · simpa [Machine.weigh, Move.threads, permits] using h

private theorem balances_take {task : Task} {token : Token} {n taken : Nat}
    (htake : s.token.tryAcquire n = (taken, token)) (hholds : task.permits = t.task.permits + taken)
    (h : s.token.permits.Balances (t.permits + rest)) :
    token.permits.Balances ((t.go task).permits + rest) := by
  obtain ⟨hbudget, havailable⟩ := Token.permits_of_tryAcquire htake
  unfold Permits.Balances permits at h ⊢
  rw [hbudget, task_go, frames_go, hholds]
  omega

private theorem balances_launch {child : Child} (htask : t.task = .launch child)
    (h : s.token.permits.Balances (t.permits + rest)) :
    (t.advance plan chance caller s).shared.token.permits.Balances
      (Machine.weigh permits (t.advance plan chance caller s).threads + rest) := by
  rw [permits_of_task htask] at h
  unfold Permits.Balances at h ⊢
  simp only [advance, htask]
  split
  · simpa [Machine.weigh, Move.threads, permits] using h
  · simp [Machine.weigh, Move.threads, permits_thread] at h ⊢
    simp [permits]
    omega

/-- Every step keeps the permits that are held and those that are free in balance. -/
theorem balances_advance (htyped : t.Typed plan.config.strategy caller)
    (hunwind : ∀ message, t.task ≠ .unwind message)
    (h : s.token.permits.Balances (t.permits + rest)) :
    (t.advance plan chance caller s).shared.token.permits.Balances
      (Machine.weigh permits (t.advance plan chance caller s).threads + rest) := by
  cases htask : t.task with
  | giveBack searched => exact balances_giveBack htask h
  | unwind message => exact absurd htask (hunwind message)
  | enter pair =>
    obtain ⟨hweigh, hpermits⟩ := @weigh_enterPair plan t s pair
    simp only [advance, htask]
    rw [hweigh, hpermits]
    simpa [permits_of_task htask] using h
  | compare pair =>
    obtain ⟨hweigh, hpermits⟩ := @weigh_comparePair plan t s chance.interference pair
    simp only [advance, htask]
    rw [hweigh, hpermits]
    simpa [permits_of_task htask] using h
  | launch child => exact balances_launch htask h
  | retract child =>
    refine @balances_dropPermit plan chance caller t s rest (.unregister child) ?_ ?_ h
    · simp only [advance, htask]
    · simp [htask]
  | refund unstarted cause => exact balances_refund htask h
  | surrender drained =>
    refine @balances_dropPermit plan chance caller t s rest (.depart drained) ?_ ?_ h
    · simp only [advance, htask]
    · simp [htask]
  | ret outcome =>
    cases hframes : t.frames with
    | nil => simpa [advance, htask, hframes, Machine.weigh, Move.threads] using h
    | cons frame frames =>
      have hreturns := htyped.returns htask
      rw [hframes] at hreturns
      simp only [advance, htask, hframes]
      apply @balances_resume plan caller { t with frames } s rest frame outcome hreturns
      simpa [permits_of_task htask, hframes] using h
  | schedule =>
    rw [permits_of_task htask] at h
    simpa [advance, htask, Machine.weigh, Move.threads, permits_openingTask] using h
  | start worker total =>
    rw [permits_of_task htask] at h
    unfold Permits.Balances at h ⊢
    simp only [advance, htask]
    split
    · simp [Machine.weigh, Move.threads, permits] at h ⊢
      omega
    · simp [Machine.weigh, Move.threads, permits_afterStart] at h ⊢
      omega
  | inline pairs =>
    rw [permits_of_task htask] at h
    cases pairs <;> simpa [advance, htask, Machine.weigh, Move.threads, permits] using h
  | dismiss left unstarted cause =>
    rw [permits_of_task htask] at h
    cases left <;> simpa [advance, htask, Machine.weigh, Move.threads, permits] using h
  | offer first rest =>
    rw [permits_of_task htask] at h
    cases rest with
    | nil => simpa [advance, htask, Machine.weigh, Move.threads, permits] using h
    | cons pair rest =>
      simp only [advance, htask]
      split <;> simpa [Machine.weigh, Move.threads, permits] using h
  | joinAll searched =>
    rw [permits_of_task htask] at h
    simp only [advance, htask]
    rw [Token.permits_of_join Prod.mk.eta.symm]
    simpa [Machine.weigh, Move.threads, permits] using h
  -- Some steps take permits.
  | acquire => exact balances_acquire htask h
  | fork first others =>
    simp only [advance, htask]
    split
    · next htake =>
      have htaken := @balances_take t s rest (.branchOff first others) _ _ _ htake (by simp [htask]) h
      simpa [Machine.weigh, Move.threads] using htaken
    · rw [permits_of_task htask] at h
      simpa [Machine.weigh, Move.threads, permits] using h
  | recruit queued =>
    rcases htake : s.token.tryAcquire (min (s.token.permits.budget - 1) (queued - 1)) with
      ⟨workers, token⟩
    have htaken := @balances_take t s rest (.start 0 workers) _ _ _ htake (by simp [htask]) h
    simpa [advance, htask, htake, Machine.weigh, Move.threads] using htaken
  | assemble =>
    rcases htake : s.token.tryAcquire (plan.config.threads - 1) with ⟨workers, token⟩
    have htaken := @balances_take t s rest (.seed workers) _ _ _ htake (by simp [htask]) h
    simpa [advance, htask, htake, Machine.weigh, Move.threads] using htaken
  -- The others do not touch them.
  | _ =>
    rw [permits_of_task htask] at h
    unfold Permits.Balances at h ⊢
    simp only [advance, htask]
    repeat' split
    all_goals
      simp [Machine.weigh, Move.threads, permits, Token.finish, Token.register] at h ⊢
      omega

private theorem budget_resume (frame : Frame) (outcome : Outcome Unit) :
    (resume plan caller t s frame outcome).shared.token.permits.budget = s.token.permits.budget := by
  fun_cases resume plan caller t s frame outcome <;>
    simp [Token.budget_dropGuard, Token.finish]

/-- The budget stays as it is. -/
theorem budget_advance :
    (t.advance plan chance caller s).shared.token.permits.budget = s.token.permits.budget := by
  fun_cases advance plan chance caller t s
  all_goals try
    first
    | rfl
    | exact (Permits.eq_of_acquireInitial ‹_›).1
    | exact (Token.permits_of_release ‹_›).1
    | exact (Token.permits_of_tryAcquire ‹_›).1
    | exact congrArg Permits.budget (Token.permits_of_join ‹_›)
    | exact congrArg Permits.budget (weigh_enterPair _).2
    | exact congrArg Permits.budget (weigh_comparePair _ _).2
    | exact budget_resume _ _
    | simp [Token.budget_dropGuard]; done
  · rw [Shared.token_note]
  · rw [Shared.token_note]
    exact (Token.permits_of_tryAcquire ‹_›).1
  · dsimp only
    split <;> rfl

end Thread

namespace Machine

variable {plan : Plan} {m : Machine}

/-- The permits that the threads hold and the free ones make up the budget, unless the search has
ended with a panic. -/
theorem balances_of_reachable (h : Reachable plan m) :
    m.shared.token.permits.Balances (weigh Thread.permits m.threads) ∨
      ∃ message, m.outcome? = some (.error (.panicked message)) := by
  refine h.induction ?_ @fun m m' chance t hm htyped hmoved ih ↦ ?_
  · left
    show _ + plan.config.threads = plan.config.threads
    simp [threads, ofBudget, weigh, Thread.caller, Thread.permits]
  · rcases ih with ih | ⟨message, ho⟩
    · by_cases hunwind : ∃ message, t.task = .unwind message
      · obtain ⟨message, htask⟩ := hunwind
        refine .inr ⟨message, ?_⟩
        cases hmoved with
        | caller hready hmove =>
          obtain ⟨hframes, -⟩ := stands_main (htyped.caller.stands htask (by simp)).2
          simp only [Thread.advance, htask] at hmove
          cases hmove
          simp [outcome?, Thread.outcome?, hframes, Outcome.panic]
        | worker hworkers =>
          have ht := htyped.workers t (hworkers ▸ by simp)
          cases (stands_main (ht.stands htask (by simp)).2).2
      · obtain ⟨caller, others, hreplaced⟩ := hmoved.exists_replaced
        left
        rw [weigh_perm hreplaced.before, weigh] at ih
        rw [weigh_perm hreplaced.after, weigh_append, hreplaced.shared_eq]
        exact Thread.balances_advance (htyped.of_replaced hreplaced)
          (fun message htask ↦ hunwind ⟨message, htask⟩) ih
    · exact absurd hmoved (not_moved_of_outcome hm ho)

/-- The budget is that of the configuration throughout. -/
theorem budget_of_reachable (h : Reachable plan m) :
    m.shared.token.permits.budget = plan.config.threads := by
  refine h.induction rfl fun _ _ hmoved ih ↦ ?_
  obtain ⟨caller, others, hreplaced⟩ := hmoved.exists_replaced
  rw [hreplaced.shared_eq, Thread.budget_advance, ih]

/-- They do as long as a thread has a task. -/
theorem balances_of_task {t : Thread} (h : Reachable plan m) (ht : t ∈ m.threads)
    (htask : ∀ o, t.task ≠ .ret o) :
    m.shared.token.permits.Balances (weigh Thread.permits m.threads) := by
  rcases balances_of_reachable h with hbalances | ⟨message, ho⟩
  · exact hbalances
  · rw [threads, (alone_of_outcome h ho).1, List.mem_singleton] at ht
    rw [ht] at htask
    exact absurd (Thread.outcome?_eq_some ho).2 (htask _)

/-- The permits of workers that were never asked for can be given back. -/
theorem exists_refund {t : Thread} {unstarted : Nat} {cause : Failure} (h : Reachable plan m)
    (ht : t ∈ m.threads) (htask : t.task = .refund unstarted cause) :
    ∃ token, m.shared.token.release (unstarted - 1) = .ok token := by
  have hbalances := balances_of_task h ht (by simp [htask])
  apply Token.exists_release hbalances
  apply Nat.le_trans _ (le_weigh ht)
  rw [Thread.permits_of_task htask]
  exact Nat.le_add_right _ _

end Machine
end RayAdjacency
