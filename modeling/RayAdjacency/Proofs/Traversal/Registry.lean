import RayAdjacency.Proofs.Traversal.Stack

/-!
# The registry of a search

Few steps touch the registry of child threads; `Thread.childrenAfter` says which, and how. A child
is registered before it starts and leaves the registry in its last step, so the registry counts the
workers and those threads that are being asked for.
-/

namespace RayAdjacency

namespace Token

variable {t t' : Token} {n taken : Nat}

/-- Giving permits back leaves the registry of children alone. -/
theorem children_of_release (h : t.release n = .ok t') : t'.children = t.children := by
  rw [release] at h
  cases hpermits : t.permits.release n with
  | error failure =>
    rw [hpermits] at h
    cases h
  | ok permits =>
    rw [hpermits] at h
    cases h
    rfl

/-- Taking permits leaves the registry of children alone. -/
theorem children_of_tryAcquire (h : t.tryAcquire n = (taken, t')) : t'.children = t.children := by
  rw [tryAcquire] at h
  cases h
  rfl

/-- Joining the children changes the registry as the registry has it. -/
theorem children_of_join {joined : Except Failure Unit} (h : t.join = (joined, t')) :
    t'.children = t.children.join.2 := by
  rw [join] at h
  cases h
  rfl

end Token

namespace Thread

/-- The registry after the next step of a thread. -/
def childrenAfter (t : Thread) (s : Shared) : Children :=
  match t.task, t.frames with
  | .register _, _ => s.token.children.register
  | .unregister _, _ => s.token.children.finish (.ok ())
  | .joinAll _, _ => s.token.children.join.2
  | .retract _, _ | .surrender _, _ | .ret _, .permit :: _ => (s.token.dropGuard 1).1.children
  | .ret outcome, .child :: _ => s.token.children.finish (Children.settle t.label outcome)
  | _, _ => s.token.children

variable {plan : Plan} {chance : Chance} {caller : Bool} {t : Thread} {s : Shared}

private theorem children_enterPair (pair : NodePair) :
    (enterPair plan t s pair).shared.token.children = s.token.children := by
  fun_cases enterPair plan t s pair <;> rfl

private theorem children_comparePair (env : Interference) (pair : NodePair) :
    (comparePair plan env t s pair).shared.token.children = s.token.children := by
  fun_cases comparePair plan env t s pair <;> rfl

private theorem children_resume (frame : Frame) (outcome : Outcome Unit) :
    (resume plan caller t s frame outcome).shared.token.children =
      match frame with
      | .permit => (s.token.dropGuard 1).1.children
      | .child => s.token.children.finish (Children.settle t.label outcome)
      | _ => s.token.children := by
  fun_cases resume plan caller t s frame outcome
  all_goals first | rfl | simp

/-- What a step does to the registry. -/
theorem children_advance :
    (t.advance plan chance caller s).shared.token.children = t.childrenAfter s := by
  fun_cases advance plan chance caller t s
  all_goals rw [childrenAfter, ‹t.task = _›]
  all_goals try
    first
    | rfl
    | exact Token.children_of_release ‹_›
    | exact Token.children_of_tryAcquire ‹_›
    | exact Token.children_of_join ‹_›
    | simp; done
  · exact children_enterPair _
  · exact children_comparePair _ _
  · exact congrArg Token.children (Shared.token_note _ caller _)
  · rw [Shared.token_note]
    exact Token.children_of_tryAcquire ‹_›
  · dsimp only
    split <;> rfl
  · next frame frames hframes =>
    rw [children_resume, hframes]
    cases frame <;> rfl
  · rw [‹t.frames = _›]

/-- A thread, and the child that it has registered and not started. -/
def heads (t : Thread) : Nat :=
  match t.task with
  | .launch _ | .retract _ | .unregister _ => 2
  | _ => 1

private theorem active_dropGuard (token : Token) (n : Nat) :
    (token.dropGuard n).1.children.active = token.children.active := by
  rw [Token.dropGuard]
  split
  · rfl
  · split
    · next h => rw [Token.children_of_release h]
    · rfl

private theorem active_finish (c : Children) (outcome : Except Failure Unit) :
    (c.finish outcome).active = c.active - 1 := by
  cases outcome <;> rfl

private theorem active_join (c : Children) : c.join.2.active = c.active := by
  rw [Children.join]
  split <;> rfl

private theorem heads_openingTask : (t.go (openingTask plan)).heads = 1 := by
  fun_cases openingTask plan <;> rfl

private theorem heads_afterStart (strategy : Strategy) : (afterStart strategy t).heads = 1 := by
  fun_cases afterStart strategy t <;> rfl

private theorem heads_afterRefund (strategy : Strategy) (cause : Failure) :
    (afterRefund strategy t cause).heads = 1 := by
  fun_cases afterRefund strategy t cause <;> rfl

private theorem heads_thread (child : Child) : child.thread.heads = 1 := by
  fun_cases Child.thread child <;> rfl

private theorem heads_enterPair (pair : NodePair) :
    Machine.weigh heads (enterPair plan t s pair).threads = 1 := by
  rcases enterPair_eq plan t s pair with ⟨-, hmove⟩ | ⟨-, task, hfollows, hmove⟩ <;> rw [hmove]
  · rfl
  · cases hfollows <;> rfl

private theorem heads_comparePair (env : Interference) (pair : NodePair) :
    Machine.weigh heads (comparePair plan env t s pair).threads = 1 := by
  fun_cases comparePair plan env t s pair <;> rfl

private theorem heads_resume (frame : Frame) (outcome : Outcome Unit) :
    Machine.weigh heads (resume plan caller t s frame outcome).threads =
      if frame.place = .gone then 0 else 1 := by
  fun_cases resume plan caller t s frame outcome <;> rfl

/-- A step changes the number of active children by as much as the number of threads. -/
theorem heads_advance {rest : Nat} (htyped : t.Typed plan.config.strategy caller)
    (hrest : caller = false → 1 ≤ rest) (h : t.heads + rest = s.token.children.active + 1) :
    Machine.weigh heads (t.advance plan chance caller s).threads + rest =
      (t.childrenAfter s).active + 1 := by
  rw [childrenAfter]
  rw [heads] at h
  fun_cases advance plan chance caller t s
  all_goals rw [‹t.task = _›] at h ⊢
  all_goals try
    simp [heads, Machine.weigh, Move.threads, Children.register, active_dropGuard, active_join,
      active_finish] at h ⊢
    omega
  · simpa [Machine.weigh, Move.threads, heads_openingTask] using h
  · simpa [heads_enterPair] using h
  · simpa [heads_comparePair] using h
  · simp [Machine.weigh, Move.threads, heads_thread] at h ⊢
    simp [heads]
    omega
  · simpa [Machine.weigh, Move.threads, heads_afterStart] using h
  · simpa [Machine.weigh, Move.threads, heads_afterRefund] using h
  · next outcome frame frames hframes =>
    have hreturns := htyped.returns ‹t.task = _›
    rw [hframes] at hreturns ⊢
    rw [heads_resume]
    simp at h
    cases frame <;> simp [Frame.place, active_dropGuard, active_finish, h]
    have := hrest (stands_gone hreturns.2.2).2
    omega
  · rw [‹t.frames = _›]
    simpa [Machine.weigh, Move.threads, heads, ‹t.task = _›] using h

/-- Every thread has a head. -/
theorem one_le_heads (t : Thread) : 1 ≤ t.heads := by
  rw [heads]
  split <;> omega

end Thread

namespace Machine

variable {plan : Plan} {m m' : Machine}

/-- Threads have at least as many heads as there are threads. -/
theorem length_le_heads (ts : List Thread) : ts.length ≤ weigh Thread.heads ts := by
  induction ts with
  | nil => exact Nat.le_refl 0
  | cons t ts ih =>
    have := t.one_le_heads
    rw [weigh, List.length_cons]
    omega

/-- The registry counts the workers and the threads that are being asked for. -/
theorem heads_threads (h : Reachable plan m) :
    weigh Thread.heads m.threads = m.shared.token.children.active + 1 := by
  refine h.induction rfl fun _ htyped hmoved ih ↦ ?_
  obtain ⟨caller, others, hreplaced⟩ := hmoved.exists_replaced
  rw [weigh_perm hreplaced.before, weigh] at ih
  rw [weigh_perm hreplaced.after, weigh_append, hreplaced.shared_eq, Thread.children_advance]
  refine Thread.heads_advance (htyped.of_replaced hreplaced) (fun hcaller ↦ ?_) ih
  have hlength := length_le_heads others
  have hothers := List.length_pos_of_ne_nil (hreplaced.others_ne hcaller)
  omega

/-- Once no child is active, the calling thread is alone. -/
theorem workers_of_active_eq_zero (h : Reachable plan m)
    (hactive : m.shared.token.children.active = 0) : m.workers = [] := by
  have hheads := heads_threads h
  have hlength := length_le_heads m.threads
  rw [hheads, hactive, threads, List.length_cons] at hlength
  exact List.eq_nil_of_length_eq_zero (by omega)

end Machine
end RayAdjacency
