import RayAdjacency.Proofs.Traversal.Registry

/-!
# Trouble

A failure or a panic travels down the stack of its thread, then through the registry to the calling
thread. On the whole way some thread or the registry knows of it: the search is *troubled*, and
stays so until it ends. The abort flag is only ever raised by a thread in trouble.
-/

namespace RayAdjacency

/-- Whether a task carries a failure or a panic. -/
@[simp] def Task.isTroubled : Task → Bool
  | giveBack o | joinAll o | finish o | hold o | surrender o | depart o | awaitCohort o | ret o =>
    !o.isOk
  | participate kept | heed _ kept | arrive kept | await _ kept | tripped kept => !kept.isOk
  | unwind _ | retract _ | unregister _ | dismiss .. | refund .. => true
  | _ => false

/-- Whether a frame carries a failure. -/
@[simp] def Frame.isTroubled : Frame → Bool
  | job kept => !kept.isOk
  | failWith _ => true
  | _ => false

/-- Whether a thread carries a failure or a panic. -/
def Thread.isTroubled (t : Thread) : Bool := t.task.isTroubled || t.frames.any Frame.isTroubled

/-- Whether the registry holds a failure. -/
def Shared.isTroubled (s : Shared) : Bool := s.token.children.failure.isSome

/-- Whether a thread or the registry has trouble after a step. -/
def Move.isTroubled (move : Move) : Bool :=
  move.thread.any Thread.isTroubled || move.shared.isTroubled

namespace Outcome

variable {ε : Type}

/-- A good outcome is good. -/
@[simp] theorem isOk_ok (u : Unit) : (Except.ok u : Except ε Unit).isOk = true := rfl

/-- An error is not good. -/
@[simp] theorem isOk_error (e : ε) : (Except.error e : Except ε Unit).isOk = false := rfl

/-- A failure is not good. -/
@[simp] theorem isOk_fail (failure : Failure) : (fail failure : Outcome Unit).isOk = false := rfl

/-- A panic is not good. -/
@[simp] theorem isOk_panic (message : String) : (panic message : Outcome Unit).isOk = false := rfl

/-- Two outcomes are good together just if both are. -/
@[simp] theorem isOk_and (first second : Outcome Unit) :
    (first.and second).isOk = (first.isOk && second.isOk) := by
  cases first <;> rfl

end Outcome

namespace Children

/-- Whoever records a failure has one. -/
theorem isSome_record (c : Children) (failure : Failure) :
    (c.record failure).failure.isSome = true := by
  rw [record]
  cases c.failure <;> rfl

/-- A registered failure stays when another child ends. -/
theorem isSome_finish {c : Children} {outcome : Except Failure Unit}
    (h : c.failure.isSome = true ∨ outcome.isOk = false) :
    (c.finish outcome).failure.isSome = true := by
  cases outcome with
  | ok _ => simpa [finish, Except.isOk, Except.toBool] using h
  | error failure => exact isSome_record _ failure

/-- A child settles well just if its outcome is good. -/
theorem isOk_settle (label : String) (outcome : Outcome Unit) :
    (settle label outcome).isOk = outcome.isOk := by
  rcases outcome with (_ | _) | _ <;> rfl

end Children

private theorem isSome_dropGuard {token : Token} {n : Nat}
    (h : token.children.failure.isSome = true) :
    (token.dropGuard n).1.children.failure.isSome = true := by
  rw [Token.dropGuard]
  split
  · exact h
  · split
    · next hrelease => rwa [Token.children_of_release hrelease]
    · exact Children.isSome_record _ _

namespace Thread

variable {plan : Plan} {chance : Chance} {caller : Bool} {t : Thread} {s : Shared}

private theorem of_shared {move : Move} (h : move.shared.isTroubled = true) :
    move.isTroubled = true := by
  rw [Move.isTroubled, h, Bool.or_true]

private theorem of_thread {move : Move} {t' : Thread} (ht' : move.thread = some t')
    (h : t'.isTroubled = true) : move.isTroubled = true := by
  rw [Move.isTroubled, ht', Option.any_some, h, Bool.true_or]

private theorem isSome_childrenAfter (h : s.isTroubled = true)
    (hjoin : ∀ searched, t.task ≠ .joinAll searched) :
    (t.childrenAfter s).failure.isSome = true := by
  unfold childrenAfter
  split
  · exact h
  · exact Children.isSome_finish (.inl h)
  · exact absurd ‹_› (hjoin _)
  · exact isSome_dropGuard h
  · exact isSome_dropGuard h
  · exact isSome_dropGuard h
  · exact Children.isSome_finish (.inl h)
  · exact h

/-- A failure in the registry stays there until the calling thread takes it. -/
theorem isTroubled_of_shared (h : s.isTroubled = true) :
    (t.advance plan chance caller s).isTroubled = true := by
  by_cases hjoin : ∃ searched, t.task = .joinAll searched
  · obtain ⟨searched, htask⟩ := hjoin
    obtain ⟨failure, hfailure⟩ := Option.isSome_iff_exists.mp h
    have hmove : (t.advance plan chance caller s).thread
        = some (t.done (searched.and (Outcome.fail failure))) := by
      simp only [advance, htask, Token.join, Children.join, hfailure]
      rfl
    apply of_thread hmove
    cases searched <;> rfl
  · apply of_shared
    rw [Shared.isTroubled, children_advance]
    exact isSome_childrenAfter h fun searched htask ↦ hjoin ⟨searched, htask⟩

@[simp] private theorem isOk_calm (kept : Except Failure Unit) : (calm kept).isOk = kept.isOk := by
  cases kept <;> rfl

@[simp] private theorem isOk_keep (label : String) (kept : Except Failure Unit)
    (outcome : Outcome Unit) : (keep label kept outcome).isOk = (kept.isOk && outcome.isOk) := by
  cases kept with
  | ok _ => exact Children.isOk_settle label outcome
  | error failure => rfl

private theorem isTroubled_enterPair (pair : NodePair) (h : t.frames.any Frame.isTroubled = true) :
    (enterPair plan t s pair).isTroubled = true := by
  rcases enterPair_eq plan t s pair with ⟨-, hmove⟩ | ⟨-, task, -, hmove⟩ <;> rw [hmove]
  all_goals
    apply of_thread rfl
    simp [isTroubled, h]

private theorem isTroubled_comparePair (env : Interference) (pair : NodePair)
    (h : t.frames.any Frame.isTroubled = true) :
    (comparePair plan env t s pair).isTroubled = true := by
  fun_cases comparePair plan env t s pair
  all_goals
    apply of_thread rfl
    simp [isTroubled, h]

private theorem isTroubled_afterStart (strategy : Strategy)
    (h : t.frames.any Frame.isTroubled = true) : (afterStart strategy t).isTroubled = true := by
  fun_cases afterStart strategy t <;> simp [isTroubled, h]

private theorem isTroubled_afterRefund (strategy : Strategy) (cause : Failure) :
    (afterRefund strategy t cause).isTroubled = true := by
  fun_cases afterRefund strategy t cause <;>
    simp [isTroubled]

private theorem isTroubled_resume {frame : Frame} {outcome : Outcome Unit}
    (h : outcome.isOk = false ∨ frame.isTroubled = true ∨ t.frames.any Frame.isTroubled = true)
    (hchild : frame = .child → t.frames = []) :
    (resume plan caller t s frame outcome).isTroubled = true := by
  fun_cases resume plan caller t s frame outcome
  all_goals try
    apply of_thread rfl
    simp_all [isTroubled, Task.isTroubled, Frame.isTroubled, refuseWorker]
  apply of_shared
  apply Children.isSome_finish
  rw [Children.isOk_settle]
  right
  simpa [hchild rfl] using h

/-- The trouble of a thread stays with it or comes to the registry. -/
theorem isTroubled_of_thread (htyped : t.Typed plan.config.strategy caller)
    (h : t.isTroubled = true) : (t.advance plan chance caller s).isTroubled = true := by
  rw [isTroubled, Bool.or_eq_true] at h
  fun_cases advance plan chance caller t s
  all_goals try
    apply of_thread rfl
    simp_all [isTroubled, Task.isTroubled, Frame.isTroubled]; done
  all_goals rw [‹t.task = _›] at h
  · apply of_thread rfl
    simp [isTroubled] at h ⊢
    rcases h with h | h <;> simp [h]
  · exact isTroubled_enterPair _ (h.resolve_left Bool.false_ne_true)
  · exact isTroubled_comparePair _ _ (h.resolve_left Bool.false_ne_true)
  · exact of_thread rfl (isTroubled_afterStart _ (h.resolve_left Bool.false_ne_true))
  · exact of_thread rfl (isTroubled_afterRefund _ _)
  · next outcome frame frames hframes =>
    have hreturns := htyped.returns ‹t.task = _›
    rw [hframes] at h hreturns
    apply isTroubled_resume
    · simpa using h
    · rintro rfl
      exact (stands_gone hreturns.2.2).1

private theorem aborted_resume {frame : Frame} {outcome : Outcome Unit}
    (h : (resume plan caller t s frame outcome).shared.aborted = true) :
    s.aborted = true ∨ (resume plan caller t s frame outcome).isTroubled = true := by
  revert h
  fun_cases resume plan caller t s frame outcome
  all_goals
    intro h
    first
    | exact .inl h
    | left; simpa using h
    | right; apply of_thread rfl; simp [isTroubled]

private theorem aborted_enterPair (pair : NodePair) :
    (enterPair plan t s pair).shared.aborted = s.aborted := by
  rcases enterPair_eq plan t s pair with ⟨-, hmove⟩ | ⟨-, task, -, hmove⟩ <;> rw [hmove]

private theorem aborted_comparePair (env : Interference) (pair : NodePair) :
    (comparePair plan env t s pair).shared.aborted = s.aborted := by
  fun_cases comparePair plan env t s pair <;> rfl

/-- A thread that raises the abort flag is in trouble. -/
theorem aborted_advance (h : (t.advance plan chance caller s).shared.aborted = true) :
    s.aborted = true ∨ (t.advance plan chance caller s).isTroubled = true := by
  revert h
  fun_cases advance plan chance caller t s
  all_goals try
    intro h
    first
    | exact .inl h
    | left; simpa using h
    | right; apply of_thread rfl; simp [isTroubled]; done
  · exact fun h ↦ .inl (aborted_enterPair _ ▸ h)
  · exact fun h ↦ .inl (aborted_comparePair _ _ ▸ h)
  · dsimp only
    split <;> exact .inl
  · exact aborted_resume

private theorem aborted_resume_of_aborted {frame : Frame} {outcome : Outcome Unit}
    (h : s.aborted = true) : (resume plan caller t s frame outcome).shared.aborted = true := by
  fun_cases resume plan caller t s frame outcome <;> simp [h]

/-- The abort flag stays up. -/
theorem aborted_of_aborted (h : s.aborted = true) :
    (t.advance plan chance caller s).shared.aborted = true := by
  fun_cases advance plan chance caller t s
  all_goals try
    first
    | exact h
    | exact (Shared.aborted_note _ _ _).trans h
    | simp [h]; done
  · rw [aborted_enterPair, h]
  · rw [aborted_comparePair, h]
  · dsimp only
    split <;> exact h
  · exact aborted_resume_of_aborted h

end Thread

namespace Machine

variable {plan : Plan} {chance : Chance} {m m' : Machine}

/-- A machine in which a thread or the registry knows of a failure or a panic. -/
def Troubled (m : Machine) : Prop :=
  (∃ t ∈ m.threads, t.isTroubled = true) ∨ m.shared.isTroubled = true

/-- A step into trouble leaves a machine in trouble. -/
theorem troubled_of_replaced {caller : Bool} {t : Thread} {others : List Thread}
    (hreplaced : Replaced plan chance m m' caller t others)
    (h : (t.advance plan chance caller m.shared).isTroubled = true) : Troubled m' := by
  rw [Move.isTroubled, Bool.or_eq_true] at h
  rcases h with h | h
  · obtain ⟨u, hu, htroubled⟩ := (Option.any_eq_true _ _).mp h
    refine .inl ⟨u, hreplaced.after.mem_iff.mpr ?_, htroubled⟩
    simp [Move.threads, hu]
  · exact .inr (hreplaced.shared_eq ▸ h)

/-- Trouble stays until the search has ended. -/
theorem Troubled.step (h : Troubled m) (htyped : Typed plan m) {t : Thread}
    (hmoved : Moved plan chance m t m') :
    Troubled m' := by
  obtain ⟨caller, others, hreplaced⟩ := hmoved.exists_replaced
  rcases h with ⟨u, hu, htroubled⟩ | h
  · rcases List.mem_cons.mp (hreplaced.before.mem_iff.mp hu) with rfl | hu
    · exact troubled_of_replaced hreplaced
        (Thread.isTroubled_of_thread (htyped.of_replaced hreplaced) htroubled)
    · refine .inl ⟨u, hreplaced.after.mem_iff.mpr ?_, htroubled⟩
      exact List.mem_append_right _ hu
  · exact troubled_of_replaced hreplaced (Thread.isTroubled_of_shared h)

/-- A run takes no trouble away. -/
theorem Troubled.leads (h : Troubled m) (hm : Reachable plan m) (hleads : Leads plan m m') :
    Troubled m' := by
  induction hleads with
  | refl => exact h
  | step hleads hstep ih =>
    have htyped := typed_of_reachable (hm.trans hleads)
    obtain ⟨t, -, hmoved⟩ := htyped.moved hstep
    exact ih.step htyped hmoved

/-- The abort flag is raised in trouble alone. -/
theorem troubled_of_aborted (hm : Reachable plan m) (h : m.shared.aborted = true) : Troubled m := by
  revert h
  refine Reachable.induction hm ?_ fun _ htyped hmoved ih h ↦ ?_
  · exact fun h ↦ by cases h
  · obtain ⟨caller, others, hreplaced⟩ := hmoved.exists_replaced
    rw [hreplaced.shared_eq] at h
    rcases Thread.aborted_advance h with h | h
    · exact (ih h).step htyped hmoved
    · exact troubled_of_replaced hreplaced h

/-- Where a step does not lead to trouble, there has been none. -/
theorem calm_of_moved {caller : Bool} {t : Thread} {others : List Thread} (hm : Reachable plan m)
    (htyped : Typed plan m) (hmoved : Moved plan chance m t m')
    (hreplaced : Replaced plan chance m m' caller t others) (h : ¬Troubled m') :
    ¬Troubled m ∧ m.shared.aborted = false ∧ t.isTroubled = false ∧
      (t.advance plan chance caller m.shared).isTroubled = false := by
  have hbefore : ¬Troubled m := fun htroubled ↦ h (htroubled.step htyped hmoved)
  simp only [← Bool.not_eq_true]
  refine ⟨hbefore, fun haborted ↦ ?_, fun htroubled ↦ ?_, fun htroubled ↦ ?_⟩
  · exact hbefore (troubled_of_aborted hm haborted)
  · exact hbefore (.inl ⟨t, hreplaced.before.mem_iff.mpr (.head _), htroubled⟩)
  · exact h (troubled_of_replaced hreplaced htroubled)

end Machine
end RayAdjacency
