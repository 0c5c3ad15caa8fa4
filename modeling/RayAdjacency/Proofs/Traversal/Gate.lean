import RayAdjacency.Proofs.Traversal.Jobs

/-!
# The gate during a search

Whoever enters a node pair leaves it once: a frame of the thread remembers the pair, and a failure
or a panic that takes the frame away leaves the pair as well. So at every moment, under any schedule
and whatever fails, the pairs that have asked for admission are those that were turned away, those
that have been left, and those that a thread is still to leave.
-/

namespace RayAdjacency

/-- Whether a counter counts what happens at the gate. -/
def Counter.isOfGate : Counter → Bool
  | .enterCalls | .pruned | .leaves => true
  | _ => false

/-- No comparison counts what happens at the gate. -/
theorem Counter.isOfLeaves_of_isOfGate {c : Counter} (h : c.isOfGate = true) :
    c.isOfLeaves = false := by
  cases c <;> first | rfl | cases h

/-- The pairs in `entered` have been admitted and are still to be left; all others that have asked
for admission have been turned away or left. -/
structure Gated (r : Root) (entered : List NodePair) (t : Tally) : Prop where
  admits : ∀ p ∈ entered, r.admits p = true
  balance : t.get .enterCalls = t.get .pruned + t.get .leaves + entered.length

namespace Gated

variable {r : Root} {entered entered' : List NodePair} {t t' : Tally} {p : NodePair}

/-- In which order the entered pairs are listed does not matter to the gate. -/
theorem perm (h : Gated r entered t) (hperm : entered.Perm entered') : Gated r entered' t where
  admits q hq := h.admits q (hperm.mem_iff.mpr hq)
  balance := hperm.length_eq ▸ h.balance

/-- Only the counters of the gate matter. -/
theorem congr (h : Gated r entered t) (hkept : ∀ c : Counter, c.isOfGate = true →
    t'.get c = t.get c) : Gated r entered t' where
  admits := h.admits
  balance := by
    rw [hkept .enterCalls rfl, hkept .pruned rfl, hkept .leaves rfl]
    exact h.balance

/-- Other counters than its own do not matter to the gate. -/
theorem add (h : Gated r entered t) {c : Counter} {n : Nat} (hc : c.isOfGate = false) :
    Gated r entered (t.add c n) := by
  refine h.congr fun d hd ↦ ?_
  rw [Tally.get_add, if_neg, Nat.add_zero]
  rintro rfl
  rw [hc] at hd
  cases hd

/-- A pair that is turned away changes nothing. -/
theorem turnAway (h : Gated r entered t) (hadmits : r.admits p = false) :
    Gated r entered (r.enter p t).2 where
  admits := h.admits
  balance := by
    have := h.balance
    simp only [Root.enter, hadmits, Bool.false_eq_true, if_false, Tally.bump, Tally.get_add,
      reduceCtorEq, if_true]
    omega

/-- A pair that is admitted is to be left. -/
theorem enter (h : Gated r entered t) (hadmits : r.admits p = true) :
    Gated r (p :: entered) (r.enter p t).2 where
  admits := List.forall_mem_cons.mpr ⟨hadmits, h.admits⟩
  balance := by
    have := h.balance
    simp only [Root.enter, hadmits, if_true, Tally.bump, Tally.get_add, reduceCtorEq, if_false,
      List.length_cons]
    omega

/-- A pair that was admitted can be left. -/
theorem leave (h : Gated r (p :: entered) t) :
    ∃ t', r.leave p t = .ok t' ∧ Gated r entered t' := by
  obtain ⟨hadmits, hentered⟩ := List.forall_mem_cons.mp h.admits
  refine ⟨t.bump .leaves, if_pos hadmits, hentered, ?_⟩
  have := h.balance
  simp only [Tally.bump, Tally.get_add, reduceCtorEq, if_false, if_true, List.length_cons] at this ⊢
  omega

private theorem expandPair (h : Gated r entered t) {ps : List NodePair} {divided : Bool}
    (hexpand : r.expandPair p t = .ok (ps, divided, t')) : Gated r entered t' := by
  rw [Root.expandPair] at hexpand
  split at hexpand
  · have henter : r.enter p t = (r.admits p, (r.enter p t).2) := Prod.ext (r.enter_fst p t) rfl
    rw [henter] at hexpand
    cases hadmits : r.admits p with
    | false =>
      rw [hadmits] at hexpand
      cases hexpand
      exact h.turnAway hadmits
    | true =>
      obtain ⟨t₁, hleave, hgated⟩ := (h.enter hadmits).leave
      simp only [hadmits, hleave, Outcome.ok_bind] at hexpand
      cases hexpand
      exact hgated
  · cases hexpand
    exact h

private theorem expandLevel {ps qs : List NodePair} {divided : Bool} (h : Gated r entered t)
    (hexpand : r.expandLevel ps t = .ok (qs, divided, t')) : Gated r entered t' := by
  induction ps generalizing t t' qs divided with
  | nil =>
    cases hexpand
    exact h
  | cons p ps ih =>
    rw [Root.expandLevel] at hexpand
    cases hpair : r.expandPair p t with
    | error stop =>
      rw [hpair] at hexpand
      cases hexpand
    | ok expanded =>
      obtain ⟨here, more, t₁⟩ := expanded
      rw [hpair, Outcome.ok_bind] at hexpand
      cases hlevel : r.expandLevel ps t₁ with
      | error stop =>
        simp only [hlevel] at hexpand
        cases hexpand
      | ok others =>
        simp only [hlevel, Outcome.ok_bind] at hexpand
        cases hexpand
        exact ih (h.expandPair hpair) hlevel

/-- What is expanded into a queue is left at once. -/
theorem expandLevels {levels : Nat} {ps qs : List NodePair} (h : Gated r entered t)
    (hexpand : r.expandLevels levels ps t = .ok (qs, t')) : Gated r entered t' := by
  induction levels generalizing ps t with
  | zero =>
    cases hexpand
    exact h
  | succ levels ih =>
    rw [Root.expandLevels] at hexpand
    cases hlevel : r.expandLevel ps t with
    | error stop =>
      rw [hlevel] at hexpand
      cases hexpand
    | ok expanded =>
      obtain ⟨next, divided, t₁⟩ := expanded
      rw [hlevel, Outcome.ok_bind] at hexpand
      have hgated := h.expandLevel hlevel
      dsimp only at hexpand
      split at hexpand
      · exact ih hgated hexpand
      · cases hexpand
        exact hgated

end Gated

/-- The pair that a frame is to leave. -/
@[simp] def Frame.entered : Frame → List NodePair
  | leave pair => [pair]
  | _ => []

/-- The pairs that a thread is to leave. -/
def Thread.entered (t : Thread) : List NodePair := t.frames.flatMap Frame.entered

namespace Thread

variable {plan : Plan} {chance : Chance} {caller : Bool} {t : Thread} {s : Shared}
  {others : List NodePair}

/-- A new task does not change which pairs have been entered. -/
@[simp] theorem entered_go (task : Task) : (t.go task).entered = t.entered := rfl

/-- The end of a task does not change which pairs have been entered. -/
@[simp] theorem entered_done (o : Outcome Unit) : (t.done o).entered = t.entered := rfl

/-- A new frame is the last pair entered, if it leaves one. -/
@[simp] theorem entered_call (frame : Frame) (task : Task) :
    (t.call frame task).entered = frame.entered ++ t.entered := rfl

private theorem entered_thread (child : Child) : child.thread.entered = [] := by
  fun_cases Child.thread child <;> rfl

private theorem entered_afterStart (strategy : Strategy) :
    (afterStart strategy t).entered = t.entered := by
  rcases afterStart_eq strategy t with ⟨-, hafter⟩ | ⟨-, hafter⟩ <;> rw [hafter] <;> rfl

private theorem entered_afterRefund (strategy : Strategy) (cause : Failure) :
    (afterRefund strategy t cause).entered = t.entered := by
  rcases afterRefund_eq strategy t cause with ⟨-, hafter⟩ | ⟨-, hafter⟩ <;> rw [hafter] <;> rfl

private theorem gated_enterPair (pair : NodePair)
    (h : Gated plan.site.root (t.entered ++ others) s.token.tally) :
    Gated plan.site.root ((enterPair plan t s pair).threads.flatMap entered ++ others)
      (enterPair plan t s pair).shared.token.tally := by
  rcases enterPair_eq plan t s pair with ⟨hadmits, hmove⟩ | ⟨hadmits, task, -, hmove⟩ <;> rw [hmove]
  · simpa [Move.threads] using h.turnAway hadmits
  · simpa [Move.threads] using h.enter hadmits

private theorem gated_comparePair (env : Interference) (pair : NodePair)
    (h : Gated plan.site.root (t.entered ++ others) s.token.tally) :
    Gated plan.site.root ((comparePair plan env t s pair).threads.flatMap entered ++ others)
      (comparePair plan env t s pair).shared.token.tally := by
  have hentered : (comparePair plan env t s pair).threads.flatMap entered = t.entered := by
    fun_cases comparePair plan env t s pair <;> simp [Move.threads]
  rw [hentered]
  exact h.congr fun c hc ↦ get_comparePair env pair (Counter.isOfLeaves_of_isOfGate hc)

private theorem gated_resume {frame : Frame} {outcome : Outcome Unit}
    (hchild : frame = .child → t.frames = [])
    (h : Gated plan.site.root (frame.entered ++ t.entered ++ others) s.token.tally) :
    Gated plan.site.root ((resume plan caller t s frame outcome).threads.flatMap entered ++ others)
      (resume plan caller t s frame outcome).shared.token.tally := by
  fun_cases resume plan caller t s frame outcome
  all_goals try
    simpa [Move.threads] using h
  · next pair tally hleave =>
    obtain ⟨tally', hleave', hgated⟩ := Gated.leave h
    obtain rfl : tally' = tally := by simpa using hleave'.symm.trans hleave
    simpa [Move.threads] using hgated
  · next pair stop hleave =>
    obtain ⟨tally', hleave', -⟩ := Gated.leave h
    rw [hleave] at hleave'
    cases hleave'
  · have hentered : t.entered = [] := by rw [entered, hchild rfl, List.flatMap_nil]
    rw [hentered] at h
    exact h

private theorem gated_expand (htask : t.task = .expand)
    (h : Gated plan.site.root (t.entered ++ others) s.token.tally) :
    Gated plan.site.root ((t.advance plan chance caller s).threads.flatMap entered ++ others)
      (t.advance plan chance caller s).shared.token.tally := by
  simp only [advance, htask]
  split
  · simpa [Move.threads] using h
  · next frontier tally hlevels =>
    have hgated := @Gated.add _ _ _ (h.expandLevels hlevels) .jobsQueued frontier.length rfl
    have hentered : [t.go (.recruit frontier.length)].flatMap entered = t.entered := by simp
    rw [← hentered] at hgated
    exact hgated

private theorem gated_ret {outcome : Outcome Unit} (htyped : t.Typed plan.config.strategy caller)
    (htask : t.task = .ret outcome)
    (h : Gated plan.site.root (t.entered ++ others) s.token.tally) :
    Gated plan.site.root ((t.advance plan chance caller s).threads.flatMap entered ++ others)
      (t.advance plan chance caller s).shared.token.tally := by
  cases hframes : t.frames with
  | nil => simpa [advance, htask, hframes, Move.threads] using h
  | cons frame frames =>
    have hreturns := htyped.returns htask
    simp only [advance, htask, hframes] at hreturns ⊢
    refine gated_resume ?_ ?_
    · rintro rfl
      exact (stands_gone hreturns.2.2).1
    · rw [entered, hframes] at h
      exact h

/-- A step enters and leaves as the gate says. -/
theorem gated_advance (htyped : t.Typed plan.config.strategy caller)
    (h : Gated plan.site.root (t.entered ++ others) s.token.tally) :
    Gated plan.site.root ((t.advance plan chance caller s).threads.flatMap entered ++ others)
      (t.advance plan chance caller s).shared.token.tally := by
  have hkept {entered' : List NodePair} {tally' : Tally} (hentered : entered' = t.entered)
      (htally : tally' = s.token.tally) : Gated plan.site.root (entered' ++ others) tally' := by
    rw [hentered, htally]
    exact h
  have hcounted (c : Counter) {n : Nat} (hc : c.isOfGate = false) {entered' : List NodePair}
      {tally' : Tally} (hentered : entered' = t.entered) (htally : tally' = s.token.tally.add c n) :
      Gated plan.site.root (entered' ++ others) tally' := by
    rw [hentered, htally]
    exact h.add hc
  cases htask : t.task with
  | enter pair =>
    simp only [advance, htask]
    exact gated_enterPair pair h
  | compare pair =>
    simp only [advance, htask]
    exact gated_comparePair chance.interference pair h
  | expand => exact gated_expand htask h
  | ret outcome => exact gated_ret htyped htask h
  -- Some steps are counted.
  | emit pairs =>
    simp only [advance, htask]
    exact hcounted .pairsEmitted rfl (by simp [Move.threads]) rfl
  | register child =>
    simp only [advance, htask]
    exact hcounted .threadsSpawned rfl (by simp [Move.threads]) rfl
  | take =>
    simp only [advance, htask]
    split
    · exact hkept (by simp [Move.threads]) rfl
    · exact hcounted .jobsRun rfl (by simp [Move.threads]) rfl
  | seed workers =>
    simp only [advance, htask]
    exact hcounted .jobsQueued rfl (by simp [Move.threads]) rfl
  | offer first others =>
    cases others with
    | nil =>
      simp only [advance, htask]
      exact hkept (by simp [Move.threads]) rfl
    | cons pair others =>
      simp only [advance, htask]
      split
      · exact hcounted .jobsQueued rfl (by simp [Move.threads]) rfl
      · exact hkept (by simp [Move.threads]) rfl
  | announce =>
    simp only [advance, htask]
    split
    · exact hcounted .barrierBreaks rfl (by simp [Move.threads]) rfl
    · exact hkept (by simp [Move.threads]) rfl
  | heed pair kept =>
    simp only [advance, htask]
    split
    · exact hkept (by simp [Move.threads]) rfl
    · exact hcounted .jobsRun rfl (by simp [Move.threads]) rfl
  -- The others count nothing.
  | inline pairs =>
    cases pairs <;> simp only [advance, htask] <;> exact hkept (by simp [Move.threads]) rfl
  | dismiss left unstarted cause =>
    cases left <;> simp only [advance, htask]
    · exact hkept (by simp [Move.threads]) rfl
    · exact hkept (by simp [Move.threads]) (by rw [token_signOff])
  | recruit queued =>
    simp only [advance, htask]
    refine hkept (by simp [Move.threads]) ?_
    rw [Shared.token_note]
    rfl
  | _ =>
    simp only [advance, htask]
    repeat' split
    all_goals
      refine hkept ?_ ?_
      · simp [Move.threads, entered_thread, entered_afterStart, entered_afterRefund]
      · first
        | rfl
        | exact Token.tally_of_release ‹_›
        | exact Token.tally_of_tryAcquire ‹_›
        | simp

end Thread

namespace Machine

variable {plan : Plan} {m : Machine}

/-- At every moment of a search, whatever fails, the pairs that have asked for admission are those
turned away, those left, and those that a thread is still to leave. -/
theorem gated_of_reachable (h : Reachable plan m) :
    Gated plan.site.root (m.threads.flatMap Thread.entered) m.shared.token.tally := by
  refine Reachable.induction h ?_ fun {m m' chance t} _ htyped hmoved ih ↦ ?_
  · exact ⟨by simp [threads, ofBudget, Thread.caller, Thread.entered], rfl⟩
  · obtain ⟨caller, others, hreplaced⟩ := hmoved.exists_replaced
    have hbefore := ih.perm (hreplaced.before.flatMap_right _)
    have hafter := @Thread.gated_advance plan chance caller t m.shared _
      (htyped.of_replaced hreplaced) hbefore
    rw [hreplaced.shared_eq]
    refine hafter.perm ?_
    rw [← List.flatMap_def, ← List.flatMap_append]
    exact (hreplaced.after.flatMap_right _).symm

/-- However a search has ended, each pair that was admitted has been left. -/
theorem entered_of_outcome (h : Reachable plan m) {o : Outcome Unit} (ho : m.outcome? = some o) :
    m.shared.token.tally.get .enterCalls =
      m.shared.token.tally.get .pruned + m.shared.token.tally.get .leaves := by
  obtain ⟨hworkers, -⟩ := alone_of_outcome h ho
  obtain ⟨hframes, -⟩ := Thread.outcome?_eq_some ho
  have hgated := (gated_of_reachable h).balance
  simpa [threads, hworkers, Thread.entered, hframes] using hgated

end Machine
end RayAdjacency
