import RayAdjacency.Proofs.Traversal.Queue
import RayAdjacency.Proofs.Traversal.Trouble

/-!
# The beginning and the end of a search

At the beginning the calling thread is alone and nothing is queued. From then on some thread *tends*
the queue: it takes jobs, or will do so later, unless the search is in trouble. So when a search
has ended well, no thread is left but the calling one, and no job is left in the queue.
-/

namespace RayAdjacency

/-- Whether a task stands at the beginning of a search. -/
def Task.opens : Task → Bool
  | acquire | schedule | expand | assemble | seed _ => true
  | _ => false

/-- Whether the thread of a task looks at the queue before it is done. -/
def Task.tends : Task → Bool
  | recruit _ | start .. | dismiss .. | refund .. | drain | take | participate _ | heed .. | arrive _
  | await .. | tripped _ => true
  | _ => false

/-- Whether a frame leads back to the queue. -/
def Frame.tends : Frame → Bool
  | drained | started .. | opened _ | job _ => true
  | _ => false

/-- Whether a thread looks at the queue before it is done. -/
def Thread.tends (t : Thread) : Bool := t.task.tends || t.frames.any Frame.tends

namespace Thread

variable {plan : Plan} {chance : Chance} {caller : Bool} {t t' : Thread} {s : Shared}

private theorem opens_resume {frame : Frame} {outcome : Outcome Unit}
    (ht' : (resume plan caller t s frame outcome).thread = some t') : t'.task.opens = false := by
  revert ht'
  fun_cases resume plan caller t s frame outcome <;> rintro ⟨⟩ <;> rfl

/-- At the beginning no thread is started and nothing is queued. -/
theorem opens_advance (ht' : (t.advance plan chance caller s).thread = some t')
    (h : t'.task.opens = true) : t.task.opens = true ∧
      (t.advance plan chance caller s).started = none ∧
      (t.advance plan chance caller s).shared.queue = s.queue := by
  revert ht'
  fun_cases advance plan chance caller t s
  all_goals rw [‹t.task = _›]
  all_goals try
    rintro ⟨⟩
    first
    | cases h; done
    | exact ⟨rfl, rfl, rfl⟩
  all_goals intro ht'
  · rcases enterPair_eq plan t s _ with ⟨-, hmove⟩ | ⟨-, task, hfollows, hmove⟩ <;>
      rw [hmove] at ht' <;> cases ht'
    · cases h
    · cases hfollows <;> cases h
  · revert ht'
    fun_cases comparePair plan chance.interference t s _ <;> rintro ⟨⟩ <;> cases h
  · rcases afterStart_eq plan.config.strategy t with ⟨-, hafter⟩ | ⟨-, hafter⟩ <;>
      rw [hafter] at ht' <;> cases ht' <;> cases h
  · rcases afterRefund_eq plan.config.strategy t _ with ⟨-, hafter⟩ | ⟨-, hafter⟩ <;>
      rw [hafter] at ht' <;> cases ht' <;> cases h
  · rw [opens_resume ht'] at h
    cases h
  · cases ht'
    rw [‹t.task = _›] at h
    cases h

/-- No step comes back to the very beginning. -/
theorem acquire_ne_advance (ht' : (t.advance plan chance caller s).thread = some t') :
    t'.task ≠ .acquire := by
  intro htask'
  obtain ⟨hopens, -⟩ := opens_advance ht' (by rw [htask']; rfl)
  revert ht'
  cases htask : t.task <;> rw [htask] at hopens <;> first | cases hopens; done | skip
  all_goals
    simp only [advance, htask]
    intro ht'
  · split at ht' <;> cases ht' <;> cases htask'
  · cases ht'
    revert htask'
    fun_cases openingTask plan <;> intro htask' <;> cases htask'
  · split at ht' <;> cases ht' <;> cases htask'
  · cases ht'
    cases htask'
  · cases ht'
    cases htask'

private theorem tends_enterPair (pair : NodePair) (h : t.frames.any Frame.tends = true) :
    ∃ t', (enterPair plan t s pair).thread = some t' ∧ t'.tends = true := by
  rcases enterPair_eq plan t s pair with ⟨-, hmove⟩ | ⟨-, task, -, hmove⟩ <;> rw [hmove]
  all_goals exact ⟨_, rfl, by simp [tends, h]⟩

private theorem tends_comparePair (env : Interference) (pair : NodePair)
    (h : t.frames.any Frame.tends = true) :
    ∃ t', (comparePair plan env t s pair).thread = some t' ∧ t'.tends = true := by
  fun_cases comparePair plan env t s pair
  all_goals exact ⟨_, rfl, by simp [tends, h]⟩

private theorem tends_resume {frame : Frame} {outcome : Outcome Unit}
    (h : frame.tends = true ∨ t.frames.any Frame.tends = true)
    (hchild : frame = .child → t.frames = []) :
    (resume plan caller t s frame outcome).isTroubled = true ∨
      ∃ t', (resume plan caller t s frame outcome).thread = some t' ∧ t'.tends = true := by
  fun_cases resume plan caller t s frame outcome
  all_goals try
    right
    refine ⟨_, rfl, ?_⟩
    simp_all [tends, Task.tends, Frame.tends, refuseWorker]
    done
  all_goals try
    left
    simp [Move.isTroubled, isTroubled, Task.isTroubled]
    done
  simp [Frame.tends, hchild] at h

/-- A thread that tends the queue goes on to do so, unless the queue is empty or the search is in
trouble. -/
theorem tends_advance (htyped : t.Typed plan.config.strategy caller) (h : t.tends = true) :
    (t.advance plan chance caller s).shared.queue.toList = [] ∨ s.aborted = true ∨
      (t.advance plan chance caller s).isTroubled = true ∨
      ∃ t', (t.advance plan chance caller s).thread = some t' ∧ t'.tends = true := by
  rw [tends, Bool.or_eq_true] at h
  fun_cases advance plan chance caller t s
  all_goals try
    right; right; right
    refine ⟨_, rfl, ?_⟩
    simp_all [tends, Task.tends, Frame.tends]
    done
  all_goals rw [‹t.task = _›] at h
  · exact .inr (.inr (.inr (tends_enterPair _ (h.resolve_left Bool.false_ne_true))))
  · exact .inr (.inr (.inr (tends_comparePair _ _ (h.resolve_left Bool.false_ne_true))))
  · refine .inr (.inr (.inr ⟨_, rfl, ?_⟩))
    rcases afterStart_eq plan.config.strategy t with ⟨-, hafter⟩ | ⟨-, hafter⟩ <;> rw [hafter] <;> rfl
  · right; right
    rcases afterRefund_eq plan.config.strategy t _ with ⟨-, hafter⟩ | ⟨-, hafter⟩ <;> rw [hafter]
    · exact .inr ⟨_, rfl, rfl⟩
    · exact .inl rfl
  · exact .inr (.inr (.inl rfl))
  · exact .inr (.inl ‹_›)
  · exact .inl ((Fifo.pop?_eq_none_iff _).mp ‹_›)
  · exact .inl (Fifo.toList_eq_nil_of_isEmpty ‹_›)
  · next outcome frame frames hframes =>
    have hreturns := htyped.returns ‹t.task = _›
    rw [hframes] at h hreturns
    refine .inr (.inr (tends_resume (by simpa [Task.tends] using h) ?_))
    rintro rfl
    exact (stands_gone hreturns.2.2).1

private theorem tends_of_stands {strategy : Strategy} {frames : List Frame}
    (hpools : strategy.pools = true) (h : Stands strategy caller frames .search) :
    frames.any Frame.tends = true := by
  -- In a pool, whoever searches a pair comes back to the queue.
  have hforks : strategy.forks = false := by
    cases strategy <;> first | rfl | cases hpools
  induction frames with
  | nil => cases caller <;> cases h
  | cons f frames ih =>
    obtain ⟨hhosts, -, hbelow⟩ := h
    cases f with
    | leave pair => exact ih hbelow
    | rest pairs => exact ih hbelow
    | offered first rest => exact ih hbelow
    | drained => rfl
    | job kept => rfl
    | _ => simp [Frame.hosts, hforks, hpools] at hhosts

/-- Whoever puts something into the queue comes back to it. -/
theorem tends_of_pushed (htyped : t.Typed plan.config.strategy caller)
    (h : t.pushed plan s ≠ []) :
    ∃ t', (t.advance plan chance caller s).thread = some t' ∧ t'.tends = true := by
  rw [pushed] at h
  split at h
  · next workers htask =>
    simp only [advance, htask]
    exact ⟨_, rfl, rfl⟩
  · next first pair rest htask =>
    obtain ⟨hpools, hstands⟩ := htyped.stands htask (by simp)
    have htends := tends_of_stands hpools hstands
    simp only [advance, htask]
    split <;> exact ⟨_, rfl, by simp [tends, htends]⟩
  · next htask =>
    simp only [advance, htask]
    split at h
    · next hexpand =>
      rw [hexpand]
      exact ⟨_, rfl, rfl⟩
    · exact absurd rfl h
  · exact absurd rfl h

/-- A thread that has come to an outcome has no frames left, and returns it. -/
theorem outcome?_eq_some {o : Outcome Unit} (h : t.outcome? = some o) :
    t.frames = [] ∧ t.task = .ret o := by
  rw [outcome?] at h
  split at h
  · next outcome hframes htask =>
    cases h
    exact ⟨hframes, htask⟩
  · cases h

private theorem length_frames_advance (hret : ∀ o, t.task ≠ .ret o)
    (ht' : (t.advance plan chance caller s).thread = some t') :
    t.frames.length ≤ t'.frames.length := by
  revert ht'
  fun_cases advance plan chance caller t s
  all_goals try
    rintro ⟨⟩
    simp
  all_goals intro ht'
  · rcases enterPair_eq plan t s _ with ⟨-, hmove⟩ | ⟨-, task, -, hmove⟩ <;>
      rw [hmove] at ht' <;> cases ht' <;> simp
  · revert ht'
    fun_cases comparePair plan chance.interference t s _ <;> rintro ⟨⟩ <;> simp
  · rcases afterStart_eq plan.config.strategy t with ⟨-, hafter⟩ | ⟨-, hafter⟩ <;>
      rw [hafter] at ht' <;> cases ht' <;> simp
  · rcases afterRefund_eq plan.config.strategy t _ with ⟨-, hafter⟩ | ⟨-, hafter⟩ <;>
      rw [hafter] at ht' <;> cases ht' <;> simp
  · exact absurd ‹_› (hret _)

private theorem length_frames_resume {frame : Frame} {outcome : Outcome Unit}
    (ht' : (resume plan caller t s frame outcome).thread = some t') :
    t.frames.length ≤ t'.frames.length := by
  revert ht'
  fun_cases resume plan caller t s frame outcome <;> rintro ⟨⟩ <;> simp

/-- How the calling thread comes to its last outcome. -/
theorem outcome?_advance {o : Outcome Unit} (htyped : t.Typed plan.config.strategy true)
    (ht' : (t.advance plan chance true s).thread = some t') (ho : t'.outcome? = some o) :
    (t.task = .acquire ∧ o.isOk = false) ∨
    (∃ searched, t.task = .joinAll searched ∧
      (o.isOk = true → s.token.children.failure = none)) ∨
    (∃ message, t.task = .unwind message ∧ o.isOk = false) ∨ t.outcome? = some o := by
  obtain ⟨hframes', htask'⟩ := outcome?_eq_some ho
  by_cases hret : ∃ outcome, t.task = .ret outcome
  · obtain ⟨outcome, htask⟩ := hret
    cases hframes : t.frames with
    | nil =>
      simp only [advance, htask, hframes] at ht'
      cases ht'
      exact .inr (.inr (.inr ho))
    | cons frame frames =>
      have hreturns := htyped.returns htask
      simp only [advance, htask, hframes] at ht' hreturns
      obtain rfl : frames = [] := by
        have := length_frames_resume ht'
        rw [hframes'] at this
        exact List.eq_nil_of_length_eq_zero (Nat.le_zero.mp this)
      have hplace : frame.place = .main := hreturns.2.2
      cases frame <;> simp [Frame.place] at hplace
      rcases outcome with (failure | message) | _ <;> cases ht' <;> cases htask'
  · have hlength := length_frames_advance (fun o ho ↦ hret ⟨o, ho⟩) ht'
    rw [hframes'] at hlength
    have hframes := List.eq_nil_of_length_eq_zero (Nat.le_zero.mp hlength)
    obtain ⟨-, hstands⟩ := htyped.stands rfl fun o ho ↦ hret ⟨o, ho⟩
    rw [hframes] at hstands
    rcases Task.cases_of_place_main hstands with htask | ⟨searched, htask⟩ | ⟨searched, htask⟩ |
      ⟨message, htask⟩
    · refine .inl ⟨htask, ?_⟩
      simp only [advance, htask] at ht'
      split at ht' <;> cases ht' <;> cases htask'
      rfl
    · simp only [advance, htask] at ht'
      split at ht' <;> cases ht' <;> cases htask'
    · refine .inr (.inl ⟨searched, htask, fun hok ↦ ?_⟩)
      simp only [advance, htask, Token.join, Children.join] at ht'
      cases hfailure : s.token.children.failure with
      | none => rfl
      | some failure =>
        rw [hfailure] at ht'
        cases ht'
        cases htask'
        simp [calm] at hok
    · refine .inr (.inr (.inl ⟨message, htask, ?_⟩))
      simp only [advance, htask] at ht'
      cases ht'
      cases htask'
      rfl

end Thread

namespace Machine

variable {plan : Plan} {chance : Chance} {m m' : Machine}

/-- At the beginning the calling thread is alone, and nothing is queued. -/
theorem alone_of_opens (h : Reachable plan m) (hopens : m.caller.task.opens = true) :
    m.workers = [] ∧ m.shared.queue.toList = [] := by
  revert hopens
  refine Reachable.induction h (fun _ ↦ ⟨rfl, rfl⟩) fun _ htyped hmoved ih hopens ↦ ?_
  cases hmoved with
  | caller hready hmove =>
    obtain ⟨hbefore, hstarted, hqueue⟩ := Thread.opens_advance (by rw [hmove]) hopens
    rw [hmove] at hstarted hqueue
    obtain rfl := hstarted
    obtain ⟨hworkers, hempty⟩ := ih hbefore
    exact ⟨by simp [hworkers], hqueue ▸ hempty⟩
  | worker hworkers =>
    rw [(ih hopens).1] at hworkers
    simp at hworkers

/-- A thread that stands at the beginning of a search is the calling one. -/
theorem opens_of_replaced {caller : Bool} {t : Thread} {others : List Thread}
    (htyped : Typed plan m) (hreplaced : Replaced plan chance m m' caller t others)
    (hopens : t.task.opens = true) : t = m.caller := by
  apply hreplaced.caller_eq
  have hret (o : Outcome Unit) : t.task ≠ .ret o := by
    intro htask
    rw [htask] at hopens
    cases hopens
  obtain ⟨-, hstands⟩ := (htyped.of_replaced hreplaced).stands rfl hret
  cases htask : t.task <;> rw [htask] at hopens hstands <;> first | cases hopens; done | skip
  · exact (stands_main hstands).2
  all_goals exact (stands_leading hstands).2

/-- The permit of the calling thread is taken before anything else happens. -/
theorem eq_of_acquire (h : Reachable plan m) (htask : m.caller.task = .acquire) :
    m = ofBudget plan.config.threads := by
  revert htask
  refine Reachable.induction h (fun _ ↦ rfl) fun _ htyped hmoved ih htask ↦ ?_
  cases hmoved with
  | caller hready hmove =>
    exact absurd htask (@Thread.acquire_ne_advance plan _ _ _ _ _ (by rw [hmove]))
  | worker hworkers =>
    rw [ih htask] at hworkers
    simp [ofBudget] at hworkers

/-- Once the beginning is over, it does not come back. -/
theorem opens_of_moved {t : Thread} (hmoved : Moved plan chance m t m')
    (h : m.caller.task.opens = false) : m'.caller.task.opens = false := by
  cases hmoved with
  | @caller t s started hready hmove =>
    by_contra hopens
    rw [Bool.not_eq_false] at hopens
    rw [(Thread.opens_advance (by rw [hmove]) hopens).1] at h
    cases h
  | worker => exact h

/-- What a step puts into the queue and takes from it. -/
theorem queue_step {caller : Bool} {t : Thread} {others : List Thread} (hm : Reachable plan m)
    (htyped : Typed plan m) (hreplaced : Replaced plan chance m m' caller t others) :
    m.shared.queue.toList ++ t.pushed plan m.shared =
      t.popped m.shared ++ m'.shared.queue.toList := by
  rw [hreplaced.shared_eq]
  refine Thread.queue_advance fun htask ↦ ?_
  have hopens : t.task.opens = true := by rw [htask]; rfl
  refine (alone_of_opens hm ?_).2
  rw [← opens_of_replaced htyped hreplaced hopens]
  exact hopens

private theorem workers_of_outcome {o : Outcome Unit} {t : Thread} {s : Shared}
    {started : Option Thread} (hm : Reachable plan m) (htyped : Typed plan m)
    (hready : m.caller.isBlocked plan chance m.workers.isEmpty m.shared = false)
    (hmove : m.caller.advance plan chance true m.shared = ⟨some t, s, started⟩)
    (ho : t.outcome? = some o) :
    m.workers = [] ∧ started = none ∧ (o.isOk = true → s.token.children.failure = none) := by
  have hstarted (hlaunch : ∀ child, m.caller.task ≠ .launch child) : started = none := by
    have hnone : (m.caller.advance plan chance true m.shared).started = none :=
      Thread.started_eq_none hlaunch
    rwa [hmove] at hnone
  have hchildren : s.token.children = m.caller.childrenAfter m.shared := by
    rw [← Thread.children_advance, hmove]
  rcases Thread.outcome?_advance htyped.caller (by rw [hmove]) ho with ⟨htask, herror⟩ |
    ⟨searched, htask, hfailure⟩ | ⟨message, htask, herror⟩ | hbefore
  · refine ⟨(alone_of_opens hm (by rw [htask]; rfl)).1, hstarted (by simp [htask]), fun hok ↦ ?_⟩
    rw [herror] at hok
    cases hok
  · rw [Thread.isBlocked, htask, decide_eq_false_iff_not, Nat.not_lt, Nat.le_zero] at hready
    refine ⟨workers_of_active_eq_zero hm hready, hstarted (by simp [htask]), fun hok ↦ ?_⟩
    rw [hchildren, Thread.childrenAfter, htask]
    simp [Children.join, hfailure hok]
  · rw [Thread.isBlocked, htask, Bool.not_eq_false', List.isEmpty_iff] at hready
    refine ⟨hready, hstarted (by simp [htask]), fun hok ↦ ?_⟩
    rw [herror] at hok
    cases hok
  · obtain ⟨hframes, htask⟩ := Thread.outcome?_eq_some hbefore
    rw [Thread.isBlocked, htask, hframes] at hready
    cases hready

private theorem not_troubled_of_outcome {o : Outcome Unit} (hworkers : m.workers = [])
    (hfailure : m.shared.token.children.failure = none) (ho : m.outcome? = some o)
    (hok : o.isOk = true) : ¬Troubled m := by
  obtain ⟨hframes, htask⟩ := Thread.outcome?_eq_some ho
  rintro (⟨t, ht, htroubled⟩ | htroubled)
  · rw [threads, hworkers, List.mem_singleton] at ht
    subst ht
    simp [Thread.isTroubled, hframes, htask, Task.isTroubled, hok] at htroubled
  · simp [Shared.isTroubled, hfailure] at htroubled

/-- A search that has ended has no thread but the calling one. If it has ended well, there is no
trouble. -/
theorem alone_of_outcome {o : Outcome Unit} (h : Reachable plan m) (ho : m.outcome? = some o) :
    m.workers = [] ∧ (o.isOk = true → ¬Troubled m) := by
  revert ho
  refine Reachable.induction h (fun ho ↦ ?_) fun hm htyped hmoved ih ho ↦ ?_
  · cases ho
  · cases hmoved with
    | caller hready hmove =>
      obtain ⟨hworkers, rfl, hfailure⟩ := workers_of_outcome hm htyped hready hmove ho
      refine ⟨by simp [hworkers], fun hok ↦ ?_⟩
      exact not_troubled_of_outcome (by simp [hworkers]) (hfailure hok) ho hok
    | worker hworkers =>
      rw [(ih ho).1] at hworkers
      simp at hworkers

/-- A search that has ended takes no more steps. -/
theorem not_moved_of_outcome {o : Outcome Unit} {t : Thread} (h : Reachable plan m)
    (ho : m.outcome? = some o) : ¬Moved plan chance m t m' := by
  intro hmoved
  cases hmoved with
  | caller hready =>
    obtain ⟨hframes, htask⟩ := Thread.outcome?_eq_some ho
    rw [Thread.isBlocked, htask, hframes] at hready
    cases hready
  | worker hworkers =>
    rw [(alone_of_outcome h ho).1] at hworkers
    simp at hworkers

private theorem tended_step (hm : Reachable plan m) (htyped : Typed plan m)
    {t : Thread} (hmoved : Moved plan chance m t m')
    (ih : m.shared.queue.toList ≠ [] → Troubled m ∨ ∃ t ∈ m.threads, t.tends = true)
    (hqueue : m'.shared.queue.toList ≠ []) : Troubled m' ∨ ∃ t ∈ m'.threads, t.tends = true := by
  obtain ⟨caller, others, hreplaced⟩ := hmoved.exists_replaced
  have ht := htyped.of_replaced hreplaced
  have hmem {t' : Thread} (ht' : (t.advance plan chance caller m.shared).thread = some t') :
      t' ∈ m'.threads := hreplaced.after.mem_iff.mpr (by simp [Move.threads, ht'])
  by_cases hpushed : t.pushed plan m.shared = []
  · have hbefore : m.shared.queue.toList ≠ [] := by
      intro hempty
      have hstep := queue_step hm htyped hreplaced
      rw [hempty, hpushed] at hstep
      exact hqueue (List.append_eq_nil_iff.mp hstep.symm).2
    rcases ih hbefore with htroubled | ⟨u, hu, htends⟩
    · exact .inl (htroubled.step htyped hmoved)
    · rcases List.mem_cons.mp (hreplaced.before.mem_iff.mp hu) with rfl | hu
      · rw [hreplaced.shared_eq] at hqueue
        rcases Thread.tends_advance ht htends with hempty | haborted | htroubled | ⟨t', ht', htends⟩
        · exact absurd hempty hqueue
        · exact .inl ((troubled_of_aborted hm haborted).step htyped hmoved)
        · exact .inl (troubled_of_replaced hreplaced htroubled)
        · exact .inr ⟨t', hmem ht', htends⟩
      · exact .inr ⟨u, hreplaced.after.mem_iff.mpr (List.mem_append_right _ hu), htends⟩
  · obtain ⟨t', ht', htends⟩ := Thread.tends_of_pushed ht hpushed
    exact .inr ⟨t', hmem ht', htends⟩

/-- Whatever is queued is tended, unless the search is in trouble. -/
theorem tended (h : Reachable plan m) (hqueue : m.shared.queue.toList ≠ []) :
    Troubled m ∨ ∃ t ∈ m.threads, t.tends = true := by
  revert hqueue
  refine Reachable.induction h (fun hqueue ↦ absurd rfl hqueue) fun hm htyped hmoved ih hqueue ↦ ?_
  exact tended_step hm htyped hmoved ih hqueue

/-- A search that has ended well has left nothing in the queue. -/
theorem queue_of_outcome {o : Outcome Unit} (h : Reachable plan m) (ho : m.outcome? = some o)
    (hok : o.isOk = true) : m.shared.queue.toList = [] := by
  obtain ⟨hworkers, hcalm⟩ := alone_of_outcome h ho
  obtain ⟨hframes, htask⟩ := Thread.outcome?_eq_some ho
  by_contra hqueue
  rcases tended h hqueue with htroubled | ⟨t, ht, htends⟩
  · exact hcalm hok htroubled
  · rw [threads, hworkers, List.mem_singleton] at ht
    subst ht
    simp [Thread.tends, hframes, htask, Task.tends] at htends

end Machine
end RayAdjacency
