import RayAdjacency.Proofs.Sharing.Crew
import RayAdjacency.Proofs.Traversal.Ending

/-!
# The cohort of a job queue as a crew

In a search with a job queue, the workers that have been started for it and the calling thread are a
crew: a worker drains as long as the frame that reports to the cohort is on its stack, and the tasks
after that are those of its hold and its departure; the calling thread starts, dismisses, drains and
waits. Every step of such a search is none, one or two steps of its crew, whatever it comes to
(`Machine.staffed`), so what holds of every crew holds of the cohort of a search in trouble, too: no
more workers have released than have finished, and no more have finished than there are.
-/

namespace RayAdjacency

/-- Whether a worker is on its way to release. -/
def Shift.isPresent : Shift → Bool
  | departed _ | lost _ => false
  | _ => true

/-- Waking a worker does not make it leave. -/
theorem Shift.isPresent_rouse (shift : Shift) : shift.rouse.isPresent = shift.isPresent := by
  cases shift <;> rfl

namespace Crew

/-- Some crew that can be reached has this cohort, its calling thread does this, and these workers
are in it that have neither released nor panicked in their hold. -/
def Attained (policy : ReleasePolicy) (workers : Nat) (cohort : Cohort) (lead : Lead)
    (staying : List Shift) : Prop :=
  ∃ c, Reachable policy workers c ∧ c.cohort = cohort ∧ c.lead = lead ∧
    (c.workers.filter Shift.isPresent).Perm staying

namespace Attained

variable {policy : ReleasePolicy} {workers worker left : Nat} {cohort : Cohort} {lead lead' : Lead}
  {staying others rest : List Shift} {shift shift' : Shift} {drained : Outcome Unit}

/-- In which order the workers are listed does not matter. -/
theorem perm (h : Attained policy workers cohort lead staying) (hperm : staying.Perm others) :
    Attained policy workers cohort lead others := by
  obtain ⟨c, hc, hcohort, hlead, hstaying⟩ := h
  exact ⟨c, hc, hcohort, hlead, hstaying.trans hperm⟩

/-- A cohort that can be reached has the workers that it started with. -/
theorem workers_eq (h : Attained policy workers cohort lead staying) :
    cohort.workers = workers := by
  obtain ⟨c, hc, rfl, -⟩ := h
  exact hc.orderly.size

/-- The calling thread starts a worker, which drains. -/
theorem hire (h : Attained policy workers cohort (.starting worker) staying)
    (hlt : worker < workers) :
    Attained policy workers cohort (.starting (worker + 1)) (.draining :: staying) := by
  obtain ⟨c, hc, rfl, hlead, hstaying⟩ := h
  have hstep : c.step policy (.start false) = some
      { c with lead := .starting (worker + 1), workers := c.workers ++ [.draining] } := by
    rw [Crew.step, hlead]
    exact if_pos (hc.orderly.size ▸ hlt)
  refine ⟨_, hc.step hstep, rfl, rfl, ?_⟩
  rw [List.filter_append]
  exact List.perm_append_comm.trans (hstaying.cons _)

/-- The calling thread goes on by itself. -/
theorem turn_lead (h : Attained policy workers cohort lead staying)
    (hturns : lead.Turns cohort lead') : Attained policy workers cohort lead' staying := by
  obtain ⟨c, hc, rfl, rfl, hstaying⟩ := h
  have hstep : ∃ act, c.step policy act = some { c with lead := lead' } := by
    generalize hlead : c.lead = lead at hturns
    cases hturns with
    | refused hlt =>
      refine ⟨.start true, ?_⟩
      rw [Crew.step, hlead]
      exact if_pos hlt
    | started hle =>
      refine ⟨.start false, ?_⟩
      rw [Crew.step, hlead]
      exact if_neg (Nat.not_lt.mpr hle)
    | dismissed => exact ⟨.dismiss, by rw [Crew.step, hlead]⟩
    | refunded refused => exact ⟨.refund refused, by rw [Crew.step, hlead]⟩
    | drained panicked => exact ⟨.drain panicked, by rw [Crew.step, hlead]⟩
    | look => exact ⟨.look, by rw [Crew.step, hlead]⟩
    | wake => exact ⟨.wake, by rw [Crew.step, hlead]⟩
  obtain ⟨act, hstep⟩ := hstep
  exact ⟨_, hc.step hstep, rfl, rfl, hstaying⟩

private theorem exists_await {c : Crew} {i : Nat} (hi : c.workers[i]? = some shift)
    (hlooks : shift.Looks policy drained) :
    ∃ act, c.step policy act = some (c.await policy i drained) := by
  cases hlooks with
  | @begins now hclock =>
    refine ⟨.hold i now, ?_⟩
    simp only [Crew.step, hi, hclock, Bool.false_eq_true, if_false]
  | woken => exact ⟨.check i, by rw [Crew.step, hi]⟩

/-- A worker goes on by itself. -/
theorem turn (h : Attained policy workers cohort lead (shift :: rest))
    (hturns : shift.Turns policy cohort shift') :
    Attained policy workers cohort lead ([shift'].filter Shift.isPresent ++ rest) := by
  obtain ⟨c, hc, rfl, rfl, hstaying⟩ := h
  obtain ⟨i, hi, hset⟩ := Roster.exists_set_filter hstaying
  have hstep : ∃ act, c.step policy act = some (c.setWorker i shift') := by
    cases hturns with
    | clear hlooks hmay =>
      obtain ⟨act, hact⟩ := exists_await hi hlooks
      exact ⟨act, by rw [hact, await, if_pos hmay]⟩
    | sleep hlooks hmay =>
      obtain ⟨act, hact⟩ := exists_await hi hlooks
      exact ⟨act, by rw [hact, await, if_neg (Bool.eq_false_iff.mp hmay)]⟩
    | @panic now _ hclock =>
      refine ⟨.hold i now, ?_⟩
      simp only [Crew.step, hi, hclock, if_true]
    | expire htimeout =>
      obtain ⟨limit, rfl⟩ := htimeout
      exact ⟨.expire i, by simp only [Crew.step, hi]⟩
    | wake drained => exact ⟨.rouse i, by rw [Crew.step, hi]⟩
    | surrender drained => exact ⟨.surrender i, by rw [Crew.step, hi]⟩
    | unwind => exact ⟨.surrender i, by rw [Crew.step, hi]⟩
  obtain ⟨act, hstep⟩ := hstep
  exact ⟨_, hc.step hstep, rfl, rfl, hset _⟩

private theorem change {c c₀ : Crew} {act : CrewStep} (hc : Reachable policy workers c)
    (hstep : c.step policy act = some (c₀.change cohort)) (hlead : c₀.lead.rouse = lead)
    (hset : (c₀.workers.filter Shift.isPresent).Perm staying)
    (hawake : ∀ w ∈ staying, w.rouse = w) :
    Attained policy workers cohort lead staying := by
  refine ⟨_, hc.step hstep, rfl, hlead, ?_⟩
  have hstaying : Shift.isPresent ∘ Shift.rouse = Shift.isPresent := funext Shift.isPresent_rouse
  dsimp only [Crew.change]
  rw [List.filter_map, hstaying]
  refine (hset.map Shift.rouse).trans (.of_eq ?_)
  exact (List.map_congr_left hawake).trans (List.map_id staying)

/-- The calling thread signs a worker off. -/
theorem dismiss (h : Attained policy workers cohort (.dismissing (left + 1)) staying)
    (hawake : ∀ w ∈ staying, w.rouse = w) :
    Attained policy workers cohort.abandon (.dismissing left) staying := by
  obtain ⟨c, hc, rfl, hlead, hstaying⟩ := h
  have hstep : c.step policy .dismiss =
      some ({ c with lead := .dismissing left }.change c.cohort.abandon) := by
    rw [Crew.step, hlead]
  exact change hc hstep rfl hstaying hawake

/-- A worker comes to the end of its drain. -/
theorem finish (h : Attained policy workers cohort lead (.draining :: rest))
    (hlead : lead.rouse = lead) (hrest : ∀ w ∈ rest, w.rouse = w) (drained : Outcome Unit) :
    Attained policy workers cohort.finish lead (.finished drained :: rest) := by
  obtain ⟨c, hc, rfl, rfl, hstaying⟩ := h
  obtain ⟨i, hi, hset⟩ := Roster.exists_set_filter hstaying
  have hstep : c.step policy (.finish i drained) =
      some ((c.setWorker i (.finished drained)).change c.cohort.finish) := by
    rw [Crew.step, hi]
  exact change hc hstep hlead (hset _) (List.forall_mem_cons.mpr ⟨rfl, hrest⟩)

/-- A worker releases, and leaves the crew. -/
theorem depart (h : Attained policy workers cohort lead (.surrendered drained :: rest))
    (hlead : lead.rouse = lead) (hrest : ∀ w ∈ rest, w.rouse = w) :
    Attained policy workers cohort.release lead rest := by
  obtain ⟨c, hc, rfl, rfl, hstaying⟩ := h
  obtain ⟨i, hi, hset⟩ := Roster.exists_set_filter hstaying
  have hstep : c.step policy (.depart i) =
      some ((c.setWorker i (.departed drained)).change c.cohort.release) := by
    rw [Crew.step, hi]
  exact change hc hstep hlead (hset _) hrest

/-- A worker that may release, or whose time has run out, gets past its hold. -/
theorem clear {now : Duration} {expired : Bool}
    (h : Attained policy workers cohort lead (.finished drained :: rest))
    (hclock : policy.passesClock now = false) (hmay : cohort.mayRelease policy expired = true) :
    Attained policy workers cohort lead (.cleared drained :: rest) := by
  by_cases hnow : cohort.mayRelease policy false = true
  · exact h.turn (.clear (.begins hclock) hnow)
  · refine (h.turn (.sleep (.begins hclock) (Bool.eq_false_iff.mpr hnow))).turn (.expire ?_)
    cases policy with
    | timeout limit => exact ⟨limit, rfl⟩
    | _ => exact absurd hmay hnow

end Attained
end Crew

/-! ### Threads -/

/-- What a task at the end of a worker is to its crew. -/
def Task.shift? : Task → Option Shift
  | finish _ => some .draining
  | hold drained => some (.finished drained)
  | surrender drained => some (.cleared drained)
  | depart drained => some (.surrendered drained)
  | _ => none

/-- Whether a frame reports to the cohort. -/
def Frame.isWorker : Frame → Bool
  | worker => true
  | _ => false

/-- Whether a frame waits for the cohort. -/
def Frame.isCohort : Frame → Bool
  | cohort => true
  | _ => false

/-- What a thread is to the crew of its search, unless it is no worker or has released. -/
def Thread.shift? (t : Thread) : Option Shift :=
  t.task.shift? <|> if t.frames.any Frame.isWorker then some .draining else none

namespace Thread

variable {plan : Plan} {chance : Chance} {caller alone : Bool} {t t' : Thread} {s : Shared}

/-- The cohort after the next step of a thread that does not recruit. -/
def cohortAfter (plan : Plan) (t : Thread) (s : Shared) : Cohort :=
  match t.task with
  | .dismiss (_ + 1) _ _ => (signOff plan.config.strategy s).cohort
  | .finish _ => s.cohort.finish
  | .depart _ => s.cohort.release
  | _ => s.cohort

private theorem cohort_enterPair (pair : NodePair) :
    (enterPair plan t s pair).shared.cohort = s.cohort := by
  fun_cases enterPair plan t s pair <;> rfl

private theorem cohort_comparePair (env : Interference) (pair : NodePair) :
    (comparePair plan env t s pair).shared.cohort = s.cohort := by
  fun_cases comparePair plan env t s pair <;> rfl

private theorem cohort_resume (frame : Frame) (outcome : Outcome Unit) :
    (resume plan caller t s frame outcome).shared.cohort = s.cohort := by
  fun_cases resume plan caller t s frame outcome
  all_goals first | rfl | simp

/-- What a step does to the cohort. -/
theorem cohort_advance (hrecruit : ∀ queued, t.task ≠ .recruit queued) :
    (t.advance plan chance caller s).shared.cohort = t.cohortAfter plan s := by
  fun_cases advance plan chance caller t s
  all_goals rw [cohortAfter, ‹t.task = _›]
  all_goals try
    first
    | rfl
    | simp; done
  · exact cohort_enterPair _
  · exact cohort_comparePair _ _
  · exact Shared.cohort_note _ caller _
  · exact absurd ‹t.task = _› (hrecruit _)
  · dsimp only
    split <;> rfl
  · exact cohort_resume _ _

/-- The same frames report to the cohort and wait for it as before, and the thread is not at the
end of a worker. -/
def SameFrames (t t' : Thread) : Prop :=
  t'.task.shift? = none ∧ t'.frames.any Frame.isWorker = t.frames.any Frame.isWorker ∧
    t'.frames.any Frame.isCohort = t.frames.any Frame.isCohort

private theorem sameFrames_enterPair (pair : NodePair)
    (ht' : (enterPair plan t s pair).thread = some t') : t.SameFrames t' := by
  rcases enterPair_eq plan t s pair with ⟨-, hmove⟩ | ⟨-, task, hfollows, hmove⟩ <;>
    rw [hmove] at ht' <;> cases ht'
  · exact ⟨rfl, rfl, rfl⟩
  · exact ⟨by cases hfollows <;> rfl, rfl, rfl⟩

private theorem sameFrames_comparePair (env : Interference) (pair : NodePair)
    (ht' : (comparePair plan env t s pair).thread = some t') : t.SameFrames t' := by
  revert ht'
  fun_cases comparePair plan env t s pair <;> rintro ⟨⟩ <;> exact ⟨rfl, rfl, rfl⟩

private theorem sameFrames_resume {frame : Frame} {outcome : Outcome Unit}
    (hworker : frame.isWorker = false)
    (ht' : (resume plan caller t s frame outcome).thread = some t') : t.SameFrames t' := by
  revert ht'
  fun_cases resume plan caller t s frame outcome <;> rintro ⟨⟩
  all_goals
    first
    | exact ⟨rfl, rfl, rfl⟩
    | cases hworker

/-- Most steps leave the frames of the cohort alone. -/
theorem sameFrames_advance (hshift : t.task.shift? = none)
    (hstart : ∀ worker total, t.task ≠ .start worker total)
    (hlast : ∀ outcome frame frames, t.task = .ret outcome → t.frames = frame :: frames →
      frame.isWorker = false ∧ frame.isCohort = false)
    (ht' : (t.advance plan chance caller s).thread = some t') : t.SameFrames t' := by
  revert ht'
  fun_cases advance plan chance caller t s
  all_goals try
    rw [‹t.task = _›] at hshift
    cases hshift
    done
  all_goals try exact absurd ‹t.task = _› (hstart _ _)
  all_goals try
    rintro ⟨⟩
    exact ⟨rfl, rfl, rfl⟩
  all_goals intro ht'
  · cases ht'
    fun_cases openingTask plan <;> exact ⟨rfl, rfl, rfl⟩
  · exact sameFrames_enterPair _ ht'
  · exact sameFrames_comparePair _ _ ht'
  · cases ht'
    rcases afterRefund_eq plan.config.strategy t ‹Failure› with ⟨-, hafter⟩ | ⟨-, hafter⟩
    all_goals
      have hsame : t.SameFrames (afterRefund plan.config.strategy t ‹Failure›) := by
        rw [hafter]
        exact ⟨rfl, rfl, rfl⟩
      exact hsame
  · next outcome htask frame frames hframes =>
    obtain ⟨hworker, hcohort⟩ := hlast outcome frame frames htask hframes
    have hsame := @sameFrames_resume plan caller { t with frames } t' s frame outcome hworker ht'
    refine ⟨hsame.1, hsame.2.1.trans ?_, hsame.2.2.trans ?_⟩
    · rw [hframes, List.any_cons, hworker, Bool.false_or]
    · rw [hframes, List.any_cons, hcohort, Bool.false_or]
  · cases ht'
    exact ⟨hshift, rfl, rfl⟩

/-- A thread whose next step is none of its crew. -/
structure IsApart (t : Thread) : Prop where
  shift : t.task.shift? = none
  place : t.task.place ≠ .leading
  launch : ∀ child, t.task = .launch child → child.errand ≠ .drain
  last : ∀ outcome frame frames, t.task = .ret outcome → t.frames = frame :: frames →
    frame.isWorker = false ∧ frame.isCohort = false ∧ frame ≠ .child

/-- Whoever neither returns nor has to do with the cohort is apart from it. -/
theorem isApart_of_place (hret : ∀ o, t.task ≠ .ret o) (hshift : t.task.shift? = none)
    (hleading : t.task.place ≠ .leading) (hhiring : t.task.place ≠ .hiring) : t.IsApart where
  shift := hshift
  place := hleading
  launch child htask herrand := by
    rw [htask, Task.place, herrand] at hhiring
    exact hhiring rfl
  last outcome _ _ htask _ := absurd htask (hret outcome)

/-- So is whoever returns to a frame that has nothing to do with the cohort. -/
theorem isApart_of_ret {outcome : Outcome Unit} {frame : Frame} {frames : List Frame}
    (htask : t.task = .ret outcome) (hframes : t.frames = frame :: frames)
    (hworker : frame.isWorker = false) (hcohort : frame.isCohort = false)
    (hchild : frame ≠ .child) : t.IsApart where
  shift := htask ▸ rfl
  place := htask ▸ Place.noConfusion
  launch child hlaunch := by
    rw [htask] at hlaunch
    cases hlaunch
  last _ f fs _ hcons := by
    cases hframes.symm.trans hcons
    exact ⟨hworker, hcohort, hchild⟩

private theorem cohort_of_place (hshift : t.task.shift? = none) (hplace : t.task.place ≠ .leading) :
    (t.advance plan chance caller s).shared.cohort = s.cohort := by
  rw [cohort_advance fun queued htask ↦ hplace (htask ▸ rfl), cohortAfter]
  split
  · rw [‹t.task = _›] at hplace
    exact absurd rfl hplace
  · rw [‹t.task = _›] at hshift
    cases hshift
  · rw [‹t.task = _›] at hshift
    cases hshift
  · rfl

/-- Whoever is apart from the cohort leaves it alone, and starts none of its workers. -/
theorem IsApart.advance (h : t.IsApart) : ∃ t',
    (t.advance plan chance caller s).thread = some t' ∧ t.SameFrames t' ∧
      (t.advance plan chance caller s).started.toList.filterMap shift? = [] ∧
      (t.advance plan chance caller s).shared.cohort = s.cohort := by
  have hthread : ∃ t', (t.advance plan chance caller s).thread = some t' := by
    cases hthread : (t.advance plan chance caller s).thread with
    | some t' => exact ⟨t', rfl⟩
    | none =>
      obtain ⟨outcome, frames, htask, hframes⟩ := ended_of_advance hthread
      exact absurd rfl (h.last outcome _ frames htask hframes).2.2
  obtain ⟨t', ht'⟩ := hthread
  refine ⟨t', ht', sameFrames_advance h.shift (fun worker total htask ↦ h.place (htask ▸ rfl))
    (fun outcome frame frames htask hframes ↦ ?_) ht', ?_, cohort_of_place h.shift h.place⟩
  · obtain ⟨hworker, hcohort, -⟩ := h.last outcome frame frames htask hframes
    exact ⟨hworker, hcohort⟩
  · cases hstarted : (t.advance plan chance caller s).started with
    | none => rfl
    | some u =>
      obtain ⟨child, htask, -, rfl⟩ := started_advance hstarted
      obtain ⟨label, errand⟩ := child
      cases errand with
      | drain => exact absurd rfl (h.launch _ htask)
      | _ => rfl

/-- What is left of such a thread in its crew is what it was. -/
theorem IsApart.attained {total : Nat} {release : ReleasePolicy} {lead : Lead} {rest : List Shift}
    (hapart : t.IsApart)
    (h : Crew.Attained release total s.cohort lead (t.shift?.toList ++ rest)) :
    Crew.Attained release total (t.advance plan chance caller s).shared.cohort lead
      ((t.advance plan chance caller s).threads.filterMap shift? ++ rest) := by
  obtain ⟨t', ht', hsame, hstarted, hcohort⟩ := @hapart.advance plan chance caller _ s
  have hshift : t'.shift? = t.shift? := by
    rw [shift?, shift?, hapart.shift, hsame.1, hsame.2.1]
  rw [hcohort, Move.threads, ht', List.filterMap_append, hstarted, List.append_nil]
  cases hold : t.shift? with
  | none => simpa [hshift, hold] using h
  | some shift => simpa [hshift, hold] using h

private theorem stands_hiring {strategy : Strategy} {frames : List Frame}
    (h : Stands strategy caller frames .hiring) : ∃ worker total,
      frames = [.started worker total, .close] ∧ worker < total ∧ caller = true := by
  cases frames with
  | nil => cases caller <;> cases h
  | cons f frames =>
    obtain ⟨hhosts, hsuits, hbelow⟩ := h
    cases f <;> simp [Frame.hosts] at hhosts
    obtain ⟨rfl, hcaller⟩ := stands_leading hbelow
    rw [Frame.suits, Bool.and_eq_true, decide_eq_true_eq] at hsuits
    exact ⟨_, _, rfl, hsuits.2, hcaller⟩

private theorem place_of_others (htyped : t.Typed plan.config.strategy false)
    (hret : ∀ o, t.task ≠ .ret o) : t.task.place ≠ .leading ∧ t.task.place ≠ .hiring := by
  have hstands := (htyped.stands rfl hret).2
  refine ⟨fun hleading ↦ ?_, fun hhiring ↦ ?_⟩
  · rw [hleading] at hstands
    cases (stands_leading hstands).2
  · rw [hhiring] at hstands
    obtain ⟨-, -, -, -, hcaller⟩ := stands_hiring hstands
    cases hcaller

section Workers

variable {levels total : Nat} {release : ReleasePolicy} {lead : Lead} {rest : List Shift}
  {drained outcome : Outcome Unit}

private theorem attained_hold (hstrategy : plan.config.strategy = .jobQueue levels release)
    (htyped : t.Typed plan.config.strategy false) (htask : t.task = .hold drained)
    (hready : t.isBlocked plan chance alone s = false)
    (h : Crew.Attained release total s.cohort lead (.finished drained :: rest)) :
    Crew.Attained release total (t.advance plan chance false s).shared.cohort lead
      ((t.advance plan chance false s).threads.filterMap shift? ++ rest) := by
  obtain ⟨hframes, -⟩ := stands_parting (htyped.stands htask (by simp)).2
  rw [isBlocked, htask] at hready
  rw [advance, htask]
  cases hclock : release.passesClock chance.now with
  | true =>
    simp only [hstrategy, Strategy.releasePolicy, hclock, if_true]
    have hnone (outcome : Outcome Unit) : (t.call .permit (.ret outcome)).shift? = none := by
      rw [shift?, call, hframes]
      rfl
    have hcrew : Crew.Attained release total s.cohort lead rest := h.turn (.panic hclock)
    simpa [Move.threads, hnone] using hcrew
  | false =>
    simp only [hstrategy, Strategy.releasePolicy, hclock, Bool.not_false, Bool.true_and,
      Bool.not_eq_false'] at hready
    simp only [hstrategy, Strategy.releasePolicy, hclock]
    exact h.clear hclock hready

private theorem attained_ret (htyped : t.Typed plan.config.strategy false)
    (htask : t.task = .ret outcome)
    (h : Crew.Attained release total s.cohort lead (t.shift?.toList ++ rest)) :
    Crew.Attained release total (t.advance plan chance false s).shared.cohort lead
      ((t.advance plan chance false s).threads.filterMap shift? ++ rest) := by
  have hreturns := htyped.returns htask
  cases hframes : t.frames with
  | nil =>
    rw [hframes] at hreturns
    cases hreturns
  | cons frame frames =>
    rw [hframes] at hreturns
    cases frame with
    | worker =>
      rw [shift?, htask, hframes] at h
      rw [advance, htask, hframes]
      cases outcome with
      | ok => exact h
      | error stop => cases stop <;> exact h
    | child =>
      obtain ⟨rfl, -⟩ := stands_gone hreturns.2.2
      rw [shift?, htask, hframes] at h
      rw [advance, htask, hframes]
      exact h
    | cohort => cases (stands_leading hreturns.2.2).2
    | _ => exact (isApart_of_ret htask hframes rfl rfl Frame.noConfusion).attained h

/-- A step of a thread that is not the calling one is none, one or two steps of its crew. -/
theorem attained_worker (hstrategy : plan.config.strategy = .jobQueue levels release)
    (htyped : t.Typed plan.config.strategy false)
    (hready : t.isBlocked plan chance alone s = false) (hlead : lead.rouse = lead)
    (hrest : ∀ w ∈ rest, w.rouse = w)
    (h : Crew.Attained release total s.cohort lead (t.shift?.toList ++ rest)) :
    Crew.Attained release total (t.advance plan chance false s).shared.cohort lead
      ((t.advance plan chance false s).threads.filterMap shift? ++ rest) := by
  cases htask : t.task with
  | finish drained =>
    rw [shift?, htask] at h
    rw [advance, htask]
    exact h.finish hlead hrest drained
  | hold drained =>
    rw [shift?, htask] at h
    exact attained_hold hstrategy htyped htask hready h
  | surrender drained =>
    rw [shift?, htask] at h
    rw [advance, htask]
    dsimp only
    rw [Shared.cohort_dropPermit]
    exact h.turn (.surrender drained)
  | depart drained =>
    obtain ⟨hframes, -⟩ := stands_parting (htyped.stands htask (by simp)).2
    rw [shift?, htask] at h
    rw [advance, htask]
    have hnone : (t.done drained).shift? = none := by rw [shift?, frames_done, hframes]; rfl
    simpa [Move.threads, hnone] using h.depart hlead hrest
  | ret outcome => exact attained_ret htyped htask h
  | _ =>
    have hret (o : Outcome Unit) : t.task ≠ .ret o := by simp [htask]
    obtain ⟨hleading, hhiring⟩ := place_of_others htyped hret
    exact (isApart_of_place hret (htask ▸ rfl) hleading hhiring).attained h

end Workers

/-- A calling thread that has nothing more to do for its strategy. -/
inductive IsClosing : Thread → Prop
  | back (label : String) (outcome : Outcome Unit) : IsClosing ⟨label, [.close], .ret outcome⟩
  | giveBack (label : String) (searched : Outcome Unit) : IsClosing ⟨label, [], .giveBack searched⟩
  | joinAll (label : String) (searched : Outcome Unit) : IsClosing ⟨label, [], .joinAll searched⟩
  | unwind (label message : String) : IsClosing ⟨label, [], .unwind message⟩
  | ended (label : String) (outcome : Outcome Unit) : IsClosing ⟨label, [], .ret outcome⟩

/-- A calling thread that closes its search stays so, and has nothing more to do with the cohort. -/
theorem IsClosing.advance (h : t.IsClosing) : ∃ t',
    (t.advance plan chance caller s).thread = some t' ∧ t'.IsClosing ∧
      (t.advance plan chance caller s).started = none ∧
      (t.advance plan chance caller s).shared.cohort = s.cohort := by
  cases h with
  | back label outcome =>
    cases outcome with
    | ok => exact ⟨_, rfl, .giveBack _ _, rfl, rfl⟩
    | error stop =>
      cases stop with
      | failed failure => exact ⟨_, rfl, .giveBack _ _, rfl, rfl⟩
      | panicked message => exact ⟨_, rfl, .unwind _ _, rfl, rfl⟩
  | giveBack label searched =>
    dsimp only [Thread.advance]
    split
    · exact ⟨_, rfl, .joinAll _ _, rfl, rfl⟩
    · exact ⟨_, rfl, .joinAll _ _, rfl, rfl⟩
  | joinAll label searched => exact ⟨_, rfl, .ended _ _, rfl, rfl⟩
  | unwind label message => exact ⟨_, rfl, .ended _ _, rfl, rfl⟩
  | ended label outcome => exact ⟨_, rfl, .ended _ _, rfl, rfl⟩

/-- What the calling thread is to a crew with so many workers. -/
inductive Leads (total : Nat) : Thread → Lead → Prop
  | starting (label : String) (worker : Nat) :
      Leads total ⟨label, [.close], .start worker total⟩ (.starting worker)
  | hiring {label : String} {worker : Nat} {task : Task} (hlt : worker < total)
      (hplace : task.place = .hiring) :
      Leads total ⟨label, [.started worker total, .close], task⟩ (.starting worker)
  | hired (label : String) (worker : Nat) :
      Leads total ⟨label, [.started worker total, .close], .ret (.ok ())⟩ (.starting (worker + 1))
  | refused {label : String} {worker : Nat} {cause : Failure} (hlt : worker < total) :
      Leads total ⟨label, [.started worker total, .close], .ret (Outcome.fail cause)⟩
        (.starting worker)
  | dismissing (label : String) (left unstarted : Nat) (cause : Failure) :
      Leads total ⟨label, [.close], .dismiss left unstarted cause⟩ (.dismissing left)
  | refunding (label : String) (unstarted : Nat) (cause : Failure) :
      Leads total ⟨label, [.close], .refund unstarted cause⟩ .refunding
  | draining {t : Thread} (h : t.frames.any Frame.isCohort = true) : Leads total t .draining
  | waiting (label : String) (drained : Outcome Unit) :
      Leads total ⟨label, [.close], .awaitCohort drained⟩ (.waiting false)
  | through {t : Thread} (h : t.IsClosing) : Leads total t .through
  | away {t : Thread} (h : t.IsClosing) : Leads total t .away

/-- The calling thread is awake in its crew. -/
theorem Leads.rouse_eq {total : Nat} {lead : Lead} (h : t.Leads total lead) :
    lead.rouse = lead := by
  cases h <;> rfl

private theorem isApart_of_draining (htyped : t.Typed plan.config.strategy true)
    (hcohort : t.frames.any Frame.isCohort = true) (hret : ∀ o, t.task ≠ .ret o) : t.IsApart := by
  have hstands := (htyped.stands rfl hret).2
  refine isApart_of_place hret ?_ (fun hplace ↦ ?_) fun hplace ↦ ?_
  · cases htask : t.task with
    | finish | hold | surrender | depart =>
      rw [htask] at hstands
      cases (stands_parting hstands).2
    | _ => rfl
  · rw [hplace] at hstands
    rw [(stands_leading hstands).1] at hcohort
    cases hcohort
  · rw [hplace] at hstands
    obtain ⟨worker, total, hframes, -⟩ := stands_hiring hstands
    rw [hframes] at hcohort
    cases hcohort

private theorem leads_draining {total : Nat} {release : ReleasePolicy} {staying : List Shift}
    (htyped : t.Typed plan.config.strategy true)
    (hcohort : t.frames.any Frame.isCohort = true)
    (h : Crew.Attained release total s.cohort .draining staying) :
    ∃ t' lead, (t.advance plan chance true s).thread = some t' ∧ t'.Leads total lead ∧
      Crew.Attained release total (t.advance plan chance true s).shared.cohort lead
        ((t.advance plan chance true s).started.toList.filterMap shift? ++ staying) := by
  -- While the calling thread drains, it leaves its crew alone until it comes back to the cohort.
  by_cases hback : ∃ outcome frames, t.task = .ret outcome ∧ t.frames = .cohort :: frames
  · obtain ⟨outcome, frames, htask, hframes⟩ := hback
    have hreturns := htyped.returns htask
    rw [hframes] at hreturns
    obtain ⟨rfl, -⟩ := stands_leading hreturns.2.2
    rw [advance, htask, hframes]
    cases outcome with
    | ok => exact ⟨_, _, rfl, .waiting _ _, h.turn_lead (.drained false)⟩
    | error stop =>
      cases stop with
      | failed failure => exact ⟨_, _, rfl, .waiting _ _, h.turn_lead (.drained false)⟩
      | panicked message => exact ⟨_, _, rfl, .away (.back _ _), h.turn_lead (.drained true)⟩
  · have hapart : t.IsApart := by
      by_cases hret : ∃ o, t.task = .ret o
      · obtain ⟨o, htask⟩ := hret
        have hreturns := htyped.returns htask
        cases hframes : t.frames with
        | nil =>
          rw [hframes] at hcohort
          cases hcohort
        | cons frame frames =>
          rw [hframes] at hreturns
          cases frame with
          | worker => cases (stands_parting hreturns.2.2).2
          | child => cases (stands_gone hreturns.2.2).2
          | cohort => exact absurd ⟨o, frames, htask, hframes⟩ hback
          | _ => exact isApart_of_ret htask hframes rfl rfl Frame.noConfusion
      · exact isApart_of_draining htyped hcohort (not_exists.mp hret)
    obtain ⟨t', ht', hsame, hstarted, hkept⟩ := @hapart.advance plan chance true _ s
    refine ⟨t', .draining, ht', .draining (hsame.2.2.trans hcohort), ?_⟩
    rw [hkept, hstarted]
    exact h

/-- A step of the calling thread is none or one step of its crew. -/
theorem attained_caller {levels total : Nat} {release : ReleasePolicy} {lead : Lead}
    {staying : List Shift} (hstrategy : plan.config.strategy = .jobQueue levels release)
    (htyped : t.Typed plan.config.strategy true)
    (hready : t.isBlocked plan chance alone s = false) (hawake : ∀ w ∈ staying, w.rouse = w)
    (hleads : t.Leads total lead) (h : Crew.Attained release total s.cohort lead staying) :
    ∃ t' lead', (t.advance plan chance true s).thread = some t' ∧ t'.Leads total lead' ∧
      Crew.Attained release total (t.advance plan chance true s).shared.cohort lead'
        ((t.advance plan chance true s).started.toList.filterMap shift? ++ staying) := by
  have htotal := h.workers_eq
  cases hleads with
  | starting label worker =>
    rw [advance]
    dsimp only
    split
    · next hlt =>
      refine ⟨_, _, rfl, .hiring hlt ?_, h⟩
      rw [hstrategy]
      rfl
    · next hge =>
      rw [hstrategy]
      exact ⟨_, _, rfl, .draining rfl, h.turn_lead (.started (by omega))⟩
  | @hiring label worker task hlt hplace =>
    cases task with
    | register child => exact ⟨_, _, rfl, .hiring hlt hplace, h⟩
    | launch child =>
      rw [advance]
      dsimp only
      split
      · exact ⟨_, _, rfl, .hiring hlt hplace, h⟩
      · refine ⟨_, _, rfl, .hired _ _, ?_⟩
        have hsuits := (htyped.stands rfl (by simp)).1
        obtain ⟨label, errand⟩ := child
        rw [hstrategy] at hsuits
        cases errand with
        | search pair => cases hplace
        | participate => cases hsuits
        | drain =>
          rw [Shared.cohort_note]
          exact h.hire hlt
    | retract child =>
      refine ⟨_, _, rfl, .hiring hlt hplace, ?_⟩
      rw [advance]
      dsimp only
      rw [Shared.cohort_dropPermit]
      exact h
    | unregister child => exact ⟨_, _, rfl, .refused hlt, h⟩
    | _ => cases hplace
  | hired label worker => exact ⟨_, _, rfl, .starting _ _, h⟩
  | @refused label worker cause hlt =>
    refine ⟨_, _, rfl, .dismissing _ _ _ _, ?_⟩
    have hturns := h.turn_lead (.refused (htotal ▸ hlt))
    rw [htotal] at hturns
    exact hturns
  | dismissing label left unstarted cause =>
    cases left with
    | zero => exact ⟨_, _, rfl, .refunding _ _ _, h.turn_lead .dismissed⟩
    | succ left =>
      rw [advance, hstrategy]
      exact ⟨_, _, rfl, .dismissing _ _ _ _, h.dismiss hawake⟩
  | refunding label unstarted cause =>
    rw [advance]
    dsimp only
    split
    · rw [hstrategy]
      exact ⟨_, _, rfl, .waiting _ _, h.turn_lead (.refunded false)⟩
    · exact ⟨_, _, rfl, .away (.back _ _), h.turn_lead (.refunded true)⟩
  | draining hcohort => exact leads_draining htyped hcohort h
  | waiting label drained =>
    have hall : s.cohort.allReleased = true := by simpa [isBlocked] using hready
    have hturns := h.turn_lead .look
    rw [hall] at hturns
    exact ⟨_, _, rfl, .through (.back _ _), hturns⟩
  | through hclosing =>
    obtain ⟨t', ht', hclosing', hstarted, hcohort⟩ := @hclosing.advance plan chance true _ s
    rw [hstarted, hcohort]
    exact ⟨t', _, ht', .through hclosing', h⟩
  | away hclosing =>
    obtain ⟨t', ht', hclosing', hstarted, hcohort⟩ := @hclosing.advance plan chance true _ s
    rw [hstarted, hcohort]
    exact ⟨t', _, ht', .away hclosing', h⟩

/-- A worker is awake in its crew. -/
theorem rouse_of_shift? {shift : Shift} (h : t.shift? = some shift) : shift.rouse = shift := by
  rw [Thread.shift?] at h
  cases hshift : t.task.shift? with
  | some shift' =>
    rw [hshift] at h
    cases h
    revert hshift
    cases t.task <;> rintro ⟨⟩ <;> rfl
  | none =>
    rw [hshift] at h
    change (if _ then _ else _) = some shift at h
    split at h <;> cases h
    rfl

/-- A calling thread that has not recruited workers, and may never do so. -/
def IsAhead (t : Thread) : Prop :=
  t.task.opens = true ∨ (∃ queued, t.task = .recruit queued) ∨ t.IsClosing

/-- The calling thread recruits workers, or leaves the cohort alone. -/
theorem isAhead_advance {levels : Nat} {release : ReleasePolicy}
    (hstrategy : plan.config.strategy = .jobQueue levels release)
    (htyped : t.Typed plan.config.strategy true) (h : t.IsAhead) :
    ∃ t', (t.advance plan chance true s).thread = some t' ∧
      (t.advance plan chance true s).started = none ∧
      ((t'.IsAhead ∧ (t.advance plan chance true s).shared.cohort = s.cohort) ∨
        ∃ workers, t'.Leads workers (.starting 0) ∧
          (t.advance plan chance true s).shared.cohort = Cohort.ofWorkers workers) := by
  rcases h with hopens | ⟨queued, htask⟩ | hclosing
  · have hstands (hret : ∀ o, t.task ≠ .ret o) := htyped.stands rfl hret
    rcases t with ⟨label, frames, task⟩
    cases task with
    | acquire =>
      obtain ⟨rfl, -⟩ := stands_main (hstands (by simp)).2
      rw [advance]
      dsimp only
      split
      · exact ⟨_, rfl, rfl, .inl ⟨.inl rfl, rfl⟩⟩
      · exact ⟨_, rfl, rfl, .inl ⟨.inr (.inr (.ended _ _)), rfl⟩⟩
    | schedule =>
      refine ⟨_, rfl, rfl, .inl ⟨.inl ?_, rfl⟩⟩
      rw [openingTask, hstrategy]
      rfl
    | expand =>
      obtain ⟨rfl, -⟩ := stands_leading (hstands (by simp)).2
      rw [advance]
      dsimp only
      split
      · exact ⟨_, rfl, rfl, .inl ⟨.inr (.inr (.back _ _)), rfl⟩⟩
      · exact ⟨_, rfl, rfl, .inl ⟨.inr (.inl ⟨_, rfl⟩), rfl⟩⟩
    | assemble | seed =>
      have hsuits := (hstands (by simp)).1
      rw [hstrategy] at hsuits
      cases hsuits
    | _ => cases hopens
  · obtain ⟨hframes, -⟩ := stands_leading (htyped.stands htask (by simp)).2
    rcases t with ⟨label, frames, task⟩
    cases htask
    cases hframes
    refine ⟨_, rfl, rfl, .inr ⟨_, .starting _ _, ?_⟩⟩
    exact Shared.cohort_note _ true _
  · obtain ⟨t', ht', hclosing', hstarted, hcohort⟩ := @hclosing.advance plan chance true _ s
    exact ⟨t', ht', hstarted, .inl ⟨.inr (.inr hclosing'), hcohort⟩⟩

end Thread

namespace Machine

variable {plan : Plan} {m : Machine} {levels : Nat} {release : ReleasePolicy}

/-- A crew is to the cohort, to the calling thread and to the workers of a search what they are. -/
def Staffed (release : ReleasePolicy) (m : Machine) : Prop :=
  ∃ lead, m.caller.Leads m.shared.cohort.workers lead ∧
    Crew.Attained release m.shared.cohort.workers m.shared.cohort lead
      (m.workers.filterMap Thread.shift?)

private theorem rouse_of_mem {ts : List Thread} :
    ∀ w ∈ ts.filterMap Thread.shift?, w.rouse = w := fun w hw ↦ by
  obtain ⟨t, -, ht⟩ := List.mem_filterMap.mp hw
  exact Thread.rouse_of_shift? ht

/-- In a search with a job queue, whatever the cohort and its threads may come to, a crew may. -/
theorem staffed (hstrategy : plan.config.strategy = .jobQueue levels release)
    (h : Reachable plan m) :
    (m.caller.IsAhead ∧ m.workers = [] ∧ m.shared.cohort = {}) ∨ m.Staffed release := by
  refine h.induction (.inl ⟨.inl rfl, rfl, rfl⟩) fun {m m' chance t} _ htyped hmoved ih ↦ ?_
  cases hmoved with
  | @caller t s started hready hmove =>
    rcases ih with ⟨hahead, hworkers, hcohort⟩ | ⟨lead, hleads, hcrew⟩
    · obtain ⟨t', ht', hstarted, hnext⟩ :=
        @Thread.isAhead_advance plan chance _ m.shared _ _ hstrategy htyped.caller hahead
      rw [hmove] at ht' hstarted hnext
      cases ht'
      obtain rfl : started = none := hstarted
      rcases hnext with ⟨hahead', hsame⟩ | ⟨workers, hleads, hrecruited⟩
      · exact .inl ⟨hahead', by rw [hworkers]; rfl, hsame.trans hcohort⟩
      · refine .inr ⟨.starting 0, ?_, ?_⟩
        · rw [hrecruited]
          exact hleads
        · rw [hrecruited, hworkers]
          exact ⟨_, .start, rfl, rfl, .refl _⟩
    · obtain ⟨t', lead', ht', hleads', hcrew'⟩ :=
        Thread.attained_caller hstrategy htyped.caller hready rouse_of_mem hleads hcrew
      rw [hmove] at ht' hcrew'
      cases ht'
      refine .inr ⟨lead', ?_, ?_⟩
      · rw [hcrew'.workers_eq]
        exact hleads'
      · rw [hcrew'.workers_eq, List.filterMap_append]
        exact hcrew'.perm List.perm_append_comm
  | @worker before after t move hworkers hready hmove =>
    subst hmove
    rcases ih with ⟨-, hnone, -⟩ | ⟨lead, hleads, hcrew⟩
    · rw [hnone] at hworkers
      simp at hworkers
    · have hperm : (m.workers.filterMap Thread.shift?).Perm
          (t.shift?.toList ++ (before ++ after).filterMap Thread.shift?) := by
        have hfirst : m.workers.Perm (t :: (before ++ after)) := hworkers ▸ List.perm_middle
        refine (hfirst.filterMap _).trans (.of_eq ?_)
        rw [List.filterMap_cons]
        cases t.shift? <;> rfl
      have hcrew' := Thread.attained_worker hstrategy
        (htyped.workers t (hworkers ▸ by simp)) hready hleads.rouse_eq rouse_of_mem
        (hcrew.perm hperm)
      refine .inr ⟨lead, ?_, ?_⟩
      · rw [hcrew'.workers_eq]
        exact hleads
      · rw [hcrew'.workers_eq]
        refine hcrew'.perm ?_
        rw [← List.filterMap_append]
        exact (splice_perm _ _ _ _).symm.filterMap _

/-- The counts of a cohort stay in order, whatever a search may come to. -/
theorem cohort_counts (hstrategy : plan.config.strategy = .jobQueue levels release)
    (h : Reachable plan m) : m.shared.cohort.released ≤ m.shared.cohort.finished ∧
      m.shared.cohort.finished ≤ m.shared.cohort.workers := by
  rcases staffed hstrategy h with ⟨-, -, hcohort⟩ | ⟨-, -, c, hc, hcohort, -⟩
  · rw [hcohort]
    exact ⟨Nat.le_refl _, Nat.le_refl _⟩
  · exact hcohort ▸ hc.orderly.counts

end Machine
end RayAdjacency
