import RayAdjacency.Proofs.Sharing.Roster
import RayAdjacency.Sharing.Crew

/-!
# A cohort and its crew

Every worker of a cohort is on its way: the calling thread is still to start it or to sign it off,
or it has been started and drains, holds or departs, or is lost. `Crew.Orderly` counts those who have not
finished and those who have not released against the numbers of the cohort. Whoever sleeps would
have to sleep on, since every change of the cohort wakes all. If the calling thread cannot go on,
some worker has not departed; if none of those can go on either, none is draining, so all have
finished, and no release policy holds a worker back then.
-/

namespace RayAdjacency

/-- Once all have finished, every policy lets a worker go. -/
theorem Cohort.mayRelease_of_le {c : Cohort} (h : c.workers ≤ c.finished) (policy : ReleasePolicy) :
    c.mayRelease policy false = true := by
  cases policy with
  | immediate => rfl
  | waitHalfDone =>
    rw [mayRelease, decide_eq_true_eq]
    omega
  | timeout limit => rw [mayRelease, decide_eq_true h, Bool.true_or]

/-- Only a time limit can be too long for the clock. -/
theorem ReleasePolicy.exists_of_passesClock (policy : ReleasePolicy) {now : Duration}
    (h : policy.passesClock now = true) : ∃ limit, policy = .timeout limit := by
  cases policy with
  | timeout limit => exact ⟨limit, rfl⟩
  | _ => cases h

namespace Shift

/-- Whether a worker has not finished. -/
def isDraining : Shift → Bool
  | draining => true
  | _ => false

/-- Whether a worker has not released. -/
def isStaying : Shift → Bool
  | departed _ => false
  | _ => true

/-- Whether a worker is past its hold. -/
def isPast : Shift → Bool
  | draining | finished _ | holding .. => false
  | _ => true

/-- Whether a worker has given its permit back. -/
def hasSurrendered : Shift → Bool
  | surrendered _ | departed _ => true
  | lost unwound => unwound
  | _ => false

/-- Whether a worker may look at the cohort next: it has woken in its hold, or it begins its hold at
a moment from which the clock can show the end of the wait. -/
inductive Looks (policy : ReleasePolicy) (drained : Outcome Unit) : Shift → Prop
  | begins {now : Duration} (hclock : policy.passesClock now = false) :
      Looks policy drained (.finished drained)
  | woken : Looks policy drained (.holding false drained)

/-- What a worker does on its own; it looks at the cohort in its hold. -/
inductive Turns (policy : ReleasePolicy) (c : Cohort) : Shift → Shift → Prop
  | clear {shift : Shift} {drained : Outcome Unit} (hlooks : shift.Looks policy drained)
      (h : c.mayRelease policy false = true) : Turns policy c shift (.cleared drained)
  | sleep {shift : Shift} {drained : Outcome Unit} (hlooks : shift.Looks policy drained)
      (h : c.mayRelease policy false = false) : Turns policy c shift (.holding true drained)
  | panic {now : Duration} {drained : Outcome Unit} (hclock : policy.passesClock now = true) :
      Turns policy c (.finished drained) (.lost false)
  | expire {drained : Outcome Unit} (h : ∃ limit, policy = .timeout limit) :
      Turns policy c (.holding true drained) (.cleared drained)
  | wake (drained : Outcome Unit) : Turns policy c (.holding true drained) (.holding false drained)
  | surrender (drained : Outcome Unit) : Turns policy c (.cleared drained) (.surrendered drained)
  | unwind : Turns policy c (.lost false) (.lost true)

variable {policy : ReleasePolicy} {c : Cohort} {shift shift' : Shift}

/-- Waking a worker does not make it drain. -/
@[simp] theorem isDraining_rouse (shift : Shift) : shift.rouse.isDraining = shift.isDraining := by
  cases shift <;> rfl

/-- Waking a worker does not make it release. -/
@[simp] theorem isStaying_rouse (shift : Shift) : shift.rouse.isStaying = shift.isStaying := by
  cases shift <;> rfl

/-- Waking a worker does not take it past its hold. -/
@[simp] theorem isPast_rouse (shift : Shift) : shift.rouse.isPast = shift.isPast := by
  cases shift <;> rfl

/-- A worker that has been woken does not sleep. -/
theorem rouse_ne_asleep (shift : Shift) (drained : Outcome Unit) :
    shift.rouse ≠ .holding true drained := by
  cases shift <;> simp [rouse]

/-- A worker that drains has not released. -/
theorem isStaying_of_isDraining (h : shift.isDraining = true) : shift.isStaying = true := by
  cases shift <;> first | rfl | cases h

/-- A worker that has given its permit back is past its hold. -/
theorem isPast_of_hasSurrendered (h : shift.hasSurrendered = true) : shift.isPast = true := by
  cases shift <;> first | rfl | cases h

/-- A worker that turns on its own has finished before, and releases later. -/
theorem Turns.counts (h : Turns policy c shift shift') :
    shift.isDraining = false ∧ shift'.isDraining = false ∧
      shift.isStaying = true ∧ shift'.isStaying = true := by
  cases h with
  | clear hlooks | sleep hlooks => cases hlooks <;> exact ⟨rfl, rfl, rfl, rfl⟩
  | _ => exact ⟨rfl, rfl, rfl, rfl⟩

/-- A worker that gets past its hold has seen enough, or its time has run out. -/
theorem Turns.isPast (h : Turns policy c shift shift') (hpast : shift'.isPast = true) :
    shift.isPast = true ∨ c.mayRelease policy false = true ∨ ∃ limit, policy = .timeout limit := by
  cases h with
  | clear _ h => exact .inr (.inl h)
  | expire h => exact .inr (.inr h)
  | panic hclock => exact .inr (.inr (policy.exists_of_passesClock hclock))
  | surrender | unwind => exact .inl rfl
  | sleep | wake => cases hpast

/-- A worker that goes to sleep has seen that it may not release. -/
theorem Turns.asleep {drained : Outcome Unit} (h : Turns policy c shift (.holding true drained)) :
    c.mayRelease policy false = false := by
  cases h with
  | sleep _ h => exact h

end Shift

namespace Lead

/-- The number of workers that are still to be started or signed off. -/
def unstarted (workers : Nat) : Lead → Nat
  | starting worker => workers - worker
  | dismissing left => left
  | _ => 0

/-- What the calling thread does on its own; it looks at the cohort in its wait. -/
inductive Turns (c : Cohort) : Lead → Lead → Prop
  | refused {worker : Nat} (h : worker < c.workers) :
      Turns c (.starting worker) (.dismissing (c.workers - worker))
  | started {worker : Nat} (h : c.workers ≤ worker) : Turns c (.starting worker) .draining
  | dismissed : Turns c (.dismissing 0) .refunding
  | refunded (refused : Bool) : Turns c .refunding (if refused then .away else .waiting false)
  | drained (panicked : Bool) : Turns c .draining (if panicked then .away else .waiting false)
  | look : Turns c (.waiting false) (if c.allReleased then .through else .waiting true)
  | wake : Turns c (.waiting true) (.waiting false)

variable {c : Cohort} {lead lead' : Lead}

/-- Waking the calling thread starts and signs off nobody. -/
@[simp] theorem unstarted_rouse (workers : Nat) (lead : Lead) :
    lead.rouse.unstarted workers = lead.unstarted workers := by
  cases lead <;> rfl

/-- A calling thread that has been woken does not sleep. -/
theorem rouse_ne_asleep (lead : Lead) : lead.rouse ≠ .waiting true := by
  cases lead <;> simp [rouse]

/-- Waking the calling thread does not end its wait. -/
theorem rouse_eq_through (h : lead.rouse = .through) : lead = .through := by
  cases lead <;> first | rfl | cases h

/-- Nobody is started or signed off meanwhile. -/
theorem Turns.unstarted_eq (h : Turns c lead lead') :
    lead'.unstarted c.workers = lead.unstarted c.workers := by
  cases h with
  | refused | dismissed | wake => rfl
  | started h => exact (Nat.sub_eq_zero_of_le h).symm
  | refunded refused => cases refused <;> rfl
  | drained panicked => cases panicked <;> rfl
  | look => split <;> rfl

/-- Only a look lets the calling thread sleep or go. -/
theorem Turns.looked (h : Turns c lead lead') :
    (lead' = .waiting true → c.allReleased = false) ∧ (lead' = .through → c.allReleased = true) := by
  cases h with
  | refused | dismissed | wake | started => exact ⟨by simp, by simp⟩
  | refunded refused => cases refused <;> exact ⟨by simp, by simp⟩
  | drained panicked => cases panicked <;> exact ⟨by simp, by simp⟩
  | look => cases c.allReleased <;> exact ⟨by simp, by simp⟩

end Lead

namespace Crew

variable {policy : ReleasePolicy} {workers : Nat} {c c' : Crew} {act : CrewStep}

/-! ### Steps -/

/-- What one step does, by what it does to the cohort. -/
inductive Turned (policy : ReleasePolicy) (c : Crew) : Crew → Prop
  | led {lead : Lead} (h : c.lead.Turns c.cohort lead) : Turned policy c { c with lead }
  | hired {worker : Nat} (h : c.lead = .starting worker) (hlt : worker < c.cohort.workers) :
      Turned policy c
        { c with lead := .starting (worker + 1), workers := c.workers ++ [.draining] }
  | dismissed {left : Nat} (h : c.lead = .dismissing (left + 1)) :
      Turned policy c ({ c with lead := .dismissing left }.change c.cohort.abandon)
  | finished {i : Nat} {drained : Outcome Unit} (h : c.workers[i]? = some .draining) :
      Turned policy c ((c.setWorker i (.finished drained)).change c.cohort.finish)
  | turned {i : Nat} {shift shift' : Shift} (h : c.workers[i]? = some shift)
      (hturns : shift.Turns policy c.cohort shift') : Turned policy c (c.setWorker i shift')
  | departed {i : Nat} {drained : Outcome Unit} (h : c.workers[i]? = some (.surrendered drained)) :
      Turned policy c ((c.setWorker i (.departed drained)).change c.cohort.release)

/-- A worker that looks whether it may release turns on its own. -/
theorem turned_await {i : Nat} {shift : Shift} {drained : Outcome Unit}
    (h : c.workers[i]? = some shift) (hlooks : shift.Looks policy drained) :
    Turned policy c (c.await policy i drained) := by
  unfold await
  split
  · next hmay => exact .turned h (.clear hlooks hmay)
  · next hmay => exact .turned h (.sleep hlooks (Bool.eq_false_iff.mpr hmay))

/-- Whatever step is taken, it is one of these. -/
theorem turned_of_step (hstep : c.step policy act = some c') : Turned policy c c' := by
  have hlead {lead lead' : Lead} (h : c.lead = lead) (hturns : lead.Turns c.cohort lead') :
      Turned policy c { c with lead := lead' } :=
    .led (h ▸ hturns)
  cases act with
  | start refused =>
    rw [step] at hstep
    split at hstep
    · next worker h =>
      split at hstep
      · next hlt =>
        cases refused <;> cases hstep
        · exact .hired h hlt
        · exact hlead h (.refused hlt)
      · next hge =>
        cases hstep
        exact hlead h (.started (Nat.le_of_not_lt hge))
    · cases hstep
  | dismiss =>
    rw [step] at hstep
    split at hstep <;> cases hstep
    · exact .dismissed ‹_›
    · exact hlead ‹_› .dismissed
  | refund refused =>
    rw [step] at hstep
    split at hstep <;> cases hstep
    exact hlead ‹_› (.refunded refused)
  | drain panicked =>
    rw [step] at hstep
    split at hstep <;> cases hstep
    exact hlead ‹_› (.drained panicked)
  | look =>
    rw [step] at hstep
    split at hstep <;> cases hstep
    exact hlead ‹_› .look
  | wake =>
    rw [step] at hstep
    split at hstep <;> cases hstep
    exact hlead ‹_› .wake
  | finish i drained =>
    rw [step] at hstep
    split at hstep <;> cases hstep
    exact .finished ‹_›
  | hold i now =>
    rw [step] at hstep
    split at hstep
    · next h =>
      split at hstep <;> cases hstep
      · next hclock => exact .turned h (.panic hclock)
      · next hclock => exact turned_await h (.begins (Bool.eq_false_iff.mpr hclock))
    · cases hstep
  | check i =>
    rw [step] at hstep
    split at hstep <;> cases hstep
    exact turned_await ‹_› .woken
  | expire i =>
    unfold step at hstep
    dsimp only at hstep
    split at hstep <;> cases hstep
    exact .turned ‹_› (.expire ⟨_, rfl⟩)
  | rouse i =>
    rw [step] at hstep
    split at hstep <;> cases hstep
    exact .turned ‹_› (.wake _)
  | surrender i =>
    rw [step] at hstep
    split at hstep <;> cases hstep
    · exact .turned ‹_› (.surrender _)
    · exact .turned ‹_› .unwind
  | depart i =>
    rw [step] at hstep
    split at hstep <;> cases hstep
    exact .departed ‹_›

/-- What is true of a crew between two steps. -/
structure Orderly (policy : ReleasePolicy) (workers : Nat) (c : Crew) : Prop where
  size : c.cohort.workers = workers
  /-- Who has not finished drains, or is still to be started. -/
  finished : c.cohort.finished + c.workers.countP Shift.isDraining + c.lead.unstarted workers =
    workers
  /-- Who has not released stays, or is still to be started. -/
  released : c.cohort.released + c.workers.countP Shift.isStaying + c.lead.unstarted workers =
    workers
  half : policy = .waitHalfDone → ∀ w ∈ c.workers, w.isPast = true →
    workers ≤ 2 * c.cohort.finished
  asleep : ∀ drained, .holding true drained ∈ c.workers → c.cohort.mayRelease policy false = false
  waiting : c.lead = .waiting true → c.cohort.allReleased = false
  through : c.lead = .through → c.cohort.allReleased = true

/-- A new cohort is in order. -/
theorem orderly_ofWorkers (policy : ReleasePolicy) (workers : Nat) :
    (ofWorkers workers).Orderly policy workers where
  size := rfl
  finished := by simp [ofWorkers, Cohort.ofWorkers, Lead.unstarted]
  released := by simp [ofWorkers, Cohort.ofWorkers, Lead.unstarted]
  half _ w hw := absurd hw List.not_mem_nil
  asleep _ hw := absurd hw List.not_mem_nil
  waiting := Lead.noConfusion
  through := Lead.noConfusion

namespace Orderly

/-- No more workers have released than have finished, and no more have finished than there are. -/
theorem counts (h : c.Orderly policy workers) :
    c.cohort.released ≤ c.cohort.finished ∧ c.cohort.finished ≤ c.cohort.workers := by
  have hle : c.workers.countP Shift.isDraining ≤ c.workers.countP Shift.isStaying :=
    List.countP_mono_left fun _ _ ↦ Shift.isStaying_of_isDraining
  have hfinished := h.finished
  have hreleased := h.released
  rw [h.size]
  omega

/-- A change of the cohort that the counts keep up with keeps a crew in order, since it wakes all. -/
theorem change {cohort : Cohort} (h : c.Orderly policy workers) {c₀ : Crew}
    (hlead : c₀.lead = .through → c.lead = .through)
    (hsize : cohort.workers = workers)
    (hfinished : cohort.finished + c₀.workers.countP Shift.isDraining + c₀.lead.unstarted workers =
      workers)
    (hreleased : cohort.released + c₀.workers.countP Shift.isStaying + c₀.lead.unstarted workers =
      workers)
    (hpast : ∀ w ∈ c₀.workers, w.isPast = true → ∃ w ∈ c.workers, w.isPast = true)
    (hmono : c.cohort.finished ≤ cohort.finished ∧ c.cohort.released ≤ cohort.released) :
    (c₀.change cohort).Orderly policy workers where
  size := hsize
  finished := by simpa [Crew.change, List.countP_map, Function.comp_def] using hfinished
  released := by simpa [Crew.change, List.countP_map, Function.comp_def] using hreleased
  half hpolicy w hw hwpast := by
    obtain ⟨v, hv, rfl⟩ := List.mem_map.mp hw
    rw [Shift.isPast_rouse] at hwpast
    obtain ⟨u, hu, hupast⟩ := hpast v hv hwpast
    exact Nat.le_trans (h.half hpolicy u hu hupast) (Nat.mul_le_mul_left 2 hmono.1)
  asleep drained hw := by
    obtain ⟨v, -, hv⟩ := List.mem_map.mp hw
    exact absurd hv (v.rouse_ne_asleep drained)
  waiting hasleep := absurd hasleep (Lead.rouse_ne_asleep _)
  through hthrough := by
    have hall := h.through (hlead (Lead.rouse_eq_through hthrough))
    rw [Cohort.allReleased, decide_eq_true_eq] at hall ⊢
    have := h.size
    show cohort.workers ≤ cohort.released
    omega

/-- A calling thread that goes on by itself keeps the order. -/
theorem led {lead : Lead} (h : c.Orderly policy workers)
    (hturns : c.lead.Turns c.cohort lead) : Crew.Orderly policy workers { c with lead } := by
  have hunstarted := hturns.unstarted_eq
  rw [h.size] at hunstarted
  exact { h with
    finished := hunstarted.symm ▸ h.finished
    released := hunstarted.symm ▸ h.released
    waiting := hturns.looked.1
    through := hturns.looked.2 }

/-- A worker that is started keeps the order. -/
theorem hired {worker : Nat} (h : c.Orderly policy workers) (hstarting : c.lead = .starting worker)
    (hlt : worker < c.cohort.workers) :
    Crew.Orderly policy workers
      { c with lead := .starting (worker + 1), workers := c.workers ++ [.draining] } := by
  have hfinished := h.finished
  have hreleased := h.released
  rw [h.size] at hlt
  rw [hstarting, Lead.unstarted] at hfinished hreleased
  refine ⟨h.size, ?_, ?_, fun hpolicy w hw hpast ↦ ?_, fun drained hw ↦ ?_, by simp, by simp⟩
  · have hnew : [Shift.draining].countP Shift.isDraining = 1 := rfl
    rw [List.countP_append, hnew, Lead.unstarted]
    dsimp only
    omega
  · have hnew : [Shift.draining].countP Shift.isStaying = 1 := rfl
    rw [List.countP_append, hnew, Lead.unstarted]
    dsimp only
    omega
  · rcases List.mem_append.mp hw with hold | hnew
    · exact h.half hpolicy w hold hpast
    · obtain rfl := List.mem_singleton.mp hnew
      cases hpast
  · rcases List.mem_append.mp hw with hold | hnew
    · exact h.asleep drained hold
    · cases List.mem_singleton.mp hnew

/-- A worker that is signed off keeps the order. -/
theorem dismissed {left : Nat} (h : c.Orderly policy workers)
    (hdismissing : c.lead = .dismissing (left + 1)) :
    ({ c with lead := .dismissing left }.change c.cohort.abandon).Orderly policy workers := by
  have hfinished := h.finished
  have hreleased := h.released
  rw [hdismissing, Lead.unstarted] at hfinished hreleased
  refine h.change (by simp) h.size ?_ ?_ (fun w hw hpast ↦ ⟨w, hw, hpast⟩)
    ⟨Nat.le_succ _, Nat.le_succ _⟩
  · show c.cohort.finished + 1 + c.workers.countP _ + left = workers
    omega
  · show c.cohort.released + 1 + c.workers.countP _ + left = workers
    omega

/-- A worker that comes to the end of its drain keeps the order. -/
theorem finishes {i : Nat} (h : c.Orderly policy workers) (hi : c.workers[i]? = some .draining)
    (drained : Outcome Unit) :
    ((c.setWorker i (.finished drained)).change c.cohort.finish).Orderly policy workers := by
  have hdraining := Roster.countP_set_add hi Shift.isDraining (.finished drained)
  have hstaying := Roster.countP_set_add hi Shift.isStaying (.finished drained)
  have hfinished := h.finished
  have hreleased := h.released
  simp only [Shift.isDraining, Shift.isStaying, if_true, Bool.false_eq_true, if_false]
    at hdraining hstaying
  refine h.change id h.size ?_ ?_ (fun w hw hpast ↦ ?_) ⟨Nat.le_succ _, Nat.le_refl _⟩
  · show c.cohort.finished + 1 + (c.workers.set i _).countP _ + c.lead.unstarted workers = workers
    omega
  · show c.cohort.released + (c.workers.set i _).countP _ + c.lead.unstarted workers = workers
    omega
  · rcases List.mem_or_eq_of_mem_set hw with hold | rfl
    · exact ⟨w, hold, hpast⟩
    · cases hpast

/-- A worker that releases keeps the order. -/
theorem departed {i : Nat} {drained : Outcome Unit} (h : c.Orderly policy workers)
    (hi : c.workers[i]? = some (.surrendered drained)) :
    ((c.setWorker i (.departed drained)).change c.cohort.release).Orderly policy workers := by
  have hdraining := Roster.countP_set_add hi Shift.isDraining (.departed drained)
  have hstaying := Roster.countP_set_add hi Shift.isStaying (.departed drained)
  have hfinished := h.finished
  have hreleased := h.released
  simp only [Shift.isDraining, Shift.isStaying, if_true, Bool.false_eq_true, if_false]
    at hdraining hstaying
  refine h.change id h.size ?_ ?_ (fun w hw hpast ↦ ?_) ⟨Nat.le_refl _, Nat.le_succ _⟩
  · show c.cohort.finished + (c.workers.set i _).countP _ + c.lead.unstarted workers = workers
    omega
  · show c.cohort.released + 1 + (c.workers.set i _).countP _ + c.lead.unstarted workers = workers
    omega
  · rcases List.mem_or_eq_of_mem_set hw with hold | rfl
    · exact ⟨w, hold, hpast⟩
    · exact ⟨_, List.mem_of_getElem? hi, rfl⟩

/-- A worker that turns on its own changes no count, and has seen what it goes by. -/
theorem turns {i : Nat} {shift shift' : Shift} (h : c.Orderly policy workers)
    (hi : c.workers[i]? = some shift) (hturns : shift.Turns policy c.cohort shift') :
    (c.setWorker i shift').Orderly policy workers := by
  obtain ⟨hdraining, hdraining', hstaying, hstaying'⟩ := hturns.counts
  have hcount := Roster.countP_set_add hi Shift.isDraining shift'
  have hcount' := Roster.countP_set_add hi Shift.isStaying shift'
  rw [hdraining, hdraining', Nat.add_right_cancel_iff] at hcount
  rw [hstaying, hstaying', Nat.add_right_cancel_iff] at hcount'
  refine ⟨h.size, ?_, ?_, fun hpolicy w hw hpast ↦ ?_, fun drained hw ↦ ?_, h.waiting, h.through⟩
  · exact (congrArg (c.cohort.finished + · + c.lead.unstarted workers) hcount).trans h.finished
  · exact (congrArg (c.cohort.released + · + c.lead.unstarted workers) hcount').trans h.released
  · rcases List.mem_or_eq_of_mem_set hw with hold | rfl
    · exact h.half hpolicy w hold hpast
    · rcases hturns.isPast hpast with hbefore | hmay | ⟨limit, htimeout⟩
      · exact h.half hpolicy shift (List.mem_of_getElem? hi) hbefore
      · rw [hpolicy, Cohort.mayRelease, decide_eq_true_eq, h.size] at hmay
        rwa [Nat.mul_comm]
      · rw [hpolicy] at htimeout
        cases htimeout
  · rcases List.mem_or_eq_of_mem_set hw with hold | hnew
    · exact h.asleep drained hold
    · exact (hnew ▸ hturns).asleep

/-- Every step keeps a crew in order. -/
theorem turned (h : c.Orderly policy workers) (hturned : Turned policy c c') :
    c'.Orderly policy workers := by
  cases hturned with
  | led hturns => exact h.led hturns
  | hired hstarting hlt => exact h.hired hstarting hlt
  | dismissed hdismissing => exact h.dismissed hdismissing
  | finished hi => exact h.finishes hi _
  | turned hi hturns => exact h.turns hi hturns
  | departed hi => exact h.departed hi

end Orderly

/-- What can be reached is in order. -/
theorem Reachable.orderly (h : Reachable policy workers c) : c.Orderly policy workers := by
  induction h with
  | start => exact orderly_ofWorkers policy workers
  | step _ hstep ih => exact ih.turned (turned_of_step hstep)

/-! ### The whole -/

/-- Whether the calling thread cannot get on with its wait: it sleeps, or would go to sleep. -/
def IsHeldUp (c : Crew) : Prop :=
  ∃ asleep, c.lead = .waiting asleep ∧ (asleep = true ∨ c.cohort.allReleased = false)

/-- Whether a worker cannot get on with its hold: it sleeps, or would go to sleep. -/
def Holds (policy : ReleasePolicy) (c : Crew) (shift : Shift) : Prop :=
  ∃ drained, shift = .holding true drained ∨
    (shift = .finished drained ∨ shift = .holding false drained) ∧
      c.cohort.mayRelease policy false = false

/-- If all who stay are held back, so would be those who may go. -/
theorem Orderly.not_isHeldUp (h : c.Orderly policy workers)
    (hholds : ∀ w ∈ c.workers, w.isStaying = true → c.Holds policy w) : ¬c.IsHeldUp := by
  rintro ⟨asleep, hlead, hheld⟩
  have hall : c.cohort.allReleased = false := by
    rcases hheld with rfl | hheld
    · exact h.waiting hlead
    · exact hheld
  have hfinished := h.finished
  have hreleased := h.released
  simp only [hlead, Lead.unstarted, Nat.add_zero] at hfinished hreleased
  -- Nobody drains, since whoever does so is not held back.
  have hdraining : c.workers.countP Shift.isDraining = 0 := by
    refine List.countP_eq_zero.mpr fun w hw hdraining ↦ ?_
    obtain ⟨drained, rfl | ⟨rfl | rfl, -⟩⟩ :=
      hholds w hw (Shift.isStaying_of_isDraining hdraining) <;> cases hdraining
  have hmay : c.cohort.mayRelease policy false = true :=
    Cohort.mayRelease_of_le (by rw [h.size]; omega) policy
  -- So nobody stays, since whoever does so may release, and is awake.
  have hstaying : c.workers.countP Shift.isStaying = 0 := by
    refine List.countP_eq_zero.mpr fun w hw hstaying ↦ ?_
    have hnot : c.cohort.mayRelease policy false = false := by
      obtain ⟨drained, rfl | ⟨-, hnot⟩⟩ := hholds w hw hstaying
      · exact h.asleep drained hw
      · exact hnot
    rw [hmay] at hnot
    cases hnot
  rw [Cohort.allReleased, decide_eq_false_iff_not, h.size] at hall
  omega

/-- What a cohort is to its crew. -/
structure Latches (policy : ReleasePolicy) (workers : Nat) : Prop where
  /-- No more workers have released than have finished, and no more have finished than there are. -/
  counts : ∀ {c : Crew}, Reachable policy workers c → c.cohort.workers = workers ∧
    c.cohort.released ≤ c.cohort.finished ∧ c.cohort.finished ≤ c.cohort.workers
  /-- Where workers wait for half of them, none has given its permit back before. -/
  half : ∀ {c : Crew}, Reachable policy workers c → policy = .waitHalfDone →
    ∀ w ∈ c.workers, w.hasSurrendered = true → workers ≤ 2 * c.cohort.finished
  /-- When the wait of the calling thread has returned, all workers have given their permits back. -/
  waits : ∀ {c : Crew}, Reachable policy workers c → c.lead = .through →
    ∀ w ∈ c.workers, w.hasSurrendered = true
  /-- Whoever sleeps would go to sleep again. -/
  asleep : ∀ {c : Crew}, Reachable policy workers c →
    (c.lead = .waiting true → c.cohort.allReleased = false) ∧
      ∀ drained, .holding true drained ∈ c.workers → c.cohort.mayRelease policy false = false
  /-- The calling thread is not held up by workers that are all held back. -/
  lively : ∀ {c : Crew}, Reachable policy workers c →
    ¬(c.IsHeldUp ∧ ∀ w ∈ c.workers, w.isStaying = true → c.Holds policy w)

/-- Every cohort is so to its crew, by any policy. -/
theorem latches (policy : ReleasePolicy) (workers : Nat) : Latches policy workers where
  counts h := ⟨h.orderly.size, h.orderly.counts⟩
  half h hpolicy w hw hsurrendered :=
    h.orderly.half hpolicy w hw (Shift.isPast_of_hasSurrendered hsurrendered)
  waits {c} h hthrough w hw := by
    have hall := h.orderly.through hthrough
    have hreleased := h.orderly.released
    rw [Cohort.allReleased, decide_eq_true_eq, h.orderly.size] at hall
    have hstaying : c.workers.countP Shift.isStaying = 0 := by omega
    have hw := List.countP_eq_zero.mp hstaying w hw
    cases w <;> first | rfl | exact absurd rfl hw
  asleep h := ⟨h.orderly.waiting, h.orderly.asleep⟩
  lively h := fun ⟨hheld, hholds⟩ ↦ h.orderly.not_isHeldUp hholds hheld

/-- Of two workers the second is refused. The first finishes meanwhile, is not held since the second
counts as finished, and lets the calling thread go on. -/
example :
    ([.start false, .start true, .dismiss, .finish 0 (.ok ()), .dismiss, .refund false, .look,
      .hold 0 .zero, .surrender 0, .depart 0, .look] : List CrewStep).foldlM (step .waitHalfDone)
      (ofWorkers 2) =
    some { cohort := ⟨2, 2, 2⟩, lead := .through, workers := [.departed (.ok ())] } := rfl

end Crew
end RayAdjacency
