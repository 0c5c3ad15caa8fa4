import RayAdjacency.Proofs.Computation
import RayAdjacency.Proofs.Traversal.Accounts

/-!
# The jobs of a search

A job is a node pair that goes through the queue. Jobs are taken in the order in which they were
queued; a job that has been taken is run, or, once the search is aborted, skipped. `Machine.Logs`
is a run of any length with the log of its jobs.
-/

namespace RayAdjacency

/-- What has happened to the jobs of a search, in the order in which it happened. -/
structure JobLog where
  queued : List NodePair := []
  taken : List NodePair := []
  ran : List NodePair := []
  skipped : List NodePair := []

namespace JobLog

/-- One log after the other. -/
def append (a b : JobLog) : JobLog where
  queued := a.queued ++ b.queued
  taken := a.taken ++ b.taken
  ran := a.ran ++ b.ran
  skipped := a.skipped ++ b.skipped

instance : Append JobLog := ⟨append⟩

end JobLog

namespace Root

variable {r : Root} {p : NodePair} {ps qs : List NodePair} {divided : Bool} {t t' : Tally}
  {c : Counter}

/-- Asking for admission leaves the counters alone that do not count the search. -/
theorem get_enter (r : Root) (p : NodePair) (t : Tally) (hc : c.isOfSearch = false) :
    (r.enter p t).2.get c = t.get c := by
  rw [enter]
  split <;> cases c <;> first | rfl | cases hc

/-- So does leaving. -/
theorem get_leave (h : r.leave p t = .ok t') (hc : c.isOfSearch = false) : t'.get c = t.get c := by
  rw [leave] at h
  split at h <;> cases h
  cases c <;> first | rfl | cases hc

private theorem get_expandPair (h : r.expandPair p t = .ok (qs, divided, t'))
    (hc : c.isOfSearch = false) : t'.get c = t.get c := by
  rw [expandPair] at h
  split at h
  · have henter := r.get_enter p t hc
    split at h
    · next heq =>
      cases h
      rw [heq] at henter
      exact henter
    · next heq =>
      rw [heq] at henter
      obtain ⟨left, hleave, h⟩ := Outcome.exists_of_bind h
      cases h
      exact (get_leave hleave hc).trans henter
  · cases h
    rfl

private theorem get_expandLevel (h : r.expandLevel ps t = .ok (qs, divided, t'))
    (hc : c.isOfSearch = false) : t'.get c = t.get c := by
  induction ps generalizing qs divided t t' with
  | nil =>
    cases h
    rfl
  | cons p ps ih =>
    rw [expandLevel] at h
    obtain ⟨⟨here, split, t₁⟩, hpair, h⟩ := Outcome.exists_of_bind h
    obtain ⟨⟨others, more, t₂⟩, hrest, h⟩ := Outcome.exists_of_bind h
    cases h
    exact (ih hrest).trans (get_expandPair hpair hc)

/-- Expanding levels leaves the counters alone that do not count the search. -/
theorem get_expandLevels {levels : Nat} (h : r.expandLevels levels ps t = .ok (qs, t'))
    (hc : c.isOfSearch = false) : t'.get c = t.get c := by
  induction levels generalizing ps qs t t' with
  | zero =>
    cases h
    rfl
  | succ levels ih =>
    rw [expandLevels] at h
    obtain ⟨⟨next, divided, t₁⟩, hlevel, h⟩ := Outcome.exists_of_bind h
    have hfirst := get_expandLevel hlevel hc
    simp only at h
    split at h
    · exact (ih h).trans hfirst
    · cases h
      exact hfirst

end Root

namespace Thread

/-- The job that a thread has taken and neither run nor skipped. -/
def held (t : Thread) : List NodePair :=
  match t.task with
  | .heed pair _ => [pair]
  | _ => []

/-- The job that a thread begins to run in its next step. -/
def ran (t : Thread) (s : Shared) : List NodePair :=
  match t.task with
  | .take => t.popped s
  | .heed pair _ => if s.aborted then [] else [pair]
  | _ => []

/-- The job that a thread skips in its next step. -/
def skipped (t : Thread) (s : Shared) : List NodePair :=
  match t.task with
  | .heed pair _ => if s.aborted then [pair] else []
  | _ => []

/-- What the next step of a thread does to the jobs. -/
def jobs (plan : Plan) (t : Thread) (s : Shared) : JobLog where
  queued := t.pushed plan s
  taken := t.popped s
  ran := t.ran s
  skipped := t.skipped s

variable {plan : Plan} {chance : Chance} {caller : Bool} {t : Thread} {s : Shared}

/-- Jobs are skipped once the search is aborted. -/
theorem aborted_of_skipped (h : t.skipped s ≠ []) : s.aborted = true := by
  rw [skipped] at h
  split at h
  · split at h
    · assumption
    · exact absurd rfl h
  · exact absurd rfl h

private theorem held_enterPair (pair : NodePair) :
    (enterPair plan t s pair).threads.flatMap held = [] := by
  rcases enterPair_eq plan t s pair with ⟨-, hmove⟩ | ⟨-, task, hfollows, hmove⟩ <;> rw [hmove]
  · rfl
  · cases hfollows <;> rfl

private theorem held_comparePair (env : Interference) (pair : NodePair) :
    (comparePair plan env t s pair).threads.flatMap held = [] := by
  fun_cases comparePair plan env t s pair <;> rfl

private theorem held_thread (child : Child) : child.thread.held = [] := by
  fun_cases Child.thread child <;> rfl

private theorem held_afterStart (strategy : Strategy) : (afterStart strategy t).held = [] := by
  rcases afterStart_eq strategy t with ⟨-, hafter⟩ | ⟨-, hafter⟩ <;> rw [hafter] <;> rfl

private theorem held_afterRefund (strategy : Strategy) (cause : Failure) :
    (afterRefund strategy t cause).held = [] := by
  rcases afterRefund_eq strategy t cause with ⟨-, hafter⟩ | ⟨-, hafter⟩ <;> rw [hafter] <;> rfl

private theorem held_resume (frame : Frame) (outcome : Outcome Unit) :
    (resume plan caller t s frame outcome).threads.flatMap held = [] := by
  fun_cases resume plan caller t s frame outcome <;> rfl

/-- A job that a thread holds or takes is run or skipped in the same step, or is held after it. -/
theorem held_advance : t.held ++ t.popped s =
    t.ran s ++ t.skipped s ++ (t.advance plan chance caller s).threads.flatMap held := by
  rw [held, popped, ran, skipped, popped]
  fun_cases advance plan chance caller t s
  all_goals rw [‹t.task = _›]
  all_goals try
    simp [Move.threads, held]
    done
  · have hnone : (t.go (openingTask plan)).held = [] := by
      fun_cases openingTask plan <;> rfl
    simp [Move.threads, hnone]
  · simp [held_enterPair]
  · simp [held_comparePair]
  · simp [Move.threads, held_thread]
    rfl
  · simp [Move.threads, held_afterStart]
  · simp [Move.threads, held_afterRefund]
  · simp [Move.threads, held, ‹s.queue.pop? = _›]
  · simp [Move.threads, held, ‹s.queue.pop? = _›]
  · simp [Move.threads, held, ‹s.aborted = true›]
  · simp [Move.threads, held, ‹¬s.aborted = true›]
  · simp [held_resume]
  · simp [Move.threads, held, ‹t.task = _›]

/-- A comparison leaves the counters alone that do not count leaf tests. -/
theorem get_comparePair (env : Interference) (pair : NodePair) {c : Counter}
    (hc : c.isOfLeaves = false) :
    (comparePair plan env t s pair).shared.token.tally.get c = s.token.tally.get c := by
  have hmirror := @Batch.mirrors_compare plan.site env pair {}
  have hkept {o : Outcome Unit} {batch : Batch}
      (hrun : (Batch.compare plan.site env pair).run.run {} = (o, batch)) :
      batch.tally.get c = 0 := by
    cases o with
    | ok _ => exact ((hmirror.of_ok hrun).2 c hc).trans (Tally.get_zero c)
    | error stop => exact (hmirror.of_error hrun c hc).trans (Tally.get_zero c)
  fun_cases comparePair plan env t s pair
  all_goals exact (Tally.get_plus _ _ _).trans (by rw [hkept ‹_›, Nat.add_zero])

/-- Entering a pair counts events of the search only. -/
theorem get_enterPair (pair : NodePair) {c : Counter} (hc : c.isOfSearch = false) :
    (enterPair plan t s pair).shared.token.tally.get c = s.token.tally.get c := by
  have henter := plan.site.root.get_enter pair s.token.tally hc
  rcases enterPair_eq plan t s pair with ⟨-, hmove⟩ | ⟨-, task, -, hmove⟩ <;> rw [hmove, henter]

/-- Going on with a frame counts events of the search only. -/
theorem get_resume (frame : Frame) (outcome : Outcome Unit) {c : Counter}
    (hc : c.isOfSearch = false) :
    (resume plan caller t s frame outcome).shared.token.tally.get c = s.token.tally.get c := by
  fun_cases resume plan caller t s frame outcome
  all_goals try
    simp
    done
  · exact Root.get_leave ‹_› hc
  · rfl

/-- The counters of jobs count the jobs that are queued and run. -/
theorem get_jobs_advance :
    (t.advance plan chance caller s).shared.token.tally.get .jobsQueued =
      s.token.tally.get .jobsQueued + (t.pushed plan s).length ∧
    (t.advance plan chance caller s).shared.token.tally.get .jobsRun =
      s.token.tally.get .jobsRun + (t.ran s).length := by
  have hkept {t' : Tally} (h : t' = s.token.tally) :
      t'.get .jobsQueued = s.token.tally.get .jobsQueued + ([] : List NodePair).length ∧
        t'.get .jobsRun = s.token.tally.get .jobsRun + ([] : List NodePair).length := by
    rw [h]
    exact ⟨rfl, rfl⟩
  rw [pushed, ran, popped]
  cases htask : t.task with
  | enter pair =>
    simp only [advance, htask]
    exact ⟨get_enterPair pair rfl, get_enterPair pair rfl⟩
  | compare pair =>
    simp only [advance, htask]
    exact ⟨get_comparePair _ pair rfl, get_comparePair _ pair rfl⟩
  | ret outcome =>
    simp only [advance, htask]
    split
    · exact ⟨get_resume _ _ rfl, get_resume _ _ rfl⟩
    · exact hkept rfl
  | expand =>
    simp only [advance, htask]
    split
    · next hlevels =>
      rw [hlevels]
      exact hkept rfl
    · next frontier tally hlevels =>
      have hgate {c : Counter} (hc : c.isOfSearch = false) := Root.get_expandLevels hlevels hc
      rw [hlevels]
      constructor
      · exact (Tally.get_add _ .jobsQueued _ _).trans (by rw [if_pos rfl, hgate rfl])
      · exact (Tally.get_add _ .jobsQueued _ _).trans (by rw [if_neg (by decide), hgate rfl]; rfl)
  -- Whoever puts a job into the queue or begins to run one says so.
  | seed workers =>
    simp only [advance, htask]
    simp [Shared.add, Tally.get_add]
  | take =>
    simp only [advance, htask]
    split <;> simp [‹s.queue.pop? = _›, Shared.add, Tally.get_add]
  | offer first others =>
    cases others with
    | nil =>
      simp only [advance, htask]
      exact hkept rfl
    | cons pair others =>
      simp only [advance, htask]
      split <;> simp [Shared.add, Tally.get_add]
  | heed pair kept =>
    simp only [advance, htask]
    split <;> simp [Shared.add, Tally.get_add]
  -- The others count no jobs.
  | inline pairs =>
    cases pairs <;> simp only [advance, htask] <;> exact hkept rfl
  | dismiss left unstarted cause =>
    cases left <;> simp only [advance, htask]
    · exact hkept rfl
    · exact hkept (by rw [token_signOff])
  | recruit queued =>
    simp only [advance, htask]
    exact hkept (by rw [Shared.token_note]; rfl)
  | _ =>
    simp only [advance, htask]
    repeat' split
    all_goals
      first
      | exact ⟨rfl, rfl⟩
      | exact hkept (Token.tally_of_release ‹_›)
      | exact hkept (Token.tally_of_tryAcquire ‹_›)
      | simp

end Thread

namespace Machine

variable {plan : Plan} {chance : Chance} {m m' m'' : Machine} {log : JobLog}

/-- Runs from one machine to another, with the log of their jobs. -/
inductive Logs (plan : Plan) (m : Machine) : JobLog → Machine → Prop
  | refl : Logs plan m {} m
  | step {log : JobLog} {m' m'' : Machine} {choice : Choice} {t : Thread}
      (h : Logs plan m log m') (hactor : m'.actor choice = some t)
      (hstep : m'.step plan choice = some m'') : Logs plan m (log ++ t.jobs plan m'.shared) m''

/-- A run with a log is a run. -/
theorem Logs.leads (h : Logs plan m log m') : Leads plan m m' := by
  induction h with
  | refl => exact .refl
  | step _ _ hstep ih => exact ih.step hstep

/-- Every run has a log. -/
theorem Reachable.exists_logs (h : Reachable plan m) :
    ∃ log, Logs plan (ofBudget plan.config.threads) log m := by
  induction h with
  | refl => exact ⟨{}, .refl⟩
  | step h hstep ih =>
    obtain ⟨log, hlogs⟩ := ih
    obtain ⟨t, hactor, -⟩ := (typed_of_reachable h).moved hstep
    exact ⟨_, hlogs.step hactor hstep⟩

/-- What holds of the jobs of a search. -/
structure Handles (m : Machine) (log : JobLog) : Prop where
  /-- Jobs are taken in the order in which they were queued. -/
  queued_eq : log.queued = log.taken ++ m.shared.queue.toList
  /-- Each job that has been taken has been run or skipped, or is held. -/
  taken_perm : log.taken.Perm (log.ran ++ log.skipped ++ m.threads.flatMap Thread.held)
  /-- Jobs are skipped once the search is aborted. -/
  aborted_of_skipped : log.skipped ≠ [] → m.shared.aborted = true

private theorem Handles.step (h : Handles m log) (hm : Reachable plan m) (htyped : Typed plan m)
    {t : Thread} (hmoved : Moved plan chance m t m') :
    Handles m' (log ++ t.jobs plan m.shared) := by
  obtain ⟨caller, others, hreplaced⟩ := hmoved.exists_replaced
  constructor
  · change log.queued ++ t.pushed plan m.shared = log.taken ++ t.popped m.shared ++ _
    rw [h.queued_eq, List.append_assoc, queue_step hm htyped hreplaced, List.append_assoc]
  · change (log.taken ++ t.popped m.shared).Perm ((log.ran ++ t.ran m.shared) ++
      (log.skipped ++ t.skipped m.shared) ++ _)
    have htaken := h.taken_perm.trans ((hreplaced.before.flatMap_right _).append_left _)
    have hheld := @Thread.held_advance plan chance caller t m.shared
    refine .trans ?_ ((hreplaced.after.flatMap_right _).symm.append_left _)
    rw [← Multiset.coe_eq_coe] at htaken ⊢
    rw [List.flatMap_cons, ← Multiset.coe_add] at htaken
    calc ((log.taken ++ t.popped m.shared : List NodePair) : Multiset NodePair)
        = (log.ran ++ log.skipped : List NodePair) + (others.flatMap Thread.held : List NodePair) +
            (t.held ++ t.popped m.shared : List NodePair) := by
          rw [← Multiset.coe_add, htaken]
          simp only [← Multiset.coe_add]
          abel
      _ = _ := by
          rw [hheld, List.flatMap_append]
          simp only [← Multiset.coe_add]
          abel
  · intro hskipped
    rw [hreplaced.shared_eq]
    change log.skipped ++ t.skipped m.shared ≠ [] at hskipped
    by_cases hnone : log.skipped = []
    · rw [hnone, List.nil_append] at hskipped
      exact Thread.aborted_of_aborted (Thread.aborted_of_skipped hskipped)
    · exact Thread.aborted_of_aborted (h.aborted_of_skipped hnone)

/-- Every run handles its jobs. -/
theorem Logs.handles (h : Logs plan (ofBudget plan.config.threads) log m) : Handles m log := by
  induction h with
  | refl =>
    constructor
    · rfl
    · exact .refl _
    · exact fun h ↦ absurd rfl h
  | step h hactor hstep ih =>
    have htyped := typed_of_reachable h.leads
    obtain ⟨t, hactor', hmoved⟩ := htyped.moved hstep
    obtain rfl := Option.some.inj (hactor.symm.trans hactor')
    exact ih.step h.leads htyped hmoved

/-- The counters of jobs agree with the log. -/
theorem Logs.counts (h : Logs plan (ofBudget plan.config.threads) log m) :
    m.shared.token.tally.get .jobsQueued = log.queued.length ∧
      m.shared.token.tally.get .jobsRun = log.ran.length := by
  induction h with
  | refl => exact ⟨rfl, rfl⟩
  | @step log m' m'' choice t h hactor hstep ih =>
    obtain ⟨u, hactor', hmoved⟩ := (typed_of_reachable h.leads).moved hstep
    obtain rfl := Option.some.inj (hactor.symm.trans hactor')
    obtain ⟨caller, others, hreplaced⟩ := hmoved.exists_replaced
    obtain ⟨hqueued, hran⟩ := @Thread.get_jobs_advance plan choice.toChance caller t m'.shared
    rw [hreplaced.shared_eq, hqueued, hran, ih.1, ih.2]
    change _ = (log.queued ++ t.pushed plan m'.shared).length ∧
      _ = (log.ran ++ t.ran m'.shared).length
    rw [List.length_append, List.length_append]
    exact ⟨rfl, rfl⟩

/-- When a search has ended well, all jobs have been run. -/
theorem jobsQueued_of_outcome (h : Reachable plan m) {o : Outcome Unit}
    (ho : m.outcome? = some o) (hok : o.isOk = true) :
    m.shared.token.tally.get .jobsQueued = m.shared.token.tally.get .jobsRun := by
  obtain ⟨log, hlogs⟩ := h.exists_logs
  obtain ⟨hqueued, htaken, haborted⟩ := hlogs.handles
  obtain ⟨hworkers, hcalm⟩ := alone_of_outcome h ho
  obtain ⟨-, htask⟩ := Thread.outcome?_eq_some ho
  have hskipped : log.skipped = [] := by
    by_contra hne
    exact hcalm hok (troubled_of_aborted h (haborted hne))
  rw [queue_of_outcome h ho hok, List.append_nil] at hqueued
  have hlength := htaken.length_eq
  rw [threads, hworkers, hskipped] at hlength
  rw [hlogs.counts.1, hlogs.counts.2, hqueued, hlength]
  simp [Thread.held, htask]

end Machine
end RayAdjacency
