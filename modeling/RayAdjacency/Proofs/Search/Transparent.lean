import RayAdjacency.Proofs.Search.Schedules
import RayAdjacency.Proofs.Traversal.Frontier

/-!
# Searches that cannot be told apart

A sequential search and a job queue that has one thread only make the same comparisons in the same
order, up to the first that fails. So they append the same pairs in the same order, ask the same
questions and come to the same end, for any two trees, any stores, any delegate, and any number of
expanded levels.
-/

namespace RayAdjacency

/-- Whether the calling thread does the whole search: it is sequential, or drains a job queue with a
budget of one thread. -/
inductive Config.Lone (config : Config) : Prop
  | sequential (hstrategy : config.strategy = .sequential) (hthreads : 1 ≤ config.threads)
  | jobQueue {levels : Nat} {release : ReleasePolicy}
      (hstrategy : config.strategy = .jobQueue levels release) (hthreads : config.threads = 1)

/-- A search before its first step. -/
def Setting.ofBudget (threads : Nat) : Setting := { shared := { token := Token.ofBudget threads } }

/-- A search once the calling thread has taken its permit. -/
def Setting.opened (threads : Nat) : Setting :=
  { shared := { token := { Token.ofBudget threads with permits := ⟨threads, threads - 1⟩ } } }

/-- A scripted search before its first step. -/
def Scene.ofBudget (threads : Nat) : Scene := ⟨Machine.ofBudget threads, 0⟩

/-- What a search by one thread comes to, and what it finds. -/
def SearchSite.searched (site : SearchSite) (script : Script) : Outcome Unit × Findings :=
  (site.compareAll script (site.root.comparisons site.root.start)).run.run {}

namespace Search

variable {plan : Plan} {script : Script} {label : String} {frames : List Frame} {o : Outcome Unit}
  {a : Setting}

/-! ### Opening and closing -/

private theorem takes_open (hthreads : 1 ≤ plan.config.threads) :
    Takes plan script 2 Thread.caller (.ofBudget plan.config.threads)
      ⟨"main", [.close], Thread.openingTask plan⟩ (.opened plan.config.threads) := by
  have hacquire : Forced plan script Thread.caller (.ofBudget plan.config.threads)
      ⟨"main", [.close], .schedule⟩ (.opened plan.config.threads) := by
    refine ⟨fun _ ↦ rfl, fun _ _ ↦ ?_, rfl⟩
    rw [Thread.caller, Thread.advance]
    simp only [Setting.ofBudget, Token.ofBudget]
    rw [Permits.acquireInitial_ofBudget hthreads]
    rfl
  have hschedule : Forced plan script ⟨"main", [.close], .schedule⟩ (.opened plan.config.threads)
      ⟨"main", [.close], Thread.openingTask plan⟩ (.opened plan.config.threads) :=
    ⟨fun _ ↦ rfl, fun _ _ ↦ rfl, rfl⟩
  exact hacquire.takes.trans hschedule.takes

private theorem exists_giveBack {budget : Nat} {cohort : Cohort} (hbudget : 1 ≤ budget)
    (hheld : a.shared.standing.held = (⟨budget, budget - 1⟩, {}, cohort)) :
    ∃ a', Takes plan script 2 ⟨label, frames, .giveBack o⟩ a ⟨label, frames, .ret o⟩ a' ∧
      Compared plan.site script (fun _ ↦ ()) [] 0 a (.ok ()) a' := by
  have hpermits : a.shared.token.permits = ⟨budget, budget - 1⟩ := congrArg (·.1) hheld
  have hchildren : a.shared.token.children = {} := congrArg (·.2.1) hheld
  let token : Token := { a.shared.token with permits := ⟨budget, budget⟩ }
  let a₁ : Setting := { a with shared := { a.shared with token } }
  have hgiveBack : Forced plan script ⟨label, frames, .giveBack o⟩ a
      ⟨label, frames, .joinAll o⟩ a₁ := by
    refine ⟨fun _ ↦ rfl, fun _ _ ↦ ?_, rfl⟩
    rw [Thread.advance]
    dsimp only
    rw [Token.release_of_permits_eq hbudget hpermits]
    rfl
  have hjoin : Forced plan script ⟨label, frames, .joinAll o⟩ a₁ ⟨label, frames, .ret o⟩ a₁ := by
    have hchildren₁ : a₁.shared.token.children = {} := hchildren
    refine ⟨fun _ ↦ ?_, fun _ _ ↦ ?_, rfl⟩
    · change decide (0 < a₁.shared.token.children.active) = false
      rw [hchildren₁]
      rfl
    · rw [Thread.advance]
      dsimp only
      rw [Token.join_of_children_eq hchildren₁]
      cases o <;> rfl
  exact ⟨a₁, hgiveBack.takes.trans hjoin.takes, .of_findings_eq rfl (Nat.le_refl _) rfl⟩

private theorem exists_close {budget : Nat} {cohort : Cohort} (hbudget : 1 ≤ budget)
    (hheld : a.shared.standing.held = (⟨budget, budget - 1⟩, {}, cohort)) :
    ∃ a', ∃ k ≤ 3,
      Takes plan script k ⟨label, .close :: frames, .ret o⟩ a ⟨label, frames, .ret o⟩ a' ∧
      Compared plan.site script (fun _ ↦ ()) [] 0 a (.ok ()) a' := by
  obtain ⟨a', hgiveBack, hleft⟩ := @exists_giveBack plan script label frames o a _ _ hbudget hheld
  have hback (hcalm : ∀ message, o ≠ .error (.panicked message)) :
      Forced plan script ⟨label, .close :: frames, .ret o⟩ a ⟨label, frames, .giveBack o⟩ a := by
    refine ⟨fun _ ↦ rfl, fun _ _ ↦ ?_, rfl⟩
    rcases o with (failure | message) | u
    · rfl
    · exact absurd rfl (hcalm message)
    · rfl
  by_cases hpanic : ∃ message, o = .error (.panicked message)
  · obtain ⟨message, rfl⟩ := hpanic
    have hpanicked : Forced plan script
        ⟨label, .close :: frames, .ret (.error (.panicked message))⟩ a
        ⟨label, frames, .unwind message⟩ a := ⟨fun _ ↦ rfl, fun _ _ ↦ rfl, rfl⟩
    have hunwound : Forced plan script ⟨label, frames, .unwind message⟩ a
        ⟨label, frames, .ret (.error (.panicked message))⟩ a :=
      ⟨fun _ ↦ rfl, fun _ _ ↦ rfl, rfl⟩
    exact ⟨a, 1 + 1, by omega, hpanicked.takes.trans hunwound.takes,
      .of_findings_eq rfl (Nat.le_refl _) rfl⟩
  · exact ⟨a', 1 + 2, Nat.le_refl 3, (hback fun m hm ↦ hpanic ⟨m, hm⟩).takes.trans hgiveBack, hleft⟩

/-! ### Whole searches -/

/-- A whole search by the calling thread, in at most `n` steps. -/
private def Finishes (plan : Plan) (script : Script) (n : Nat) : Prop :=
  ∃ o a, ∃ k ≤ n, Takes plan script k Thread.caller (.ofBudget plan.config.threads)
    ⟨"main", [], .ret o⟩ a ∧ Compared plan.site script (fun _ ↦ ())
      (plan.site.root.comparisons plan.site.root.start) plan.site.root.start.weight
      (.ofBudget plan.config.threads) o a

private theorem finishes_of_task {n : Nat} (hthreads : 1 ≤ plan.config.threads)
    (h : ∃ o a, ∃ k ≤ n, Takes plan script k ⟨"main", [.close], Thread.openingTask plan⟩
        (.opened plan.config.threads) ⟨"main", [.close], .ret o⟩ a ∧
      Compared plan.site script (fun s ↦ (s.standing.permits, s.standing.children))
        (plan.site.root.comparisons plan.site.root.start) plan.site.root.start.weight
        (.opened plan.config.threads) o a) : Finishes plan script (n + 5) := by
  obtain ⟨o, a, k, hk, htask, hfound⟩ := h
  have hheld : a.shared.standing.held =
      (⟨plan.config.threads, plan.config.threads - 1⟩, {}, a.shared.cohort) := by
    have hpermits := congrArg Prod.fst hfound.view_eq
    have hchildren := congrArg Prod.snd hfound.view_eq
    exact Prod.ext hpermits (Prod.ext hchildren rfl)
  obtain ⟨a', k', hk', hclose, hleft⟩ :=
    @exists_close plan script "main" [] o a _ _ hthreads hheld
  have hopened : Compared plan.site script (fun _ ↦ ()) [] 0 (.ofBudget plan.config.threads)
      (.ok ()) (.opened plan.config.threads) := .of_findings_eq rfl (Nat.le_refl _) rfl
  exact ⟨o, a', 2 + k + k', by omega, ((takes_open hthreads).trans htask).trans hclose,
    ((hopened.append (hfound.coarsen fun _ ↦ ())).idle hleft).mono (by omega)⟩

private theorem finishes_sequential (hstrategy : plan.config.strategy = .sequential)
    (hthreads : 1 ≤ plan.config.threads) :
    Finishes plan script (6 * plan.site.root.start.weight + 5) := by
  have hvisits := plan.site.root.length_visits_le plan.site.root.start
  change _ ≤ plan.site.root.start.weight at hvisits
  have halone : plan.Solitary (Setting.opened plan.config.threads).shared.token.permits := by
    constructor <;> rw [hstrategy]
    · rfl
    · exact fun h ↦ by cases h
  obtain ⟨o, a, k, hk, hsearch, hfound⟩ := does_enter plan script plan.site.root.start "main"
    [.close] (.opened plan.config.threads) halone
  have hopening : Thread.openingTask plan = .enter plan.site.root.start := by
    rw [Thread.openingTask, hstrategy]
  refine finishes_of_task hthreads ⟨o, a, k, by omega, ?_, ?_⟩
  · rw [hopening]
    exact hsearch
  · exact (hfound.coarsen fun s ↦ (s.permits, s.children)).mono hvisits

private theorem exists_fill {levels : Nat} {release : ReleasePolicy}
    (hstrategy : plan.config.strategy = .jobQueue levels release) : ∃ qs a,
    Takes plan script 3 ⟨label, frames, .expand⟩ (.opened 1) ⟨label, .cohort :: frames, .drain⟩ a ∧
    a.findings = {} ∧
    a.shared.standing = ⟨⟨1, 0⟩, {}, Fifo.ofList qs, Cohort.ofWorkers 0, false⟩ ∧
    plan.site.root.Replaces [plan.site.root.start] qs {} a.shared.token.tally := by
  -- The calling thread expands the trees into the queue, and finds no permit for a worker.
  obtain ⟨qs, t, hlevels, hreplaces⟩ := plan.site.root.exists_expandLevels
    plan.config.strategy.levels [plan.site.root.start] {}
  let token : Token := { permits := ⟨1, 0⟩, tally := t }
  let s₁ : Shared := Shared.add { token, queue := Fifo.ofList qs } .jobsQueued qs.length
  have hexpand : Forced plan script ⟨label, frames, .expand⟩ (.opened 1)
      ⟨label, frames, .recruit qs.length⟩ ⟨s₁, 0⟩ := by
    refine ⟨fun _ ↦ rfl, fun _ _ ↦ ?_, rfl⟩
    have hlevels' : (plan.during (script (Setting.opened 1).begun)).site.root.expandLevels
        (plan.during (script (Setting.opened 1).begun)).config.strategy.levels
        [(plan.during (script (Setting.opened 1).begun)).site.root.start]
        (Setting.opened 1).shared.token.tally = .ok (qs, t) := hlevels
    rw [Thread.advance]
    dsimp only
    rw [hlevels']
    rfl
  have hrecruit : ∃ log, Forced plan script ⟨label, frames, .recruit qs.length⟩ ⟨s₁, 0⟩
      ⟨label, frames, .start 0 0⟩ ⟨{ s₁ with log }, 0⟩ := by
    have hnone : s₁.token.tryAcquire (min (s₁.token.permits.budget - 1) (qs.length - 1))
        = (0, s₁.token) := Token.tryAcquire_of_available_eq rfl _
    refine ⟨?log, fun _ ↦ rfl, fun _ _ ↦ ?move, rfl⟩
    case move =>
      rw [Thread.advance]
      dsimp only
      rw [hnone]
      rfl
  obtain ⟨log, hrecruit⟩ := hrecruit
  have hstart : Forced plan script ⟨label, frames, .start 0 0⟩ ⟨{ s₁ with log }, 0⟩
      ⟨label, .cohort :: frames, .drain⟩ ⟨{ s₁ with log }, 0⟩ := by
    refine ⟨fun _ ↦ rfl, fun _ _ ↦ ?_, rfl⟩
    change (⟨some (Thread.afterStart plan.config.strategy _), _, none⟩ : Move) = _
    rw [hstrategy]
    rfl
  exact ⟨qs, _, (hexpand.takes.trans hrecruit.takes).trans hstart.takes, rfl, rfl,
    hreplaces.comparisons_eq, hreplaces.calls_le⟩

private theorem exists_awaitCohort (hcohort : a.shared.cohort = Cohort.ofWorkers 0) :
    ∃ k ≤ 2,
      Takes plan script k ⟨label, .cohort :: frames, .ret o⟩ a ⟨label, frames, .ret o⟩ a := by
  have hawait : Forced plan script ⟨label, frames, .awaitCohort o⟩ a ⟨label, frames, .ret o⟩ a := by
    refine ⟨fun _ ↦ ?_, fun _ _ ↦ rfl, rfl⟩
    change (!a.shared.cohort.allReleased) = false
    rw [hcohort]
    rfl
  rcases o with (failure | message) | u
  · have hback : Forced plan script ⟨label, .cohort :: frames, .ret (.error (.failed failure))⟩ a
        ⟨label, frames, .awaitCohort (.error (.failed failure))⟩ a :=
      ⟨fun _ ↦ rfl, fun _ _ ↦ rfl, rfl⟩
    exact ⟨2, Nat.le_refl 2, hback.takes.trans hawait.takes⟩
  · have hback : Forced plan script ⟨label, .cohort :: frames, .ret (.error (.panicked message))⟩ a
        ⟨label, frames, .ret (.error (.panicked message))⟩ a := ⟨fun _ ↦ rfl, fun _ _ ↦ rfl, rfl⟩
    exact ⟨1, by omega, hback.takes⟩
  · have hback : Forced plan script ⟨label, .cohort :: frames, .ret (.ok u)⟩ a
        ⟨label, frames, .awaitCohort (.ok u)⟩ a := ⟨fun _ ↦ rfl, fun _ _ ↦ rfl, rfl⟩
    exact ⟨2, Nat.le_refl 2, hback.takes.trans hawait.takes⟩

private theorem finishes_jobQueue {levels : Nat} {release : ReleasePolicy}
    (hstrategy : plan.config.strategy = .jobQueue levels release)
    (hthreads : plan.config.threads = 1) :
    Finishes plan script (7 * plan.site.root.start.weight + 12) := by
  obtain ⟨qs, a, hfill, hfindings, hstanding, hreplaces⟩ :=
    @exists_fill plan script "main" [.close] levels release hstrategy
  have hsum := hreplaces.calls_le
  have hvisits := plan.site.root.length_flatMap_visits_le qs
  rw [List.map_singleton, List.sum_singleton] at hsum
  change _ ≤ 0 + _ at hsum
  have halone : plan.Solitary a.shared.token.permits := by
    constructor
    · rw [hstrategy]
      rfl
    · exact fun _ ↦ congrArg (·.permits.available) hstanding
  have hqueue : a.shared.queue.toList = qs :=
    (congrArg (·.queue.toList) hstanding).trans (Fifo.toList_ofList qs)
  obtain ⟨o, a₁, k, hk, hdrain, hfound⟩ := @exists_drain plan script "main" [.cohort, .close] a qs
    halone hqueue (congrArg Standing.aborted hstanding)
  have hheld : a₁.shared.standing.held = (⟨1, 0⟩, {}, Cohort.ofWorkers 0) :=
    hfound.view_eq.trans (congrArg Standing.held hstanding)
  obtain ⟨k', hk', hawait⟩ := @exists_awaitCohort plan script "main" [.close] o a₁
    (congrArg (·.2.2) hheld)
  have hopening : Thread.openingTask plan = .expand := by
    rw [Thread.openingTask, hstrategy]
  refine finishes_of_task (by omega) ⟨o, a₁, 3 + k + k', by omega, ?_, ?_⟩
  · rw [hopening, hthreads]
    exact (hfill.trans hdrain).trans hawait
  · rw [hthreads]
    have hfilled : Compared plan.site script (fun s ↦ (s.standing.permits, s.standing.children)) []
        a.shared.token.tally.enterCalls (.opened 1) (.ok ()) a :=
      .of_findings_eq hfindings (Nat.le_add_left _ _)
        ((congrArg (fun s : Standing ↦ (s.permits, s.children)) hstanding).trans rfl)
    have hdone := hfilled.append (hfound.coarsen fun held ↦ (held.1, held.2.1))
    rw [List.nil_append, hreplaces.comparisons_eq, List.flatMap_singleton] at hdone
    exact hdone.mono (by omega)

private theorem finishes_of_lone (h : plan.config.Lone) : Finishes plan script (effort plan) := by
  have hmono {n : Nat} (hn : n ≤ effort plan) (h : Finishes plan script n) :
      Finishes plan script (effort plan) := by
    obtain ⟨o, a, k, hk, hrun, hfound⟩ := h
    exact ⟨o, a, k, Nat.le_trans hk hn, hrun, hfound⟩
  have heffort : 64 * (plan.site.root.start.weight + 2) * 2 ≤ effort plan :=
    Nat.mul_le_mul_left _ (Nat.le_add_left 2 _)
  rcases h with ⟨hstrategy, hthreads⟩ | ⟨hstrategy, hthreads⟩
  · exact hmono (by omega) (finishes_sequential hstrategy hthreads)
  · exact hmono (by omega) (finishes_jobQueue hstrategy hthreads)

/-- Whatever stores and delegate do, every run of a search by one thread makes the comparisons of
the two trees in order. -/
theorem comesTo_of_lone (h : plan.config.Lone) (script : Script) :
    (Scene.ofBudget plan.config.threads).ComesTo plan script (plan.site.searched script).1
      (plan.site.searched script).2 := by
  obtain ⟨o, a, k, -, hrun, hfound⟩ := @finishes_of_lone plan script h
  have hsearched : plan.site.searched script = (o, a.findings) := hfound.run_eq
  rw [hsearched]
  exact hrun.comesTo rfl

variable {site : SearchSite} {config : Config}

private theorem queueCapacity_of_lone (h : config.Lone) : config.queueCapacity = .ok none := by
  rcases h with ⟨hstrategy, -⟩ | ⟨hstrategy, -⟩ <;> rw [Config.queueCapacity, hstrategy] <;> rfl

/-- Whether the rays of both trees can be counted. -/
private def counts (site : SearchSite) : Outcome Unit := do
  let _ ← site.root.positive.checkedRayCount
  let _ ← site.root.negative.checkedRayCount
  return ()

private theorem map_report {tally : Tally}
    (hbalance : tally.pruned + tally.leaves = tally.enterCalls)
    (hcalls : tally.enterCalls < wordLimit) :
    (Search.report site config tally).map (fun _ ↦ ()) = counts site := by
  rw [Search.report]
  simp only [entered_snapshot hbalance hcalls, Outcome.ok_bind]
  rw [if_neg (not_not.mpr rfl), counts]
  cases site.root.positive.checkedRayCount with
  | error stop => rfl
  | ok positive => cases site.root.negative.checkedRayCount <;> rfl

/-- What a search in the fixed order leaves behind, when it comes to the given outcome and findings.
To report success, the pairs of nodes have to fit a counter. -/
private structure LeavesBehind (site : SearchSite) (found : Outcome Unit × Findings)
    (result : Result) : Prop where
  pairs_eq : result.pairs = found.2.sink
  asked_eq : result.asked = found.2.asked
  report_eq : (found.1 = .ok () → site.root.start.weight < wordLimit) →
    result.report.map (·.map fun _ ↦ ()) = some (found.1 >>= fun _ ↦ counts site)

private theorem leavesBehind_nothing (hstart : site.root.start.isEmpty = true) :
    LeavesBehind site (site.searched site.steady) (nothing site config) := by
  have hsearched : site.searched site.steady = (.ok (), {}) := by
    rw [SearchSite.searched, Root.comparisons_of_isEmpty hstart]
    rfl
  rw [hsearched]
  refine ⟨pairs_nothing site config, asked_nothing site config, fun _ ↦ ?_⟩
  rw [report_nothing, Option.map_some]
  exact congrArg some (map_report rfl (by decide))

private theorem leavesBehind_run (h : config.Lone) (limit : Option Nat) (now : Duration) :
    LeavesBehind site (site.searched site.steady) (run site config limit now) := by
  have hcapacity := queueCapacity_of_lone h
  by_cases hstart : site.root.start.isEmpty = true
  · rw [run_of_isEmpty hcapacity hstart]
    exact leavesBehind_nothing hstart
  · let plan : Plan := ⟨site, config, 0⟩
    obtain ⟨o, a, k, hk, htakes, hfound⟩ := @finishes_of_lone plan site.steady h
    have hsearched : site.searched site.steady = (o, a.findings) := hfound.run_eq
    have hrest := (@Takes.reaches plan limit now _ _ _ _ _ htakes).run_eq rfl hk
    have hrun : run site config limit now = conclude plan ⟨⟨"main", [], .ret o⟩, [], a.shared⟩ := by
      rw [run, hcapacity]
      simp only [hstart, Option.getD_none]
      exact congrArg (conclude plan) hrest
    rw [hrun, hsearched]
    refine ⟨rfl, rfl, fun hweight ↦ ?_⟩
    have hreachable : Machine.Reachable plan ⟨⟨"main", [], .ret o⟩, [], a.shared⟩ := by
      rw [← hrest]
      exact Machine.leads_run limit now _ _
    have hbalance := Machine.entered_of_outcome hreachable rfl
    have hcalls : a.shared.token.tally.enterCalls ≤ 0 + site.root.start.weight := hfound.calls_le
    rw [Nat.zero_add] at hcalls
    cases o with
    | error stop => rfl
    | ok u =>
      exact congrArg some (map_report hbalance.symm (Nat.lt_of_le_of_lt hcalls (hweight rfl)))

/-! ### Transparency -/

/-- Two configurations whose searches of a site cannot be told apart by what they append, ask and
end with. -/
structure Alike (site : SearchSite) (a b : Config) : Prop where
  /-- Whatever stores and delegate do, and whichever step is taken when: both searches end, with the
  same outcome, the same pairs in the same order, and the same questions. -/
  comesTo : ∀ script, ∃ o f, (Scene.ofBudget a.threads).ComesTo ⟨site, a, 0⟩ script o f ∧
    (Scene.ofBudget b.threads).ComesTo ⟨site, b, 0⟩ script o f
  pairs_eq : ∀ limit limit' now now',
    (run site a limit now).pairs = (run site b limit' now').pairs
  asked_eq : ∀ limit limit' now now',
    (run site a limit now).asked = (run site b limit' now').asked
  /-- Both report success, or the same reason why not. Where the comparisons do not fail, the pairs
  of nodes have to fit a counter. -/
  report_eq : ((site.searched site.steady).1 = .ok () → site.root.start.weight < wordLimit) →
    ∀ limit limit' now now', ∃ o : Outcome Unit,
      (run site a limit now).report.map (·.map fun _ ↦ ()) = some o ∧
      (run site b limit' now').report.map (·.map fun _ ↦ ()) = some o

/-- A job queue that has one thread cannot be told from a sequential search, however many levels it
expands. -/
theorem alike_of_jobQueue (site : SearchSite) {sequential queue : Config} {levels : Nat}
    {release : ReleasePolicy} (hsequential : sequential.strategy = .sequential)
    (hthreads : 1 ≤ sequential.threads) (hqueue : queue.strategy = .jobQueue levels release)
    (hone : queue.threads = 1) : Alike site sequential queue := by
  have ha : sequential.Lone := .sequential hsequential hthreads
  have hb : queue.Lone := .jobQueue hqueue hone
  have hleaves := @leavesBehind_run site sequential ha
  have hleaves' := @leavesBehind_run site queue hb
  constructor
  · intro script
    exact ⟨_, _, @comesTo_of_lone ⟨site, sequential, 0⟩ ha script,
      @comesTo_of_lone ⟨site, queue, 0⟩ hb script⟩
  · exact fun limit limit' now now' ↦
      (hleaves limit now).pairs_eq.trans (hleaves' limit' now').pairs_eq.symm
  · exact fun limit limit' now now' ↦
      (hleaves limit now).asked_eq.trans (hleaves' limit' now').asked_eq.symm
  · exact fun hweight limit limit' now now' ↦
      ⟨_, (hleaves limit now).report_eq hweight, (hleaves' limit' now').report_eq hweight⟩

/-- Trees put together by hand, over stores of which one refuses to show a ray. The stored unions
are not those of the rays below. -/
def graftedSite : SearchSite :=
  let full : Pattern := .ofWords [15#64] 4
  { root :=
      { positive := .fork full (.leaf full 0 2)
          (.wide full [.single (.ofWords [5#64] 4) 2, .empty full, .leaf full 3 4])
        negative := .wide full
          [.leaf full 0 1, .fork full (.single (.ofWords [9#64] 4) 1) (.empty full)]
        zero := .ofNothing 4
        order := .natural 4
        threshold := ⟨1⟩ }
    stores :=
      { positive :=
          { rays := #[.ofPattern 0 (.ofWords [3#64] 4), .ofPattern 1 (.ofWords [6#64] 4),
              .ofPattern 2 (.ofWords [5#64] 4), .ofPattern 3 (.ofWords [10#64] 4)]
            refusals := { read := fun _ i _ ↦ if i = 3 then some (.store "torn page") else none } }
        negative :=
          Store.ofRays [.ofPattern 4 (.ofWords [6#64] 4), .ofPattern 5 (.ofWords [9#64] 4)]
        zero := Store.ofRays [] }
    test := .rank fun _ _ _ ↦ .ok true }

/-- Four pairs are appended before the store fails, also if two levels are expanded. -/
theorem alike_of_jobQueue_grafted : Alike graftedSite {} (.jobQueue 1 2 .immediate) ∧
    (run graftedSite {} none).pairs = #[⟨0, 0⟩, ⟨1, 0⟩, ⟨0, 1⟩, ⟨2, 0⟩] ∧
    (run graftedSite {} none).report.bind Outcome.stop? = some (.failed (.store "torn page")) :=
  ⟨alike_of_jobQueue graftedSite rfl (by decide) rfl rfl, by decide +kernel, by decide +kernel⟩

end Search
end RayAdjacency
