import RayAdjacency.Proofs.Search.Exact
import RayAdjacency.Proofs.Traversal.Jobs

/-!
# Searches under any schedule

`Search.Possible` is what a search may come to, whichever thread takes which step and whatever the
environment decides. A search that reports success has done the same duties as a search by one
thread, so it has found the same pairs and counted the same events.
-/

namespace RayAdjacency

/-- The same search by one thread. -/
def Config.alone (config : Config) : Config := { config with strategy := .sequential }

namespace Root.Built

variable {config : Config} {threshold : Threshold} {stores stores' : Stores} {r : Root}

/-- Every node of a built root holds a ray, unless one of the sides is empty. -/
theorem solid (h : Built config threshold stores stores' r) (hstart : r.start.isEmpty = false) :
    r.start.Solid := by
  rw [NodePair.isEmpty, Bool.or_eq_false_iff] at hstart
  exact ⟨(h.grown .positive).solid hstart.1, (h.grown .negative).solid hstart.2⟩

end Root.Built

namespace Search

variable {site : SearchSite} {config : Config} {limit : Option Nat} {result : Result}
  {report : Report}

/-- A moment of a search that has something to search, under any schedule: the threads have taken
some steps. -/
structure Moment (site : SearchSite) (config : Config) (plan : Plan) (m : Machine) : Prop where
  plan_eq : ∃ capacity, config.queueCapacity = .ok capacity ∧ plan = ⟨site, config, capacity.getD 0⟩
  nonempty : site.root.start.isEmpty = false
  reachable : Machine.Reachable plan m

/-- What a search may come to under any schedule. There is no report at a moment at which the
calling thread has not ended. -/
inductive Possible (site : SearchSite) (config : Config) : Result → Prop
  /-- The queue does not fit into memory. -/
  | overflow {stop : Stop} (hcapacity : config.queueCapacity = .error stop) :
      Possible site config { report := some (.error stop) }
  /-- There is nothing to search. -/
  | nothing {capacity : Option Nat} (hcapacity : config.queueCapacity = .ok capacity)
      (hstart : site.root.start.isEmpty = true) : Possible site config (nothing site config)
  /-- The search is stopped at some moment. -/
  | conclude {plan : Plan} {m : Machine} (h : Moment site config plan m) :
      Possible site config (conclude plan m)

/-- The fixed order is one of the schedules. -/
theorem possible_run (site : SearchSite) (config : Config) (limit : Option Nat) (now : Duration) :
    Possible site config (run site config limit now) := by
  rw [run]
  split
  · next hcapacity => exact .overflow hcapacity
  · next hcapacity =>
    by_cases hstart : site.root.start.isEmpty = true
    · rw [if_pos hstart]
      exact .nothing hcapacity hstart
    · rw [if_neg hstart]
      exact .conclude ⟨⟨_, hcapacity, rfl⟩, Bool.eq_false_iff.mpr hstart, Machine.leads_run _ _ _ _⟩

/-- When a search has ended well, all its duties have been done, and there has been no trouble. -/
theorem Moment.accounts {plan : Plan} {m : Machine} (h : Moment site config plan m)
    (hsolid : site.root.start.Solid) (ho : m.outcome? = some (.ok ())) :
    ¬m.Troubled ∧ ∃ lost, m.Accounts plan (site.duties site.root.start) lost := by
  obtain ⟨⟨capacity, -, rfl⟩, -, hm⟩ := h
  obtain ⟨done, lost, hacc⟩ := Machine.exists_accounts hsolid hm
  obtain rfl := hacc.of_outcome hm ho rfl
  exact ⟨(Machine.alone_of_outcome hm ho).2 rfl, lost, hacc⟩

/-! ### Reports -/

/-- When counts make a report: the pairs entered have been left, and the rays can be counted. -/
theorem report_eq_ok_iff {tally : Tally} : Search.report site config tally = .ok report ↔
    tally.snapshot.entered = .ok tally.snapshot.leaves ∧
    ∃ positive negative, site.root.positive.checkedRayCount = .ok positive ∧
      site.root.negative.checkedRayCount = .ok negative ∧
      report = { strategy := config.strategy.name, threads := config.threads, positive, negative,
                 tally := tally.snapshot } := by
  rw [Search.report]
  cases hentered : tally.snapshot.entered with
  | error stop => simp
  | ok entered =>
    rw [Outcome.ok_bind, Except.ok.injEq]
    by_cases hleaves : entered = tally.snapshot.leaves
    · rw [if_neg (not_not.mpr hleaves)]
      cases site.root.positive.checkedRayCount with
      | error stop => simp
      | ok positive =>
        cases site.root.negative.checkedRayCount with
        | error stop => simp
        | ok negative => simp [hleaves, pure, Except.pure, eq_comm]
    · rw [if_pos hleaves]
      simp [hleaves, Outcome.fail]

/-- A report shows the counts, reduced to 64 bits. -/
theorem tally_of_report {tally : Tally} (h : Search.report site config tally = .ok report) :
    report.tally = tally.snapshot := by
  obtain ⟨-, positive, negative, -, -, rfl⟩ := report_eq_ok_iff.mp h
  rfl

/-- Whether counts make a report depends on the counters of the gate alone. -/
theorem exists_report_of_report {config' : Config} {tally tally' : Tally}
    (h : Search.report site config tally = .ok report)
    (hgate : ∀ c : Counter, c.isOfSearch = true → tally'.get c = tally.get c) :
    ∃ report', Search.report site config' tally' = .ok report' ∧
      report'.tally = tally'.snapshot := by
  obtain ⟨hentered, positive, negative, hpositive, hnegative, -⟩ := report_eq_ok_iff.mp h
  have hcalls : tally'.snapshot.enterCalls = tally.snapshot.enterCalls :=
    congrArg (· % wordLimit) (hgate .enterCalls rfl)
  have hpruned : tally'.snapshot.pruned = tally.snapshot.pruned :=
    congrArg (· % wordLimit) (hgate .pruned rfl)
  have hleaves : tally'.snapshot.leaves = tally.snapshot.leaves :=
    congrArg (· % wordLimit) (hgate .leaves rfl)
  refine ⟨_, report_eq_ok_iff.mpr ⟨?_, positive, negative, hpositive, hnegative, rfl⟩, rfl⟩
  rw [Tally.entered, hcalls, hpruned, hleaves]
  exact hentered

/-! ### Success -/

/-- What a search that reports success shares with searches of the same site by one thread: these
report success as well, find the same pairs as often, and count the same events of the search; and
all jobs that were queued have been run. -/
structure Agrees (site : SearchSite) (config : Config) (result : Result) (report : Report) :
    Prop where
  report_alone : ∀ limit now, ∃ alone,
    (run site config.alone limit now).report = some (.ok alone) ∧
    ∀ c : Counter, c.isOfSearch = true → report.tally.get c = alone.tally.get c
  pairs_perm : ∀ limit now,
    result.pairs.toList.Perm (run site config.alone limit now).pairs.toList
  jobs_eq : report.tally.get .jobsQueued = report.tally.get .jobsRun

/-- A search with an empty side reports what it would report of no counts at all. -/
theorem report_nothing (site : SearchSite) (config : Config) :
    (Search.nothing site config).report = some (Search.report site config {}) := by
  have hcounts : Search.report site config {} = do
      let positive ← site.root.positive.checkedRayCount
      let negative ← site.root.negative.checkedRayCount
      return { strategy := config.strategy.name, threads := config.threads, positive, negative,
               tally := {} } := rfl
  rw [Search.nothing]
  simp only [pure, Except.pure]
  cases hpositive : site.root.positive.checkedRayCount with
  | error stop =>
    rw [hcounts, hpositive]
    rfl
  | ok positive =>
    cases hnegative : site.root.negative.checkedRayCount with
    | error stop =>
      rw [hcounts, hpositive, hnegative]
      rfl
    | ok negative => cases hreport : Search.report site config {} <;> rfl

/-- A search with an empty side reports success just if a report can be made of no counts. -/
theorem report_nothing_eq_ok_iff : (Search.nothing site config).report = some (.ok report) ↔
    Search.report site config {} = .ok report := by
  rw [report_nothing, Option.some_inj]

private theorem agrees_nothing (hstart : site.root.start.isEmpty = true)
    (hok : (Search.nothing site config).report = some (.ok report)) :
    Agrees site config (Search.nothing site config) report := by
  have hmade := report_nothing_eq_ok_iff.mp hok
  have hcounts := tally_of_report hmade
  have halone (limit : Option Nat) (now : Duration) :
      run site config.alone limit now = Search.nothing site config.alone :=
    run_of_isEmpty rfl hstart
  constructor
  · intro limit now
    obtain ⟨alone, hreported, htally⟩ :=
      @exists_report_of_report site config _ config.alone {} {} hmade fun _ _ ↦ rfl
    refine ⟨alone, ?_, fun c _ ↦ ?_⟩
    · rw [halone]
      exact report_nothing_eq_ok_iff.mpr hreported
    · rw [hcounts, htally]
  · intro limit now
    rw [halone, pairs_nothing, pairs_nothing]
  · rw [hcounts]
    rfl

/-- A search reports success only when the calling thread has come to a good outcome. -/
theorem outcome_of_report {plan : Plan} {m : Machine}
    (hok : (conclude plan m).report = some (.ok report)) :
    m.outcome? = some (.ok ()) ∧
      Search.report plan.site plan.config m.shared.token.tally = .ok report := by
  obtain ⟨o, ho, hmade⟩ : ∃ o, m.outcome? = some o ∧
      (o >>= fun _ ↦ Search.report plan.site plan.config m.shared.token.tally) = .ok report := by
    simpa [conclude] using hok
  cases o with
  | error stop => cases hmade
  | ok u => exact ⟨ho, hmade⟩

private theorem agrees_conclude {plan : Plan} {m : Machine} (hthreads : 1 ≤ config.threads)
    (hsolid : site.root.start.Solid) (h : Moment site config plan m)
    (hok : (conclude plan m).report = some (.ok report)) :
    Agrees site config (conclude plan m) report := by
  obtain ⟨ho, hmade⟩ := outcome_of_report hok
  obtain ⟨hcalm, lost, hacc⟩ := h.accounts hsolid ho
  obtain ⟨⟨capacity, -, rfl⟩, hstart, hm⟩ := h
  have hrun (limit : Option Nat) (now : Duration) :=
    @run_sequential site config.alone limit now rfl hthreads hstart hacc.canEnd
  have hcounts := tally_of_report hmade
  constructor
  · intro limit now
    obtain ⟨s, hrun, htally, -⟩ := hrun limit now
    obtain ⟨alone, hreported, hcounts'⟩ := @exists_report_of_report site config _ config.alone
      m.shared.token.tally s.token.tally hmade fun c hc ↦ by rw [htally, hacc.tally_eq hcalm c hc]
    refine ⟨alone, ?_, fun c hc ↦ ?_⟩
    · rw [hrun]
      exact congrArg some hreported
    · rw [hcounts, hcounts', Tally.get_snapshot, Tally.get_snapshot, htally,
        hacc.tally_eq hcalm c hc]
  · intro limit now
    obtain ⟨s, hrun, -, hsink⟩ := hrun limit now
    rw [hrun]
    apply Multiset.coe_eq_coe.mp
    change (m.shared.sink.toList : Multiset IndexPair) = (s.sink.toList : Multiset IndexPair)
    rw [hacc.sink_eq, hsink, SearchSite.pairsOf_duties]
  · rw [hcounts, Tally.get_snapshot, Tally.get_snapshot,
      Machine.jobsQueued_of_outcome hm ho rfl]

/-- Whatever the strategy, the number of threads and the schedule: a search of a built root that
reports success agrees with searches by one thread. -/
theorem agrees_of_possible {buildConfig : Config} {threshold : Threshold} {stores : Stores}
    {r : Root} {built : BuildSite} {test : AdjacencyTest}
    (hbuild : (Root.build buildConfig threshold).run.run { stores } = (.ok r, built))
    (hvalid : config.validate = .ok ()) (hpossible : Possible ⟨r, built.stores, test⟩ config result)
    (hok : result.report = some (.ok report)) :
    Agrees ⟨r, built.stores, test⟩ config result report := by
  have hbuilt := Root.built_of_build hbuild
  cases hpossible with
  | overflow hcapacity => simp at hok
  | nothing hcapacity hstart => exact agrees_nothing hstart hok
  | conclude h =>
    exact agrees_conclude (Config.threads_pos_of_validate hvalid) (hbuilt.solid h.nonempty) h hok

/-- Four rays searched by a pool of two threads. -/
theorem agrees_of_possible_crossing : ∃ r built report,
    (Root.build { order := .natural } ⟨1⟩).run.run { stores := Stores.crossing } = (.ok r, built) ∧
    Agrees ⟨r, built.stores, .combinatorial⟩ (.barrierPool 2)
      (run ⟨r, built.stores, .combinatorial⟩ (.barrierPool 2) none) report := by
  have hpasses : Root.crossingPasses (fun r stores ↦
      (run ⟨r, stores, .combinatorial⟩ (.barrierPool 2) none).report.any (·.isOk)) = true := by
    decide +kernel
  obtain ⟨r, built, hbuild, hrun⟩ := Root.exists_build_crossing hpasses
  obtain ⟨o, ho, hok⟩ := (Option.any_eq_true _ _).mp hrun
  cases o with
  | error stop => cases hok
  | ok report =>
    exact ⟨r, built, report, hbuild,
      agrees_of_possible hbuild (by decide) (possible_run _ _ _ _) ho⟩

end Search
end RayAdjacency
