import RayAdjacency.Proofs.Search.Settled

/-!
# Searches that nothing disturbs

A configuration that is accepted and in range can be run: over stores that answer the trees are built,
and no thread of a search panics or fails at any moment. The check of a configuration does not look
at the range, so it lets through a queue that no memory has room for, and a time limit that ends
past the last moment of the clock.
-/

namespace RayAdjacency

/-- Configurations whose numbers stay in range up to the moment `latest`: the queue of a pool fits
into memory, and the clock can show the end of every wait of a worker that begins by then. -/
structure Config.InRange (config : Config) (latest : Duration) : Prop where
  queue : ∀ factor, config.strategy = .barrierPool factor →
    queuePlaceSize * (max 1 factor * max 1 config.threads) ≤ bufferLimit
  clock : 1 < config.threads → ∀ levels limit, config.strategy = .jobQueue levels (.timeout limit) →
    latest.toNanos + limit.toNanos < Duration.clockLimit

namespace Config

variable {config : Config} {capacity : Option Nat} {latest : Duration}

private theorem queueCapacity_pool {factor : Nat} (h : config.strategy = .barrierPool factor) :
    (∃ capacity, config.queueCapacity = .ok capacity) ↔
      queuePlaceSize * (max 1 factor * max 1 config.threads) ≤ bufferLimit := by
  rw [queueCapacity, h]
  dsimp only
  rw [Outcome.mul]
  split
  · rw [Outcome.ok_bind, Outcome.reserve]
    split
    · next hfits => exact ⟨fun _ ↦ hfits, fun _ ↦ ⟨_, rfl⟩⟩
    · next hfits =>
      refine ⟨fun hset ↦ ?_, fun h ↦ absurd h hfits⟩
      obtain ⟨capacity, hset⟩ := hset
      cases hset
  · next hproduct =>
    refine ⟨fun hset ↦ ?_, fun h ↦ ?_⟩
    · obtain ⟨capacity, hset⟩ := hset
      cases hset
    rw [queuePlaceSize, bufferLimit] at h
    rw [wordLimit] at hproduct
    omega

private theorem passesClock_eq_false_iff {strategy : Strategy} :
    strategy.releasePolicy.passesClock latest = false ↔
      ∀ levels limit, strategy = .jobQueue levels (.timeout limit) →
        latest.toNanos + limit.toNanos < Duration.clockLimit := by
  constructor
  · rintro h levels limit rfl
    simpa [Strategy.releasePolicy, ReleasePolicy.passesClock] using h
  · intro h
    cases strategy with
    | jobQueue levels release =>
      cases release with
      | timeout limit =>
        simpa [Strategy.releasePolicy, ReleasePolicy.passesClock] using h levels limit rfl
      | _ => rfl
    | _ => rfl

/-- Up to a moment of the clock, a configuration can be set up just if its numbers stay in range. -/
theorem exists_setsUp_iff :
    (∃ capacity, config.SetsUp capacity latest) ↔ config.InRange latest := by
  constructor
  · rintro ⟨capacity, hcapacity, hclock⟩
    refine ⟨fun factor hpool ↦ ?_, fun hthreads ↦ passesClock_eq_false_iff.mp (hclock hthreads)⟩
    exact (queueCapacity_pool hpool).mp ⟨capacity, hcapacity⟩
  · rintro ⟨hqueue, hclock⟩
    have hcapacity : ∃ capacity, config.queueCapacity = .ok capacity := by
      cases hstrategy : config.strategy with
      | barrierPool factor => exact (queueCapacity_pool hstrategy).mpr (hqueue factor hstrategy)
      | _ => exact ⟨none, by rw [queueCapacity, hstrategy]; rfl⟩
    obtain ⟨capacity, hcapacity⟩ := hcapacity
    exact ⟨capacity, hcapacity, fun hthreads ↦ passesClock_eq_false_iff.mpr (hclock hthreads)⟩

end Config

namespace Search

variable {site : SearchSite} {config : Config} {width : Nat} {capacity : Option Nat}
  {latest : Duration}

/-- A search in which nothing fails as long as the environment refuses nothing, and no wait begins
later than `latest`. -/
structure Undisturbed (site : SearchSite) (config : Config) (capacity : Option Nat)
    (latest : Duration) : Prop where
  capacity_eq : config.queueCapacity = .ok capacity
  /-- No thread has panicked or failed at any moment. -/
  healthy : site.root.start.isEmpty = false → ∀ m,
    Machine.Smooth ⟨site, config, capacity.getD 0⟩ latest (Machine.ofBudget config.threads) m →
      m.Healthy
  /-- Under every schedule the search comes to a good end. -/
  settles : site.root.start.isEmpty = false →
    Machine.Settles ⟨site, config, capacity.getD 0⟩ latest (Machine.ofBudget config.threads)
  /-- Then it reports success, as long as its counts fit their counters. -/
  report : ∀ t result, Ended site config (.ok ()) t result → t.get .enterCalls < wordLimit →
    ∃ report, result.report = some (.ok report)
  /-- In the fixed order as well, what is reported is success. -/
  run : (site.root.visits site.root.start).length < wordLimit →
    ∀ now : Duration, now.toNanos ≤ latest.toNanos →
      ∀ outcome, (run site config none now).report = some outcome → ∃ report, outcome = .ok report

private theorem enterCalls_of_ended {t : Tally} {result : Result}
    (hsolid : site.root.start.isEmpty = false → site.root.start.Solid)
    (h : Ended site config (.ok ()) t result)
    (hvisits : (site.root.visits site.root.start).length < wordLimit) :
    t.get .enterCalls < wordLimit := by
  cases h with
  | nothing => decide
  | conclude h houtcome =>
    rw [(tally_of_outcome (hsolid h.nonempty) h houtcome).2.1 .enterCalls rfl,
      (site.get_tally_duties site.root.start).1]
    exact hvisits

private theorem report_of_run (hcapacity : config.queueCapacity = .ok capacity)
    (hcalm : site.root.start.isEmpty = false → ∀ m,
      Machine.Smooth ⟨site, config, capacity.getD 0⟩ latest (Machine.ofBudget config.threads) m →
        ¬m.Troubled)
    (hreport : ∀ t result, Ended site config (.ok ()) t result →
      ∃ report, result.report = some (.ok report))
    {now : Duration} (hnow : now.toNanos ≤ latest.toNanos) {outcome : Outcome Report}
    (h : (run site config none now).report = some outcome) : ∃ report, outcome = .ok report := by
  have hended : ∃ t, Ended site config (.ok ()) t (run site config none now) := by
    rw [run, hcapacity] at h ⊢
    dsimp only at h ⊢
    by_cases hstart : site.root.start.isEmpty = true
    · rw [if_pos hstart]
      exact ⟨_, .nothing hcapacity hstart⟩
    · rw [if_neg hstart] at h ⊢
      rw [Bool.not_eq_true] at hstart
      obtain ⟨o, ho, -⟩ := Option.map_eq_some_iff.mp h
      have hsmooth := @Machine.smooth_run ⟨site, config, capacity.getD 0⟩ latest now hnow
        (effort ⟨site, config, capacity.getD 0⟩) (Machine.ofBudget config.threads)
      obtain rfl := Machine.outcome?_of_not_troubled (hcalm hstart _ hsmooth) ho
      exact ⟨_, .conclude ⟨⟨capacity, hcapacity, rfl⟩, hstart, hsmooth.leads⟩ ho⟩
  obtain ⟨t, hended⟩ := hended
  obtain ⟨report, hok⟩ := hreport t _ hended
  rw [h] at hok
  cases hok
  exact ⟨report, rfl⟩

/-- Over stores that answer, an accepted configuration whose numbers stay in range can be run: the
build ends, and nothing disturbs the search. -/
theorem undisturbed_of_inRange {threshold : Threshold} {stores : Stores}
    (hbuildable : Root.Buildable config width stores) (hmemory : stores.InMemory)
    (hrange : config.InRange latest) : ∃ r built capacity,
      (Root.build config threshold).run.run { stores } = (.ok r, built) ∧
      Undisturbed ⟨r, built.stores, .combinatorial⟩ config capacity latest := by
  obtain ⟨r, built, hbuild⟩ := @Root.exists_build config threshold stores width hbuildable
  have hbuilt := Root.built_of_build hbuild
  obtain ⟨capacity, hsetup⟩ := Config.exists_setsUp_iff.mpr hrange
  let site : SearchSite := ⟨r, built.stores, .combinatorial⟩
  have hquiet : site.Quiet {} :=
    hbuilt.quiet (hbuilt.rearranged.ready hbuildable.ready).readable hmemory fun _ htest ↦ by
      cases htest
  have hfeasible (hstart : r.start.isEmpty = false) :
      (⟨site, config, capacity.getD 0⟩ : Plan).Feasible latest :=
    feasible_of_built hbuilt hbuildable.ready.uniform.sized hquiet hbuildable.valid hsetup hstart
  have hreport (t : Tally) (result : Result) (h : Ended site config (.ok ()) t result)
      (hcalls : t.get .enterCalls < wordLimit) : ∃ report, result.report = some (.ok report) := by
    obtain ⟨report, hreport, -⟩ := exists_report_of_ended (hbuilt.rayCount_lt hmemory) h hcalls
    exact ⟨report, hreport⟩
  refine ⟨r, built, capacity, hbuild, ?_⟩
  constructor
  · exact hsetup.capacity_eq
  · intro hstart m h
    exact Machine.healthy_of_not_troubled h.leads
      (Machine.not_troubled_of_smooth (hfeasible hstart) h)
  · exact fun hstart ↦ Machine.settles_of_feasible (hfeasible hstart)
  · exact hreport
  · intro hvisits now hnow outcome h
    refine report_of_run hsetup.capacity_eq ?_ (fun t result hended ↦ ?_) hnow h
    · exact fun hstart m h ↦ Machine.not_troubled_of_smooth (hfeasible hstart) h
    · exact hreport t result hended (enterCalls_of_ended hbuilt.solid hended hvisits)

/-- Two threads of which the worker waits for a minute at most. -/
def patient : Config where
  threads := 2
  strategy := .jobQueue 1 (.timeout ⟨60, 0⟩)
  order := .natural

/-- Four rays, and a patient worker that begins to wait within a day of the start of the clock. -/
theorem undisturbed_of_inRange_crossing : ∃ r built capacity,
    (Root.build patient ⟨1⟩).run.run { stores := Stores.crossing } = (.ok r, built) ∧
    Undisturbed ⟨r, built.stores, .combinatorial⟩ patient capacity ⟨86400, 0⟩ :=
  undisturbed_of_inRange ⟨by decide, Stores.ready_crossing, nofun, by decide⟩
    (by rintro (_ | _ | _) <;> decide)
    ⟨nofun, fun _ levels limit h ↦ by cases h; decide⟩

/-- A pool of two threads with more queue places than can be counted. -/
def overfull : Config where
  threads := 2
  strategy := .barrierPool 0x8000000000000000
  order := .natural

/-- The overfull pool is accepted, and the trees are built, but every search panics. -/
theorem panics_of_overfull : overfull.validate = .ok () ∧ ∃ r built,
    (Root.build overfull ⟨1⟩).run.run { stores := Stores.crossing } = (.ok r, built) ∧
    ∀ limit now, (run ⟨r, built.stores, .combinatorial⟩ overfull limit now).report =
      some (Outcome.panic "attempt to multiply with overflow") := by
  have hvalid : overfull.validate = .ok () := by decide
  obtain ⟨r, built, hbuild⟩ := @Root.exists_build overfull ⟨1⟩ Stores.crossing 4
    ⟨hvalid, Stores.ready_crossing, nofun, by decide⟩
  refine ⟨hvalid, r, built, hbuild, fun limit now ↦ ?_⟩
  have hcapacity : overfull.queueCapacity = Outcome.panic "attempt to multiply with overflow" := by
    decide
  rw [run, hcapacity]
  rfl

end Search
end RayAdjacency
