import RayAdjacency.Proofs.Search.Found
import RayAdjacency.Proofs.Traversal.Sequential

/-!
# Exactness of sequential searches

The whole way from three stores to the pairs found: a build rearranges the stores and leaves a
sound root, and a search of one thread does all duties of the root. So it finds exactly the
adjacent pairs of the rearranged stores, each once.
-/

namespace RayAdjacency

/-- A configuration that can be run has a thread. -/
theorem Config.threads_pos_of_validate {config : Config} (h : config.validate = .ok ()) :
    1 ≤ config.threads := by
  by_contra hnone
  have hzero : config.threads = 0 := by omega
  have hfault : config.fault? = some .noThread := by
    rw [fault?, hzero]
    rfl
  rw [validate, hfault] at h
  cases h

namespace Root.Built

variable {config : Config} {threshold : Threshold} {stores stores' : Stores} {r : Root} {width : Nat}

/-- Comparisons over stores that can be read never stop, with a delegate that always answers. -/
theorem quiet (h : Built config threshold stores stores' r)
    (hread : ∀ side, (stores'.side side).Readable) (hmemory : stores.InMemory) {test : AdjacencyTest}
    (hdecides : ∀ judge, test = .rank judge → ∀ p n z, ∃ verdict, judge p n z = .ok verdict) :
    (⟨r, stores', test⟩ : SearchSite).Quiet {} where
  answers := hread
  read _ _ _ := rfl
  judge _ := rfl
  decides := hdecides
  inMemory side := (h.rearranged side).size_eq ▸ hmemory side

/-- The rays of a tree over stores that lie in memory can be counted. -/
theorem rayCount_lt (h : Built config threshold stores stores' r) (hmemory : stores.InMemory)
    (side : Side) : (r.tree side).rayCount < wordLimit := by
  have hmem := hmemory side
  rw [Node.rayCount_eq_length, (h.grown side).indices_eq, Node.indicesFrom, List.length_range',
    (h.rearranged side).size_eq]
  rw [bufferLimit] at hmem
  rw [wordLimit]
  omega

end Root.Built

namespace Search

variable {site : SearchSite} {config : Config} {limit : Option Nat} {now : Duration}

private theorem checkedRayCount_of_lt {n : Node} (h : n.rayCount < wordLimit) :
    n.checkedRayCount = .ok n.rayCount := by
  rw [Node.checkedRayCount, Outcome.add_of_lt (by omega)]
  rfl

/-- Counts that balance do so for a 64-bit reader as well. -/
theorem entered_snapshot {tally : Tally} (hbalance : tally.pruned + tally.leaves = tally.enterCalls)
    (hcalls : tally.enterCalls < wordLimit) :
    tally.snapshot.entered = .ok tally.snapshot.leaves := by
  have hcalls' : tally.snapshot.enterCalls = tally.enterCalls := Nat.mod_eq_of_lt hcalls
  have hpruned : tally.snapshot.pruned = tally.pruned := Nat.mod_eq_of_lt (by omega)
  have hleaves : tally.snapshot.leaves = tally.leaves := Nat.mod_eq_of_lt (by omega)
  rw [Tally.entered, hcalls', hpruned, hleaves, Outcome.sub_of_le (by omega)]
  congr 1
  omega

/-- Counts that balance make a report. -/
theorem exists_report {tally : Tally} (hbalance : tally.pruned + tally.leaves = tally.enterCalls)
    (hcalls : tally.enterCalls < wordLimit) (hpositive : site.root.positive.rayCount < wordLimit)
    (hnegative : site.root.negative.rayCount < wordLimit) :
    ∃ r, report site config tally = .ok r := by
  rw [report]
  simp only [entered_snapshot hbalance hcalls, checkedRayCount_of_lt hpositive,
    checkedRayCount_of_lt hnegative, Outcome.ok_bind]
  rw [if_neg (not_not.mpr rfl)]
  exact ⟨_, rfl⟩

/-- A search of one thread has no queue. -/
theorem plan_of_sequential (hseq : config.strategy = .sequential) :
    config.queueCapacity = .ok none := by
  rw [Config.queueCapacity, hseq]
  rfl

/-- A search of one thread comes to rest with all duties done, unless there is nothing to do. -/
theorem run_sequential (hseq : config.strategy = .sequential) (hthreads : 1 ≤ config.threads)
    (hstart : site.root.start.isEmpty = false)
    (hcan : ∀ d ∈ site.duties site.root.start, d.CanEnd site) :
    ∃ s : Shared, run site config limit now
        = conclude ⟨site, config, 0⟩ ⟨⟨"main", [], .ret (.ok ())⟩, [], s⟩ ∧
      s.token.tally = site.tallyOf (site.duties site.root.start) ∧
      s.sink.toList = site.found site.root.start := by
  obtain ⟨s, n, hn, hreaches, htally, hsink⟩ :=
    @Machine.reaches_end ⟨site, config, 0⟩ limit now hseq hthreads hcan
  refine ⟨s, ?_, htally, hsink⟩
  rw [run, plan_of_sequential hseq]
  simp only [hstart, Option.getD_none]
  have hrun := hreaches.run_eq rfl hn
  exact congrArg (conclude ⟨site, config, 0⟩) hrun

/-- A search with an empty side finds nothing. -/
theorem run_of_isEmpty {capacity : Option Nat} (hcapacity : config.queueCapacity = .ok capacity)
    (hstart : site.root.start.isEmpty = true) :
    run site config limit now = nothing site config := by
  rw [run, hcapacity]
  simp only [hstart]
  rfl

/-- A search with an empty side finds no pairs. -/
theorem pairs_nothing (site : SearchSite) (config : Config) :
    (nothing site config).pairs = #[] := by
  rw [nothing]
  split
  · rfl
  · split <;> rfl

/-- A search with an empty side asks nothing. -/
theorem asked_nothing (site : SearchSite) (config : Config) :
    (nothing site config).asked = #[] := by
  rw [nothing]
  split
  · rfl
  · split <;> rfl

/-- What a search of one thread leaves in the sink. -/
theorem pairs_run_sequential (hseq : config.strategy = .sequential) (hthreads : 1 ≤ config.threads)
    (hcan : ∀ d ∈ site.duties site.root.start, d.CanEnd site) :
    (run site config limit now).pairs.toList = site.found site.root.start := by
  by_cases hstart : site.root.start.isEmpty = true
  · rw [run_of_isEmpty (plan_of_sequential hseq) hstart, pairs_nothing,
      SearchSite.found_of_isEmpty hstart]
  · obtain ⟨s, hrun, -, hsink⟩ :=
      @run_sequential site config limit now hseq hthreads (Bool.eq_false_iff.mpr hstart) hcan
    rw [hrun]
    exact hsink

/-- A search of one thread reports success as long as its counts fit their counters. -/
theorem report_run_sequential (hseq : config.strategy = .sequential)
    (hthreads : 1 ≤ config.threads) (hcan : ∀ d ∈ site.duties site.root.start, d.CanEnd site)
    (hvisits : (site.root.visits site.root.start).length < wordLimit)
    (hpositive : site.root.positive.rayCount < wordLimit)
    (hnegative : site.root.negative.rayCount < wordLimit) :
    ∃ r, (run site config limit now).report = some (.ok r) := by
  by_cases hstart : site.root.start.isEmpty = true
  · obtain ⟨r, hr⟩ := @exists_report site config {} rfl (by decide) hpositive hnegative
    rw [run_of_isEmpty (plan_of_sequential hseq) hstart, nothing]
    simp only [checkedRayCount_of_lt hpositive, checkedRayCount_of_lt hnegative, Outcome.ok_bind]
    refine ⟨r, ?_⟩
    simp only [pure, Except.pure, hr]
  · obtain ⟨s, hrun, htally, -⟩ :=
      @run_sequential site config limit now hseq hthreads (Bool.eq_false_iff.mpr hstart) hcan
    obtain ⟨hcalls, hbalance⟩ := site.get_tally_duties site.root.start
    rw [← htally] at hcalls hbalance
    obtain ⟨r, hr⟩ := @exists_report site config s.token.tally (hbalance.trans hcalls.symm)
      (Nat.lt_of_le_of_lt (Nat.le_of_eq hcalls) hvisits) hpositive hnegative
    refine ⟨r, ?_⟩
    rw [hrun]
    exact congrArg some hr

/-! ### From stores to pairs -/

/-- A root, and the stores that it lies over, whose adjacent pairs every search of one thread finds,
each once, however many threads the operating system would start and whatever the clock shows. The
search reports success as long as the number of visited pairs fits a counter. -/
structure Exact (config : Config) (threshold : Threshold) (r : Root) (stores : Stores) : Prop where
  report : (r.visits r.start).length < wordLimit → ∀ limit now,
    ∃ report, (run ⟨r, stores, .combinatorial⟩ config limit now).report = some (.ok report)
  nodup : ∀ limit now, (run ⟨r, stores, .combinatorial⟩ config limit now).pairs.toList.Nodup
  mem_iff : ∀ limit now x, x ∈ (run ⟨r, stores, .combinatorial⟩ config limit now).pairs ↔
    stores.Adjacent threshold x

/-- A way to build a root that never stops, rearranges the stores, and leaves a root that is
searched exactly. -/
def BuildsExact (config : Config) (threshold : Threshold) (stores : Stores) (m : BuildM Root) :
    Prop :=
  Ends m { stores } (fun r site ↦ stores.Rearranged site.stores ∧ Exact config threshold r site.stores)
    fun _ _ ↦ False

private theorem exact_of_built {threshold : Threshold} {stores stores' : Stores} {r : Root}
    {width : Nat} (hthreads : 1 ≤ config.threads) (hseq : config.strategy = .sequential)
    (hready : stores.Ready width) (hmemory : stores.InMemory)
    (hbuilt : r.Built config threshold stores stores') : Exact config threshold r stores' := by
  let site : SearchSite := ⟨r, stores', .combinatorial⟩
  have hsite : site.Sound := hbuilt.sound hready.uniform.sized .combinatorial
  have hquiet : site.Quiet {} :=
    hbuilt.quiet (hbuilt.rearranged.ready hready).readable hmemory fun _ htest ↦ by cases htest
  have hcan := SearchSite.canEnd_of_quiet hsite hsite.fits hquiet
  have hsettled := SearchSite.settled_found hsite hsite.fits hquiet
  have hpairs (limit : Option Nat) (now : Duration) :
      (run site config limit now).pairs.toList = site.found r.start :=
    pairs_run_sequential hseq hthreads hcan
  constructor
  · intro hvisits limit now
    exact report_run_sequential hseq hthreads hcan hvisits (hbuilt.rayCount_lt hmemory .positive)
      (hbuilt.rayCount_lt hmemory .negative)
  · intro limit now
    rw [hpairs]
    exact hsettled.nodup
  · intro limit now x
    rw [← Array.mem_toList_iff, hpairs, hsite.mem_settled_iff hsettled, ← hbuilt.threshold_eq]
    exact Iff.rfl

/-- A build over ready stores followed by a search of one thread finds exactly the adjacent pairs
of the rearranged stores, each once: for the order that the configuration asks for, and for the
order found from any samples of well-formed patterns. -/
theorem builds_exact {threshold : Threshold} {stores : Stores} {width : Nat}
    (hbuildable : Root.Buildable config width stores) (hmemory : stores.InMemory)
    (hseq : config.strategy = .sequential) :
    BuildsExact config threshold stores (Root.build config threshold) ∧
      ∀ samplesPerBit seed samples, config.order = .sampled samplesPerBit seed →
        BitOrder.Drawn width samplesPerBit (fun z ↦ z.WellFormed ∧ z.capacity = width) samples →
        ∃ order, BitOrder.ofSamples samples = .ok order ∧
          BuildsExact config threshold stores (Root.buildTrees config threshold order) := by
  have hthreads := Config.threads_pos_of_validate hbuildable.valid
  have hready := hbuildable.ready
  constructor
  · refine (Root.ends_build { stores }).mono ?_ fun _ _ hbad ↦ hbad hbuildable
    intro r site hbuilt
    exact ⟨hbuilt.rearranged, exact_of_built hthreads hseq hready hmemory hbuilt⟩
  · intro samplesPerBit seed samples hrule hdrawn
    obtain ⟨order, horder, -⟩ :=
      BitOrder.exists_ofSamples hdrawn (hbuildable.inRange samplesPerBit seed hrule)
    refine ⟨order, horder, ?_⟩
    refine (Root.ends_buildTrees order { stores }).mono ?_ fun _ _ hbad ↦ hbad hready
    rintro r site ⟨hbuilt, -⟩
    exact ⟨hbuilt.rearranged, exact_of_built hthreads hseq hready hmemory hbuilt⟩

/-- The two positive of the crossing rays, drawn again and again for each of four bits. -/
def crossingSamples : List (List (Pattern × Pattern)) :=
  List.replicate 4 (List.replicate defaultSamplesPerBit (.ofWords [3#64] 4, .ofWords [6#64] 4))

private theorem drawn_crossingSamples : BitOrder.Drawn 4 defaultSamplesPerBit
    (fun z ↦ z.WellFormed ∧ z.capacity = 4) crossingSamples where
  length_eq := List.length_replicate
  length_pairs pairs hpairs := by
    rw [List.eq_of_mem_replicate hpairs, List.length_replicate]
  patterns pairs hpairs pair hpair := by
    rw [List.eq_of_mem_replicate hpairs] at hpair
    rw [List.eq_of_mem_replicate hpair]
    exact ⟨⟨by decide, rfl⟩, ⟨by decide, rfl⟩⟩

/-- Four rays searched by one thread, with an order that depends on the draws: those that the
configuration asks for, or some given ones. -/
theorem builds_exact_crossing : BuildsExact {} ⟨1⟩ Stores.crossing (Root.build {} ⟨1⟩) ∧
    ∃ order, BitOrder.ofSamples crossingSamples = .ok order ∧
      BuildsExact {} ⟨1⟩ Stores.crossing (Root.buildTrees {} ⟨1⟩ order) := by
  have hinRange : ({} : Config).order.InRange 4 := by
    rintro samplesPerBit seed ⟨⟩
    decide
  have hmemory : Stores.crossing.InMemory := by rintro (_ | _ | _) <;> decide
  obtain ⟨hbuild, hsampled⟩ := @builds_exact {} ⟨1⟩ Stores.crossing 4
    ⟨by decide, Stores.ready_crossing, hinRange, by decide⟩ hmemory rfl
  exact ⟨hbuild, hsampled defaultSamplesPerBit _ crossingSamples rfl drawn_crossingSamples⟩

end Search
end RayAdjacency
