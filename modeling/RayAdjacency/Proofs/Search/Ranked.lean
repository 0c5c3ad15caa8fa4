import RayAdjacency.Proofs.Search.Settled

/-!
# Searches whose delegate decides

A delegate that always answers is asked about each pair of rays that shares enough zeros, once, and
about no other pair, whatever the strategy and the schedule. The search finds the pairs that it
accepts, and counts the others as refused.
-/

namespace RayAdjacency
namespace Search

variable {site : SearchSite} {config : Config}

/-- What a search whose delegate decides has done once it has ended well. -/
structure Ranked (site : SearchSite) (t : Tally) (result : Result) : Prop where
  /-- The delegate has been asked about each pair of rays that shares enough zeros, once, and about
  no other. -/
  asked : ∃ met : List IndexPair, met.Nodup ∧
    (∀ x, x ∈ met ↔ site.stores.Meets site.root.threshold x) ∧
    (result.asked.toList.map some).Perm (met.map site.question?)
  /-- It has been told which zeros the two rays share. -/
  shared_eq : ∀ q ∈ result.asked, q.intersection.positions =
    q.positive.pattern.positions ∩ q.negative.pattern.positions
  nodup : result.pairs.toList.Nodup
  mem_iff : ∀ x, x ∈ result.pairs ↔ site.Accepts x
  emitted_eq : t.get .pairsEmitted = result.pairs.size
  /-- Each of the pairs that share enough zeros is found or refused. -/
  decided_eq : t.get .pairsEmitted + t.get .rankRejected
    = site.stores.meetCount site.root.threshold
  /-- None is left to the one-zero rule or to the filter. -/
  unruled_eq : t.get .immediateAdjacent = 0 ∧ t.get .pendingCandidates = 0 ∧ t.get .filteredOut = 0

/-- Searches whose delegate decides, under any schedule. -/
structure Ranks (site : SearchSite) (config : Config) : Prop where
  /-- If what the strategy sets up is in range and all threads start, the search ends well. -/
  settles : ∀ capacity latest, config.SetsUp capacity latest → site.root.start.isEmpty = false →
    Machine.Settles ⟨site, config, capacity.getD 0⟩ latest (Machine.ofBudget config.threads)
  /-- Then it reports success, with its counts, as long as they fit their counters. -/
  report : ∀ t result, Ended site config (.ok ()) t result → t.get .enterCalls < wordLimit →
    ∃ report, result.report = some (.ok report) ∧
      ∀ c, t.get c < wordLimit → report.tally.get c = t.get c
  ranked : ∀ t result, Ended site config (.ok ()) t result → Ranked site t result

private theorem shared_of_question {x : IndexPair} {q : Question}
    (h : site.question? x = some q) : q.intersection.positions =
      q.positive.pattern.positions ∩ q.negative.pattern.positions := by
  obtain ⟨p, -, h⟩ := Option.bind_eq_some_iff.mp h
  obtain ⟨n, -, h⟩ := Option.bind_eq_some_iff.mp h
  cases h
  exact Pattern.positions_inter _ _

private theorem ranked_of_counted {t : Tally} {result : Result} {met : List IndexPair}
    (hsite : site.Sound) (hasks : site.test.asks = true)
    (hcounted : SearchSite.Counted site site.root.start met t)
    (hasked : (result.asked.toList.map some).Perm (met.map site.question?))
    (hpairs : Batch.Settled site site.root.start result.pairs.toList)
    (hemitted : t.get .pairsEmitted = result.pairs.size) : Ranked site t result := by
  have hruled := hcounted.ruled_eq
  rw [hasks, if_pos rfl] at hruled
  have hfiltered := hcounted.filteredOut_le
  constructor
  · refine ⟨met, hcounted.meets.nodup, fun x ↦ ?_, hasked⟩
    rw [hsite.lenient.mem_settled_iff hcounted.meets, SearchSite.accepts_lenient_iff]
  · intro q hq
    have hq : some q ∈ result.asked.toList.map some :=
      List.mem_map_of_mem (Array.mem_toList_iff.mpr hq)
    obtain ⟨x, -, hx⟩ := List.mem_map.mp (hasked.mem_iff.mp hq)
    exact shared_of_question hx
  · exact hpairs.nodup
  · intro x
    rw [← Array.mem_toList_iff, hsite.mem_settled_iff hpairs]
  · exact hemitted
  · rw [meetCount_eq hsite hcounted.meets, ← hcounted.met_eq]
    omega
  · omega

private theorem ranked_nothing (hsite : site.Sound) (hasks : site.test.asks = true)
    (hstart : site.root.start.isEmpty = true) : Ranked site {} (nothing site config) := by
  have hpairs : Batch.Settled site site.root.start (nothing site config).pairs.toList := by
    rw [pairs_nothing]
    exact SearchSite.settled_of_isEmpty hstart
  refine @ranked_of_counted site {} (nothing site config) [] hsite hasks ?_ ?_ hpairs ?_
  · constructor
    · exact SearchSite.settled_of_isEmpty hstart
    · exact Nat.le_refl 0
    · exact Nat.zero_le _
    · rfl
    · exact Nat.le_refl 0
    · rw [hasks]
      rfl
    · exact fun _ ↦ rfl
  · rw [asked_nothing]
    exact .refl _
  · rw [pairs_nothing]
    rfl

private theorem ranked_conclude {plan : Plan} {m : Machine} (hsite : site.Sound)
    (hquiet : site.Quiet {}) (hasks : site.test.asks = true) (hsolid : site.root.start.Solid)
    (h : Moment site config plan m) (houtcome : m.outcome? = some (.ok ())) :
    Ranked site m.shared.token.tally (conclude plan m) := by
  obtain ⟨hcalm, lost, hacc⟩ := h.accounts hsolid houtcome
  obtain ⟨hcan, htally, hemitted⟩ := tally_of_outcome hsolid h houtcome
  obtain ⟨⟨capacity, -, rfl⟩, -, -⟩ := h
  obtain ⟨met, hcounted, hasked⟩ := SearchSite.exists_counted hsite hsite.fits hcan
  refine ranked_of_counted hsite hasks (hcounted.congr htally) ?_ ?_ hemitted
  · apply Multiset.coe_eq_coe.mp
    rw [hasks, if_pos rfl] at hasked
    rw [← hasked, ← hacc.asked_eq hcalm]
    rfl
  · have hperm : m.shared.sink.toList.Perm (site.found site.root.start) := by
      apply Multiset.coe_eq_coe.mp
      rw [hacc.sink_eq, SearchSite.pairsOf_duties]
    have hfound := SearchSite.settled_found hsite hsite.fits hquiet
    exact ⟨hperm.nodup_iff.mpr hfound.nodup, fun x ↦ hperm.mem_iff.trans (hfound.mem_iff x)⟩

/-- Under any strategy and any schedule, the search of a built root puts the pairs of rays that share
enough zeros to a delegate that always answers, and finds the pairs that it accepts. -/
theorem ranks_of_build {buildConfig : Config} {threshold : Threshold} {stores : Stores}
    {r : Root} {built : BuildSite} (verdict : Ray → Ray → Pattern → Bool)
    (hbuild : (Root.build buildConfig threshold).run.run { stores } = (.ok r, built))
    (hs : stores.Sized) (hread : ∀ side, (built.stores.side side).Readable)
    (hmemory : stores.InMemory) (hvalid : config.validate = .ok ()) :
    Ranks ⟨r, built.stores, .rank fun p n z ↦ .ok (verdict p n z)⟩ config := by
  have hbuilt := Root.built_of_build hbuild
  let site : SearchSite := ⟨r, built.stores, .rank fun p n z ↦ .ok (verdict p n z)⟩
  have hsite : site.Sound := hbuilt.sound hs site.test
  have hquiet : site.Quiet {} := by
    refine hbuilt.quiet hread hmemory ?_
    rintro judge ⟨⟩ p n z
    exact ⟨verdict p n z, rfl⟩
  constructor
  · intro capacity latest hsetup hstart
    exact Machine.settles_of_feasible (feasible_of_built hbuilt hs hquiet hvalid hsetup hstart)
  · intro t result h hcalls
    obtain ⟨report, hreport, htally⟩ := exists_report_of_ended (hbuilt.rayCount_lt hmemory) h hcalls
    refine ⟨report, hreport, fun c hc ↦ ?_⟩
    rw [htally, Tally.get_snapshot, Nat.mod_eq_of_lt hc]
  · intro t result h
    cases h with
    | nothing hcapacity hstart => exact ranked_nothing hsite rfl hstart
    | conclude h houtcome =>
      exact ranked_conclude hsite hquiet rfl (hbuilt.solid h.nonempty) h houtcome

/-- Four rays searched by a pool of two threads, with a delegate that accepts the pairs of one ray. -/
theorem ranks_of_build_crossing : ∃ r built t result, ∃ verdict : Ray → Ray → Pattern → Bool,
    (Root.build { order := .natural } ⟨1⟩).run.run { stores := Stores.crossing } = (.ok r, built) ∧
    Ended ⟨r, built.stores, .rank fun p n z ↦ .ok (verdict p n z)⟩ (.barrierPool 2) (.ok ())
      t result ∧
    Machine.Settles ⟨⟨r, built.stores, .rank fun p n z ↦ .ok (verdict p n z)⟩, .barrierPool 2, 128⟩
      ⟨86400, 0⟩ (Machine.ofBudget 2) ∧
    Ranked ⟨r, built.stores, .rank fun p n z ↦ .ok (verdict p n z)⟩ t result := by
  let verdict (p n : Ray) (z : Pattern) : Bool := p.id == 0
  have hpasses : Root.crossingPasses (fun r stores ↦ !r.start.isEmpty &&
      ((Machine.ofBudget 2).run ⟨⟨r, stores, .rank fun p n z ↦ .ok (verdict p n z)⟩,
        .barrierPool 2, 128⟩ none .zero 400).outcome?.any (·.isOk)) = true := by
    decide +kernel
  obtain ⟨r, built, hbuild, hrun⟩ := Root.exists_build_crossing hpasses
  obtain ⟨hstart, hrun⟩ := Bool.and_eq_true_iff.mp hrun
  obtain ⟨t, result, hended⟩ :=
    @exists_ended_of_run ⟨r, built.stores, .rank fun p n z ↦ .ok (verdict p n z)⟩ (.barrierPool 2)
      (some 128) .zero 400 rfl (by simpa using hstart) hrun
  have hready := (Root.built_of_build hbuild).rearranged.ready Stores.ready_crossing
  have hmemory : Stores.crossing.InMemory := by rintro (_ | _ | _) <;> decide
  have hranks : Ranks ⟨r, built.stores, .rank fun p n z ↦ .ok (verdict p n z)⟩ (.barrierPool 2) :=
    ranks_of_build verdict hbuild Stores.ready_crossing.uniform.sized hready.readable hmemory
      (by decide)
  exact ⟨r, built, t, result, verdict, hbuild, hended,
    hranks.settles (some 128) _ ⟨rfl, fun _ ↦ rfl⟩ (by simpa using hstart),
    hranks.ranked _ _ hended⟩

end Search
end RayAdjacency
