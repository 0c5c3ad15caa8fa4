import Mathlib.Data.Set.Card
import RayAdjacency.Proofs.Search.Counted
import RayAdjacency.Proofs.Search.Schedules
import RayAdjacency.Proofs.Traversal.Gate

/-!
# The laws of the counts

However a search of a built root has ended, it has left each node pair that it has entered. A
search by the one-zero rule and the filter that has ended well has decided every pair of rays that
shares enough zeros, wherever in the trees the two rays lie, and each of them once.
-/

namespace RayAdjacency

/-- The number of pairs of rays that share as many zeros as the threshold asks for. -/
noncomputable def Stores.meetCount (s : Stores) (threshold : Threshold) : Nat :=
  {x | s.Meets threshold x}.ncard

namespace Search

variable {site : SearchSite} {config : Config}

/-- What a search that has ended, under any schedule, leaves behind: its outcome, what it has
counted, and its result. -/
inductive Ended (site : SearchSite) (config : Config) : Outcome Unit → Tally → Result → Prop
  /-- There was nothing to search. -/
  | nothing {capacity : Option Nat} (hcapacity : config.queueCapacity = .ok capacity)
      (hstart : site.root.start.isEmpty = true) :
      Ended site config (.ok ()) {} (nothing site config)
  /-- The calling thread has come to an outcome. -/
  | conclude {plan : Plan} {m : Machine} {outcome : Outcome Unit} (h : Moment site config plan m)
      (houtcome : m.outcome? = some outcome) :
      Ended site config outcome m.shared.token.tally (conclude plan m)

/-- A run in the fixed order that comes to a good end is a search that has ended. -/
theorem exists_ended_of_run {capacity : Option Nat} {now : Duration} {fuel : Nat}
    (hcapacity : config.queueCapacity = .ok capacity) (hstart : site.root.start.isEmpty = false)
    (h : ((Machine.ofBudget config.threads).run ⟨site, config, capacity.getD 0⟩ none now
      fuel).outcome?.any (·.isOk) = true) : ∃ t result, Ended site config (.ok ()) t result := by
  obtain ⟨o, ho, hok⟩ := (Option.any_eq_true _ _).mp h
  cases o with
  | error stop => cases hok
  | ok u =>
    have hmoment : Moment site config _ _ :=
      ⟨⟨capacity, hcapacity, rfl⟩, hstart, Machine.leads_run none now fuel _⟩
    exact ⟨_, _, .conclude hmoment ho⟩

/-- The counts of a search by the one-zero rule and the filter that has ended well. -/
structure Decided (site : SearchSite) (t : Tally) (pairs : Array IndexPair) : Prop where
  /-- Each pair of rays that shares enough zeros is accepted at once or put off. -/
  ruled_eq : t.get .immediateAdjacent + t.get .pendingCandidates
    = site.stores.meetCount site.root.threshold
  met_le : site.stores.meetCount site.root.threshold ≤ t.get .leafPairs
  leafPairs_le : t.get .leafPairs ≤ site.stores.positive.size * site.stores.negative.size
  /-- All of these are found but those that are filtered out. -/
  emitted_eq : t.get .pairsEmitted + t.get .filteredOut
    = t.get .immediateAdjacent + t.get .pendingCandidates
  filteredOut_le : t.get .filteredOut ≤ t.get .pendingCandidates
  pairs_eq : t.get .pairsEmitted = pairs.size

/-- The laws that the counts of every search obey, under any schedule. -/
structure Accountable (site : SearchSite) (config : Config) : Prop where
  /-- Each node pair that has been entered has been left, however the search has ended. -/
  left_eq : ∀ outcome t result, Ended site config outcome t result →
    t.get .enterCalls = t.get .pruned + t.get .leaves
  /-- So no search fails for want of balance: a failure that it reports has made it fail. -/
  failed_eq : ∀ outcome t result failure, Ended site config outcome t result →
    t.get .enterCalls < wordLimit → result.report = some (.error (.failed failure)) →
      outcome = .error (.failed failure)
  decided : site.test = .combinatorial → ∀ t result, Ended site config (.ok ()) t result →
    Decided site t result.pairs
  /-- A report shows the counts, reduced to 64 bits. -/
  reported_eq : ∀ outcome t result report, Ended site config outcome t result →
    result.report = some (.ok report) → ∀ c, report.tally.get c = t.get c % wordLimit

/-- The pairs of rays that share enough zeros can be counted in any list of them. -/
theorem meetCount_eq (hsite : site.Sound) {met : List IndexPair}
    (hmet : Batch.Settled site.lenient site.root.start met) :
    site.stores.meetCount site.root.threshold = met.length := by
  have hset : {x | site.stores.Meets site.root.threshold x} = (met.toFinset : Set IndexPair) := by
    ext x
    rw [Set.mem_ofPred_eq, Finset.mem_coe, List.mem_toFinset,
      hsite.lenient.mem_settled_iff hmet, SearchSite.accepts_lenient_iff]
  rw [Stores.meetCount, hset, Set.ncard_coe_finset, List.toFinset_card_of_nodup hmet.nodup]

private theorem length_indices (hsite : site.Sound) (side : Side) :
    (site.root.tree side).indices.length = (site.stores.side side).size := by
  rw [hsite.indices_eq, Node.indicesFrom, List.length_range', Nat.sub_zero]

/-- When a search has ended, every pair that was asked for has been pruned or left. -/
theorem left_of_ended {outcome : Outcome Unit} {t : Tally} {result : Result}
    (h : Ended site config outcome t result) :
    t.get .enterCalls = t.get .pruned + t.get .leaves := by
  cases h with
  | nothing => rfl
  | conclude h houtcome => exact Machine.entered_of_outcome h.reachable houtcome

private theorem report_ne_failed {t : Tally} {failure : Failure}
    (hleft : t.get .enterCalls = t.get .pruned + t.get .leaves)
    (hcalls : t.get .enterCalls < wordLimit) :
    report site config t ≠ .error (.failed failure) := by
  have hcount (n : Node) : n.checkedRayCount ≠ .error (.failed failure) := by
    rw [Node.checkedRayCount, Outcome.add]
    split <;> intro hcount <;> cases hcount
  rw [report]
  simp only [entered_snapshot hleft.symm hcalls, Outcome.ok_bind]
  rw [if_neg (not_not.mpr rfl)]
  intro hreport
  cases hpositive : site.root.positive.checkedRayCount with
  | error stop =>
    rw [hpositive] at hreport
    cases hreport
    exact hcount _ hpositive
  | ok positive =>
    cases hnegative : site.root.negative.checkedRayCount with
    | error stop =>
      rw [hpositive, hnegative] at hreport
      cases hreport
      exact hcount _ hnegative
    | ok negative =>
      rw [hpositive, hnegative] at hreport
      cases hreport

private theorem failed_of_ended {outcome : Outcome Unit} {t : Tally} {result : Result}
    {failure : Failure} (h : Ended site config outcome t result)
    (hcalls : t.get .enterCalls < wordLimit)
    (hfailed : result.report = some (.error (.failed failure))) :
    outcome = .error (.failed failure) := by
  have hreport := @report_ne_failed site config t failure (left_of_ended h) hcalls
  cases h with
  | nothing =>
    rw [report_nothing, Option.some_inj] at hfailed
    exact absurd hfailed hreport
  | @conclude plan m outcome h houtcome =>
    obtain ⟨⟨capacity, -, rfl⟩, -, -⟩ := h
    rw [conclude, houtcome, Option.map_some, Option.some_inj] at hfailed
    cases outcome with
    | error stop =>
      cases hfailed
      rfl
    | ok _ => exact absurd hfailed hreport

/-- When a search has ended well, all its duties can be done, and have been counted. -/
theorem tally_of_outcome {plan : Plan} {m : Machine} (hsolid : site.root.start.Solid)
    (h : Moment site config plan m) (houtcome : m.outcome? = some (.ok ())) :
    (∀ d ∈ site.duties site.root.start, d.CanEnd site) ∧
      (∀ c : Counter, c.isOfSearch = true → m.shared.token.tally.get c =
        (site.tallyOf (site.duties site.root.start)).get c) ∧
      m.shared.token.tally.get .pairsEmitted = m.shared.sink.size := by
  obtain ⟨hcalm, lost, hacc⟩ := h.accounts hsolid houtcome
  obtain ⟨⟨capacity, -, rfl⟩, -, -⟩ := h
  refine ⟨hacc.canEnd, hacc.tally_eq hcalm, ?_⟩
  rw [hacc.emitted_eq, ← hacc.sink_eq, Multiset.coe_card, Array.length_toList]

private theorem decided_of_counted {t : Tally} {pairs : Array IndexPair} {met : List IndexPair}
    (hsite : site.Sound) (htest : site.test = .combinatorial)
    (hcounted : SearchSite.Counted site site.root.start met t)
    (hpairs : t.get .pairsEmitted = pairs.size) : Decided site t pairs := by
  have hasks : site.test.asks = false := by
    rw [htest]
    rfl
  have hmet := meetCount_eq hsite hcounted.meets
  have hruled := hcounted.ruled_eq
  rw [hasks, if_neg Bool.false_ne_true] at hruled
  have hdecided := hcounted.met_eq
  rw [hcounted.rankRejected_eq hasks, Nat.add_zero] at hdecided
  constructor
  · rw [hruled, hmet]
  · rw [hmet]
    exact hcounted.met_le
  · have hpositive := length_indices hsite .positive
    have hnegative := length_indices hsite .negative
    exact hpositive ▸ hnegative ▸ hcounted.leafPairs_le
  · rw [hdecided, hruled]
  · exact hcounted.filteredOut_le
  · exact hpairs

private theorem decided_nothing (hsite : site.Sound) (hstart : site.root.start.isEmpty = true) :
    Decided site {} (nothing site config).pairs := by
  have hnone : site.stores.meetCount site.root.threshold = 0 :=
    meetCount_eq hsite (SearchSite.settled_of_isEmpty hstart)
  rw [pairs_nothing]
  constructor
  · rw [hnone]
    rfl
  · rw [hnone]
    exact Nat.zero_le _
  · exact Nat.zero_le _
  · rfl
  · exact Nat.le_refl 0
  · rfl

/-- The counts of every search of a built root obey their laws, under any strategy and any schedule,
whatever fails. -/
theorem accountable_of_build {buildConfig : Config} {threshold : Threshold} {stores : Stores}
    {r : Root} {built : BuildSite} {test : AdjacencyTest}
    (hbuild : (Root.build buildConfig threshold).run.run { stores } = (.ok r, built))
    (hs : stores.Sized) : Accountable ⟨r, built.stores, test⟩ config := by
  have hbuilt := Root.built_of_build hbuild
  let site : SearchSite := ⟨r, built.stores, test⟩
  have hsite : site.Sound := hbuilt.sound hs test
  constructor
  · exact fun outcome t result ↦ left_of_ended
  · exact fun outcome t result failure ↦ failed_of_ended
  · intro htest t result h
    cases h with
    | nothing hcapacity hstart => exact decided_nothing hsite hstart
    | conclude h houtcome =>
      obtain ⟨hcan, htally, hpairs⟩ := tally_of_outcome (hbuilt.solid h.nonempty) h houtcome
      obtain ⟨met, hcounted, -⟩ := SearchSite.exists_counted hsite hsite.fits hcan
      exact decided_of_counted hsite htest (hcounted.congr htally) hpairs
  · intro outcome t result report h hok c
    cases h with
    | nothing =>
      rw [tally_of_report (report_nothing_eq_ok_iff.mp hok), Tally.get_snapshot]
    | conclude h houtcome =>
      rw [tally_of_report (outcome_of_report hok).2, Tally.get_snapshot]

/-- Four rays searched by a pool of two threads, to a good end. -/
theorem accountable_of_build_crossing : ∃ r built t result,
    (Root.build { order := .natural } ⟨1⟩).run.run { stores := Stores.crossing } = (.ok r, built) ∧
    Ended ⟨r, built.stores, .combinatorial⟩ (.barrierPool 2) (.ok ()) t result ∧
    Accountable ⟨r, built.stores, .combinatorial⟩ (.barrierPool 2) ∧
    Decided ⟨r, built.stores, .combinatorial⟩ t result.pairs := by
  have hpasses : Root.crossingPasses (fun r stores ↦ !r.start.isEmpty &&
      ((Machine.ofBudget 2).run ⟨⟨r, stores, .combinatorial⟩, .barrierPool 2, 128⟩ none
        .zero 400).outcome?.any (·.isOk)) = true := by
    decide +kernel
  obtain ⟨r, built, hbuild, hrun⟩ := Root.exists_build_crossing hpasses
  obtain ⟨hstart, hrun⟩ := Bool.and_eq_true_iff.mp hrun
  obtain ⟨t, result, hended⟩ :=
    @exists_ended_of_run ⟨r, built.stores, .combinatorial⟩ (.barrierPool 2) (some 128) .zero 400 rfl
      (by simpa using hstart) hrun
  have haccountable : Accountable ⟨r, built.stores, .combinatorial⟩ (.barrierPool 2) :=
    accountable_of_build hbuild Stores.ready_crossing.uniform.sized
  exact ⟨r, built, t, result, hbuild, hended, haccountable, haccountable.decided rfl _ _ hended⟩

end Search
end RayAdjacency
