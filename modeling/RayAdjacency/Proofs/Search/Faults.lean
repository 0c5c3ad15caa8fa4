import RayAdjacency.Proofs.Search.Schedules

/-!
# Searches in which something fails

Store reads, the delegate and the operating system may fail at any moment, and any job may panic.
A search reports success only if nothing has failed at any moment before (`Machine.Healthy`). The
sink is right at every moment, whatever has failed: it holds accepted pairs alone, none of them
twice, and as many as have been counted.
-/

namespace RayAdjacency

namespace Machine

variable {plan : Plan} {m m' : Machine}

/-- A moment at which nothing has failed, and no thread has reason to pass a node pair over: pairs
are passed over only once the search is aborted. -/
structure Healthy (m : Machine) : Prop where
  ret_ne_error : ∀ t ∈ m.threads, ∀ stop, t.task ≠ .ret (.error stop)
  failure_eq : m.shared.token.children.failure = none
  aborted_eq : m.shared.aborted = false

/-- A search without trouble is healthy. -/
theorem healthy_of_not_troubled (hm : Reachable plan m) (h : ¬Troubled m) : Healthy m := by
  rw [Troubled, not_or] at h
  obtain ⟨hthreads, hshared⟩ := h
  constructor
  · intro t ht stop htask
    apply hthreads
    refine ⟨t, ht, ?_⟩
    rw [Thread.isTroubled, htask]
    rfl
  · simpa [Shared.isTroubled] using hshared
  · by_contra haborted
    rw [Bool.not_eq_false] at haborted
    exact (troubled_of_aborted hm haborted).elim hthreads hshared

/-- When a search has ended well, it has been healthy at every moment. -/
theorem healthy_of_leads (hm : Reachable plan m) (hleads : Leads plan m m')
    (ho : m'.outcome? = some (.ok ())) : Healthy m := by
  apply healthy_of_not_troubled hm
  intro htroubled
  exact (alone_of_outcome (hm.trans hleads) ho).2 rfl (htroubled.leads hm hleads)

end Machine

namespace Search

variable {site : SearchSite} {config : Config} {plan : Plan} {m : Machine}

/-- What a search keeps to under any schedule and whatever fails. -/
structure Honest (site : SearchSite) (config : Config) : Prop where
  /-- No pair is found twice. -/
  nodup : ∀ result, Possible site config result → result.pairs.toList.Nodup
  /-- Only accepted pairs are found. -/
  accepts : ∀ result, Possible site config result → ∀ x ∈ result.pairs, site.Accepts x
  /-- The pairs are counted as they are found. -/
  emitted_eq : ∀ plan m, Moment site config plan m →
    m.shared.token.tally.get .pairsEmitted = m.shared.sink.size
  /-- A report shows how many pairs have been found, reduced to 64 bits. -/
  reported_eq : ∀ result report, Possible site config result →
    result.report = some (.ok report) →
      report.tally.get .pairsEmitted = result.pairs.size % wordLimit
  /-- Success is reported only if nothing has failed before. -/
  healthy : ∀ plan m m' report, Moment site config plan m → m.Leads plan m' →
    (conclude plan m').report = some (.ok report) → m.Healthy

private theorem sink_le_found (hsolid : site.root.start.Solid) (h : Moment site config plan m) :
    (m.shared.sink.toList : Multiset IndexPair) ≤ site.found site.root.start ∧
      m.shared.token.tally.get .pairsEmitted = m.shared.sink.size := by
  obtain ⟨⟨capacity, -, rfl⟩, -, hm⟩ := h
  obtain ⟨done, lost, hacc⟩ := Machine.exists_accounts hsolid hm
  constructor
  · rw [hacc.sink_eq, ← SearchSite.pairsOf_duties, ← hacc.owed_eq]
    simp only [SearchSite.pairsOf_add]
    exact (Multiset.le_add_left _ _).trans (Multiset.le_add_right _ _)
  · rw [hacc.emitted_eq, ← hacc.sink_eq]
    simp

/-- Whatever fails in a search of a built root, under any strategy and any schedule, it does not
hide, and the pairs found are right. Nothing is asked of the stores but that each pattern knows how
many positions it has. -/
theorem honest_of_build {buildConfig : Config} {threshold : Threshold} {stores : Stores}
    {r : Root} {built : BuildSite} {test : AdjacencyTest}
    (hbuild : (Root.build buildConfig threshold).run.run { stores } = (.ok r, built))
    (hs : stores.Sized) : Honest ⟨r, built.stores, test⟩ config := by
  have hbuilt := Root.built_of_build hbuild
  let site : SearchSite := ⟨r, built.stores, test⟩
  have hsite : site.Sound := hbuilt.sound hs test
  have hpairs {result : Result} (h : Possible site config result) :
      (result.pairs.toList : Multiset IndexPair) ≤ site.found site.root.start := by
    cases h with
    | overflow hcapacity => exact Multiset.zero_le _
    | nothing hcapacity hstart =>
      rw [pairs_nothing]
      exact Multiset.zero_le _
    | conclude h => exact (sink_le_found (hbuilt.solid h.nonempty) h).1
  constructor
  · intro result h
    apply Multiset.coe_nodup.mp
    apply Multiset.nodup_of_le (hpairs h)
    exact Multiset.coe_nodup.mpr (SearchSite.nodup_found hsite hsite.fits)
  · intro result h x hx
    have hfound := Multiset.mem_of_le (hpairs h) (Multiset.mem_coe.mpr (Array.mem_toList_iff.mpr hx))
    exact SearchSite.accepts_of_mem_found hsite hsite.fits (Multiset.mem_coe.mp hfound)
  · exact fun plan m h ↦ (sink_le_found (hbuilt.solid h.nonempty) h).2
  · intro result report h hok
    cases h with
    | overflow hcapacity => simp at hok
    | nothing hcapacity hstart =>
      rw [tally_of_report (report_nothing_eq_ok_iff.mp hok), pairs_nothing]
      rfl
    | conclude h =>
      rw [tally_of_report (outcome_of_report hok).2, Tally.get_snapshot,
        (sink_le_found (hbuilt.solid h.nonempty) h).2]
      rfl
  · intro plan m m' report h hleads hok
    exact Machine.healthy_of_leads h.reachable hleads (outcome_of_report hok).1

/-- Four rays searched by a job queue of two threads. -/
theorem honest_of_build_crossing : ∃ r built,
    (Root.build { order := .natural } ⟨1⟩).run.run { stores := Stores.crossing } = (.ok r, built) ∧
    Honest ⟨r, built.stores, .combinatorial⟩ (.jobQueue 2 1 .immediate) := by
  have hpasses : Root.crossingPasses (fun _ _ ↦ true) = true := by decide +kernel
  obtain ⟨r, built, hbuild, -⟩ := Root.exists_build_crossing hpasses
  exact ⟨r, built, hbuild, honest_of_build hbuild Stores.ready_crossing.uniform.sized⟩

end Search
end RayAdjacency
