import RayAdjacency.Proofs.Search.Accounting
import RayAdjacency.Proofs.Search.Faults
import RayAdjacency.Proofs.Traversal.Termination

/-!
# Searches that come to a good end

A search of a built root over stores that can be read, whose threads all start, does not fail by
itself, if what its strategy sets up is in range: the places of a queue, and the end of a timed wait.
When a wait ends depends on what the clock shows when it begins.
-/

namespace RayAdjacency

/-- What the strategy of a configuration sets up is in range: the queue of a pool has so many
places, and the clock can show the end of every wait of a worker that begins no later than `latest`.
A thread that is alone has no workers. -/
structure Config.SetsUp (config : Config) (capacity : Option Nat) (latest : Duration) : Prop where
  capacity_eq : config.queueCapacity = .ok capacity
  onClock : 1 < config.threads → config.strategy.releasePolicy.passesClock latest = false

namespace Search

variable {site : SearchSite} {config : Config} {capacity : Option Nat} {latest : Duration}
  {buildConfig : Config} {threshold : Threshold} {stores stores' : Stores} {r : Root}
  {test : AdjacencyTest}

/-- A search over stores that can be read can do all its duties. -/
theorem feasible_of_built (hbuilt : r.Built buildConfig threshold stores stores')
    (hsized : stores.Sized) (hquiet : (⟨r, stores', test⟩ : SearchSite).Quiet {})
    (hvalid : config.validate = .ok ()) (hsetup : config.SetsUp capacity latest)
    (hstart : r.start.isEmpty = false) :
    (⟨⟨r, stores', test⟩, config, capacity.getD 0⟩ : Plan).Feasible latest where
  threads_pos := Config.threads_pos_of_validate hvalid
  onClock := hsetup.onClock
  solid := hbuilt.solid hstart
  canEnd := by
    have hsite : (⟨r, stores', test⟩ : SearchSite).Sound := hbuilt.sound hsized test
    exact SearchSite.canEnd_of_quiet hsite hsite.fits hquiet

/-- A search that has ended well reports what it has counted, as long as its counts fit their
counters. -/
theorem exists_report_of_ended {t : Tally} {result : Result}
    (hcount : ∀ side, (site.root.tree side).rayCount < wordLimit)
    (h : Ended site config (.ok ()) t result) (hcalls : t.get .enterCalls < wordLimit) :
    ∃ report, result.report = some (.ok report) ∧ report.tally = t.snapshot := by
  obtain ⟨report, hreport⟩ := @exists_report site config t (left_of_ended h).symm hcalls
    (hcount .positive) (hcount .negative)
  refine ⟨report, ?_, tally_of_report hreport⟩
  cases h with
  | nothing => rw [report_nothing, hreport]
  | conclude h houtcome =>
    obtain ⟨⟨capacity, -, rfl⟩, -, -⟩ := h
    rw [conclude, houtcome]
    exact congrArg some hreport

end Search
end RayAdjacency
