import Mathlib.Algebra.BigOperators.Ring.List
import RayAdjacency.Proofs.Search.Found

/-!
# What a search counts

The counts of the leaf test are sums over the comparisons of a search. Each pair of rays that shares
enough zeros lies below exactly one comparison, since the gate turns no such pair away; so the sums
count these pairs, each once, by what has become of it.
-/

namespace RayAdjacency

namespace Root

variable {r : Root} {p : NodePair}

/-- To go through the compared pairs is to go through the visited ones and pass over the others. -/
theorem flatMap_comparisons {α : Type} (f : NodePair → List α) :
    (r.comparisons p).flatMap f =
      (r.visits p).flatMap fun q ↦ if r.compares q then f q else [] := by
  rw [comparisons]
  induction r.visits p with
  | nil => rfl
  | cons q qs ih =>
    rw [List.filter_cons, List.flatMap_cons, ← ih]
    split <;> rfl

/-- The comparisons of a search test no pair of rays twice. -/
theorem sum_comparisons_le (r : Root) (p : NodePair) :
    ((r.comparisons p).map fun q ↦ q.positive.indices.length * q.negative.indices.length).sum ≤
      p.positive.indices.length * p.negative.indices.length := by
  induction p using pairs_induction with
  | step p ih =>
    rw [comparisons_eq, List.map_append, List.sum_append]
    by_cases hinternal : p.isInternal = true
    · have hbelow : ∀ cs : List NodePair, cs ⊆ p.children →
          ((cs.flatMap r.comparisons).map
            fun q ↦ q.positive.indices.length * q.negative.indices.length).sum ≤
          (cs.map fun c ↦ c.positive.indices.length * c.negative.indices.length).sum := by
        intro cs
        induction cs with
        | nil => exact fun _ ↦ Nat.le_refl 0
        | cons c cs ihs =>
          intro hcs
          rw [List.flatMap_cons, List.map_append, List.sum_append, List.map_cons, List.sum_cons]
          exact Nat.add_le_add (ih c (hcs (.head _))) (ihs fun d hd ↦ hcs (.tail _ hd))
      have hnone : r.compares p = false := by rw [compares, hinternal, Bool.not_true, Bool.and_false]
      have hsum := NodePair.sum_children hinternal (·.indices.length) (·.indices.length)
      rw [← List.length_flatMap, ← List.length_flatMap, ← Node.indices_eq_parts,
        ← Node.indices_eq_parts] at hsum
      rw [hnone, if_neg Bool.false_ne_true, List.map_nil, List.sum_nil, Nat.zero_add, ← hsum]
      split
      · exact hbelow p.children (List.Subset.refl _)
      · exact Nat.zero_le _
    · have hchildren : p.children = [] := by rw [NodePair.children, if_neg hinternal]
      rw [hchildren]
      split <;> simp

end Root

namespace SearchSite

variable {site : SearchSite} {p : NodePair}

/-- What the comparisons of several node pairs count. -/
def countOf (site : SearchSite) (qs : List NodePair) (c : Counter) : Nat :=
  (qs.map fun q ↦ (site.compared q).2.tally.get c).sum

private theorem get_tallyOf_compareDuties (q : NodePair) {c : Counter} (hc : c.isOfLeaves = true) :
    (site.tallyOf (site.compareDuties q)).get c = (site.compared q).2.tally.get c := by
  have hne : Counter.pairsEmitted ≠ c := by
    rintro rfl
    cases hc
  rw [compareDuties]
  split <;> simp [tallyOf, Duty.tally, Tally.get_plus, Tally.get_add, Tally.get_zero, hne]

private theorem get_tallyOf_visitDuties (q : NodePair) {c : Counter} (hc : c.isOfLeaves = true) :
    (site.tallyOf (site.visitDuties q)).get c =
      if site.root.compares q then (site.compared q).2.tally.get c else 0 := by
  have hask : (Duty.tally site (.ask q)).get c = 0 := by
    rw [Duty.tally, Root.enter]
    split <;> cases c <;> first | rfl | cases hc
  have hleave : (Duty.tally site (.leave q)).get c = 0 := by
    cases c <;> first | rfl | cases hc
  rw [visitDuties]
  split
  · rw [← Multiset.coe_add, tallyOf_add, Tally.get_plus]
    have hgate : (site.tallyOf ([.ask q, .leave q] : List Duty)).get c = 0 := by
      simp [tallyOf, Tally.get_plus, hask, hleave]
    rw [hgate, Nat.zero_add]
    split
    · exact get_tallyOf_compareDuties q hc
    · exact Tally.get_zero c
  · next hadmits =>
    have hcompares : site.root.compares q = false := by simp [Root.compares, hadmits]
    rw [hcompares, if_neg Bool.false_ne_true]
    simpa [tallyOf] using hask

/-- The leaf test is counted by the comparisons of a search alone. -/
theorem get_tallyOf_duties (p : NodePair) {c : Counter} (hc : c.isOfLeaves = true) :
    (site.tallyOf (site.duties p)).get c = site.countOf (site.root.comparisons p) c := by
  rw [duties, Root.comparisons]
  induction site.root.visits p with
  | nil => exact Tally.get_zero c
  | cons q qs ih =>
    rw [List.flatMap_cons, ← Multiset.coe_add, tallyOf_add, Tally.get_plus,
      get_tallyOf_visitDuties q hc, ih, List.filter_cons]
    split
    · rw [countOf, countOf, List.map_cons, List.sum_cons]
    · rw [Nat.zero_add]

private theorem questions_visitDuties (q : NodePair) :
    (site.visitDuties q).flatMap (Duty.questions site) =
      if site.root.compares q then (site.compared q).2.asked.toList else [] := by
  rw [visitDuties]
  by_cases hadmits : site.root.admits q = true
  · rw [if_pos hadmits]
    split
    · rw [compareDuties]
      split <;> simp [Duty.questions]
    · simp [Duty.questions]
  · have hcompares : site.root.compares q = false := by simp [Root.compares, hadmits]
    rw [if_neg hadmits, hcompares]
    simp [Duty.questions]

/-- The delegate is asked by the comparisons of a search alone. -/
theorem questionsOf_duties (p : NodePair) : site.questionsOf (site.duties p) =
    ((site.root.comparisons p).flatMap fun q ↦ (site.compared q).2.asked.toList : List Question) := by
  rw [questionsOf, duties, Multiset.coe_bind, Root.flatMap_comparisons]
  simp only [List.flatMap_assoc, questions_visitDuties]

/-- What a search counts, where `met` are the pairs of rays below its node pair that share enough
zeros, each once. -/
structure Counted (site : SearchSite) (p : NodePair) (met : List IndexPair) (t : Tally) : Prop where
  meets : Batch.Settled site.lenient p met
  met_le : met.length ≤ t.get .leafPairs
  leafPairs_le : t.get .leafPairs ≤ p.positive.indices.length * p.negative.indices.length
  /-- All pairs that share enough zeros are found, filtered out, or refused by the delegate. -/
  met_eq : t.get .pairsEmitted + t.get .filteredOut + t.get .rankRejected = met.length
  filteredOut_le : t.get .filteredOut ≤ t.get .pendingCandidates
  ruled_eq : t.get .immediateAdjacent + t.get .pendingCandidates
    = if site.test.asks then 0 else met.length
  rankRejected_eq : site.test.asks = false → t.get .rankRejected = 0

/-- Only the counters of the search matter to what has been counted. -/
theorem Counted.congr {met : List IndexPair} {t t' : Tally} (h : Counted site p met t)
    (htally : ∀ c : Counter, c.isOfSearch = true → t'.get c = t.get c) :
    Counted site p met t' := by
  constructor
  · exact h.meets
  · rw [htally .leafPairs rfl]
    exact h.met_le
  · rw [htally .leafPairs rfl]
    exact h.leafPairs_le
  · rw [htally .pairsEmitted rfl, htally .filteredOut rfl, htally .rankRejected rfl]
    exact h.met_eq
  · rw [htally .filteredOut rfl, htally .pendingCandidates rfl]
    exact h.filteredOut_le
  · rw [htally .immediateAdjacent rfl, htally .pendingCandidates rfl]
    exact h.ruled_eq
  · rw [htally .rankRejected rfl]
    exact h.rankRejected_eq

/-- The comparisons of several node pairs. -/
private structure Tallied (site : SearchSite) (qs : List NodePair) (met : List IndexPair) : Prop where
  met_le : met.length ≤ site.countOf qs .leafPairs
  leafPairs_eq : site.countOf qs .leafPairs =
    (qs.map fun q ↦ q.positive.indices.length * q.negative.indices.length).sum
  met_eq : (qs.flatMap fun q ↦ (site.accepted q).toList).length + site.countOf qs .filteredOut
    + site.countOf qs .rankRejected = met.length
  filteredOut_le : site.countOf qs .filteredOut ≤ site.countOf qs .pendingCandidates
  ruled_eq : site.countOf qs .immediateAdjacent + site.countOf qs .pendingCandidates
    = if site.test.asks then 0 else met.length
  rankRejected_eq : site.test.asks = false → site.countOf qs .rankRejected = 0
  asked_eq : (qs.flatMap fun q ↦ (site.compared q).2.asked.toList).map some
    = if site.test.asks then met.map site.question? else []

private theorem tallied_of_compared {qs : List NodePair} {met : NodePair → List IndexPair}
    (h : ∀ q ∈ qs, (site.compared q).1 = .ok () ∧
      Batch.Compared site q (met q) (site.compared q).2) :
    Tallied site qs (qs.flatMap met) := by
  induction qs with
  | nil => constructor <;> simp [countOf]
  | cons q qs ih =>
    obtain ⟨hends, hq⟩ := h q (.head qs)
    have hqs := ih fun q' hq' ↦ h q' (.tail q hq')
    have hcount (c : Counter) : site.countOf (q :: qs) c =
        (site.compared q).2.tally.get c + site.countOf qs c := by
      rw [countOf, List.map_cons, List.sum_cons, countOf]
    have haccepted : (site.accepted q).toList.length = (site.compared q).2.accepted.size := by
      rw [accepted, hends, Array.length_toList]
    constructor
    · rw [hcount, List.flatMap_cons, List.length_append]
      exact Nat.add_le_add hq.met_le hqs.met_le
    · rw [hcount, List.map_cons, List.sum_cons, hq.leafPairs_eq, hqs.leafPairs_eq]
    · rw [hcount, hcount, List.flatMap_cons, List.flatMap_cons, List.length_append,
        List.length_append, haccepted, ← hq.met_eq, ← hqs.met_eq]
      omega
    · rw [hcount, hcount]
      exact Nat.add_le_add hq.filteredOut_le hqs.filteredOut_le
    · have hruled := hq.ruled_eq
      have hruled' := hqs.ruled_eq
      rw [hcount, hcount, List.flatMap_cons, List.length_append]
      split at hruled <;> simp_all
      omega
    · intro hasks
      rw [hcount, hq.rankRejected_eq hasks, hqs.rankRejected_eq hasks]
    · rw [List.flatMap_cons, List.flatMap_cons, List.map_append, List.map_append, hq.asked_eq,
        hqs.asked_eq]
      split <;> rfl

/-- Whatever is compared is a duty of the search. -/
theorem compare_mem_duties {q : NodePair} (hq : q ∈ site.root.comparisons p) :
    Duty.compare q ∈ site.duties p := by
  obtain ⟨hq, hcompares⟩ := Root.mem_comparisons.mp hq
  refine Multiset.mem_coe.mpr (List.mem_flatMap.mpr ⟨q, hq, ?_⟩)
  have hadmits : site.root.admits q = true := by
    rw [Root.compares, Bool.and_assoc, Bool.and_eq_true] at hcompares
    exact hcompares.1
  rw [visitDuties, if_pos hadmits, if_pos hcompares]
  exact List.mem_append_right _ (Multiset.mem_coe.mp compare_mem_compareDuties)

private theorem counted_of_tallied {met : NodePair → List IndexPair}
    (htallied : Tallied site (site.root.comparisons p) ((site.root.comparisons p).flatMap met))
    (hsettled : Batch.Settled site.lenient p ((site.root.comparisons p).flatMap met)) :
    Counted site p ((site.root.comparisons p).flatMap met) (site.tallyOf (site.duties p)) := by
  constructor
  · exact hsettled
  · rw [get_tallyOf_duties p rfl]
    exact htallied.met_le
  · rw [get_tallyOf_duties p rfl, htallied.leafPairs_eq]
    exact site.root.sum_comparisons_le p
  · rw [get_tallyOf_pairsEmitted, pairsOf_duties, Multiset.coe_card, get_tallyOf_duties p rfl,
      get_tallyOf_duties p rfl, found, ← Root.flatMap_comparisons]
    exact htallied.met_eq
  · rw [get_tallyOf_duties p rfl, get_tallyOf_duties p rfl]
    exact htallied.filteredOut_le
  · rw [get_tallyOf_duties p rfl, get_tallyOf_duties p rfl]
    exact htallied.ruled_eq
  · intro hasks
    rw [get_tallyOf_duties p rfl]
    exact htallied.rankRejected_eq hasks

/-- A search whose duties can all be done counts each pair of rays that shares enough zeros by what
has become of it. A delegate is asked about each of them once. -/
theorem exists_counted (hsite : site.Sound) (hp : p.Fits site)
    (hcan : ∀ d ∈ site.duties p, d.CanEnd site) :
    ∃ met, Counted site p met (site.tallyOf (site.duties p)) ∧
      (site.questionsOf (site.duties p)).map some =
        (if site.test.asks then met.map site.question? else [] : List (Option Question)) := by
  have hmet (q : NodePair) : ∃ met, q.Fits site → q.isInternal = false →
      Batch.Settled site.lenient q met ∧
        ((site.compared q).1 = .ok () → Batch.Compared site q met (site.compared q).2) := by
    by_cases hq : q.Fits site ∧ q.isInternal = false
    · by_cases hends : (site.compared q).1 = .ok ()
      · obtain ⟨met, hcompared⟩ := exists_compared hsite hq.1 hq.2 hends
        exact ⟨met, fun _ _ ↦ ⟨hcompared.meets, fun _ ↦ hcompared⟩⟩
      · obtain ⟨met, hsettled⟩ := @exists_settled site.lenient q (NodePair.fits_lenient_iff.mpr hq.1)
        exact ⟨met, fun _ _ ↦ ⟨hsettled, fun h ↦ absurd h hends⟩⟩
    · exact ⟨[], fun h h' ↦ absurd ⟨h, h'⟩ hq⟩
  choose met hmet using hmet
  have hcompared : ∀ q ∈ site.root.comparisons p, (site.compared q).1 = .ok () ∧
      Batch.Compared site q (met q) (site.compared q).2 := by
    intro q hq
    have hends : (site.compared q).1 = .ok () := hcan _ (compare_mem_duties hq)
    obtain ⟨hq, hcompares⟩ := Root.mem_comparisons.mp hq
    rw [Root.compares, Bool.and_eq_true, Bool.not_eq_true'] at hcompares
    exact ⟨hends, (hmet q (fits_of_mem_visits hp hq) hcompares.2).2 hends⟩
  have htallied := tallied_of_compared hcompared
  have hsettled := @settled_visits site.lenient p met
    (fun q hq hterminal ↦ (hmet q (NodePair.fits_lenient_iff.mp hq) hterminal).1)
    (NodePair.fits_lenient_iff.mpr hp)
  rw [← Root.flatMap_comparisons] at hsettled
  refine ⟨(site.root.comparisons p).flatMap met, counted_of_tallied htallied hsettled, ?_⟩
  rw [questionsOf_duties, Multiset.map_coe, htallied.asked_eq]

end SearchSite
end RayAdjacency
