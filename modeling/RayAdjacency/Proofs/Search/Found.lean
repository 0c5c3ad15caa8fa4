import RayAdjacency.Proofs.Traversal.Duties

/-!
# What a search finds

The site of a built root is sound, so the pairs that a search finds are adjacent, and none of them
is found twice. Where no comparison stops, they are all there are.
-/

namespace RayAdjacency

namespace Root.Built

variable {config : Config} {threshold : Threshold} {stores stores' : Stores} {r : Root}

/-- The trees of a built root cover the stores that the build leaves behind, even where patterns
differ in width. -/
theorem sound (h : Built config threshold stores stores' r) (hs : stores.Sized)
    (test : AdjacencyTest) : (⟨r, stores', test⟩ : SearchSite).Sound where
  covers side := by
    have hs' := h.rearranged.sized hs side
    have hsized := (h.grown side).sized hs'
    exact ((h.grown side).unites.and hsized).imp fun n hn ↦ hn.1.covers hs' hn.2
  indices_eq side := (h.grown side).indices_eq

end Root.Built

namespace SearchSite

variable {site : SearchSite} {p : NodePair}

/-- The pair of trees of a sound site fits. -/
theorem Sound.fits (h : site.Sound) : site.root.start.Fits site where
  positive := h.covers .positive
  negative := h.covers .negative
  nodup_positive := by
    have hindices := h.indices_eq .positive
    change site.root.positive.indices = _ at hindices
    change site.root.positive.indices.Nodup
    rw [hindices]
    exact List.nodup_range'
  nodup_negative := by
    have hindices := h.indices_eq .negative
    change site.root.negative.indices = _ at hindices
    change site.root.negative.indices.Nodup
    rw [hindices]
    exact List.nodup_range'

/-- What is settled for the pair of trees is settled for the stores. -/
theorem Sound.mem_settled_iff (h : site.Sound) {accepted : List IndexPair}
    (hsettled : Batch.Settled site site.root.start accepted) (x : IndexPair) :
    x ∈ accepted ↔ site.Accepts x := by
  rw [hsettled.mem_iff]
  refine ⟨fun hx ↦ hx.2.2, fun hx ↦ ?_⟩
  obtain ⟨zp, zn, hzp, hzn, -⟩ := hx.meets
  have hmem {side : Side} {i : Nat} {z : Pattern}
      (hz : (site.stores.side side).pattern? i = some z) : i ∈ (site.root.tree side).indices :=
    h.indexed.mem_indices hz
  exact ⟨@hmem .positive _ _ hzp, @hmem .negative _ _ hzn, hx⟩

/-- What is visited from a pair that fits fits as well. -/
theorem fits_of_mem_visits (h : p.Fits site) {q : NodePair} (hq : q ∈ site.root.visits p) :
    q.Fits site := by
  induction p using Root.pairs_induction with
  | step p ih =>
    rw [Root.visits_eq, List.mem_cons] at hq
    rcases hq with rfl | hq
    · exact h
    · split at hq
      · obtain ⟨c, hc, hq⟩ := List.mem_flatMap.mp hq
        exact ih c hc (fits_of_mem_children h hc) hq
      · cases hq

private theorem ends_compared (hsite : site.Sound) {q : NodePair}
    (hq : q.Fits site) (hterminal : q.isInternal = false) :
    Ends (Batch.compare site {} q) {} (fun _ b ↦ ∃ met, Batch.Compared site q met b)
      fun _ _ ↦ ¬site.Quiet {} := by
  rw [NodePair.isInternal, Bool.or_eq_false_iff] at hterminal
  exact Batch.ends_compare hsite hterminal.1 hterminal.2 hq.positive.root hq.negative.root
    hq.nodup_positive hq.nodup_negative

/-- What a comparison that does not stop leaves behind. -/
theorem exists_compared (hsite : site.Sound) {q : NodePair}
    (hq : q.Fits site) (hterminal : q.isInternal = false) (hends : (site.compared q).1 = .ok ()) :
    ∃ met, Batch.Compared site q met (site.compared q).2 :=
  (ends_compared hsite hq hterminal).of_ok (Prod.ext hends rfl)

/-- A comparison that does not stop accepts what there is to accept. -/
theorem settled_accepted (hsite : site.Sound) {q : NodePair}
    (hq : q.Fits site) (hterminal : q.isInternal = false) (hends : (site.compared q).1 = .ok ()) :
    Batch.Settled site q (site.accepted q).toList := by
  obtain ⟨met, hcompared⟩ := exists_compared hsite hq hterminal hends
  rw [accepted, hends]
  exact hcompared.settled

/-- A comparison ends where nothing is refused. -/
theorem compared_of_quiet (hsite : site.Sound) {q : NodePair}
    (hq : q.Fits site) (hterminal : q.isInternal = false) (hquiet : site.Quiet {}) :
    (site.compared q).1 = .ok () := by
  obtain ⟨a, b, hrun, -⟩ :=
    Ends.exists_ok ((ends_compared hsite hq hterminal).mono (fun _ _ h ↦ h) fun _ _ h ↦ h hquiet)
  rw [compared, hrun]

/-- All duties of a search can be done where nothing is refused. -/
theorem canEnd_of_quiet (hsite : site.Sound) (hp : p.Fits site)
    (hquiet : site.Quiet {}) : ∀ d ∈ site.duties p, d.CanEnd site := by
  intro d hd
  obtain ⟨q, hq, hd⟩ := List.mem_flatMap.mp (Multiset.mem_coe.mp hd)
  have hqfits := fits_of_mem_visits hp hq
  cases d with
  | ask q' => trivial
  | leave q' => trivial
  | emit pairs => trivial
  | compare q' =>
    rw [visitDuties] at hd
    split at hd
    · split at hd
      · next hcompares =>
        rw [Root.compares, Bool.and_eq_true, Bool.not_eq_true'] at hcompares
        have heq : q' = q := by
          rw [compareDuties] at hd
          split at hd <;> simpa using hd
        subst heq
        exact compared_of_quiet hsite hqfits hcompares.2 hquiet
      · simp at hd
    · simp at hd

/-- Where nothing is refused, a search finds all that there is to find. -/
theorem settled_found (hsite : site.Sound) (hp : p.Fits site)
    (hquiet : site.Quiet {}) : Batch.Settled site p (site.found p) :=
  settled_visits (fun _ hq hterminal ↦ settled_accepted hsite hq hterminal
    (compared_of_quiet hsite hq hterminal hquiet)) hp

/-- The accepted pairs of two nodes can be listed. -/
theorem exists_settled (hp : p.Fits site) : ∃ accepted, Batch.Settled site p accepted := by
  classical
  refine ⟨(p.positive.indices.product p.negative.indices).map (fun x ↦ ⟨x.1, x.2⟩)
    |>.filter fun x ↦ site.Accepts x, ?_, ?_⟩
  · refine ((hp.nodup_positive.product hp.nodup_negative).map fun x y h ↦ ?_).filter _
    injection h with h₁ h₂
    exact Prod.ext h₁ h₂
  · rintro ⟨i, j⟩
    simp [List.mem_filter, List.pair_mem_product, and_assoc]

/-- What a search finds is part of what there is to find. -/
theorem found_sublist (hsite : site.Sound) (hp : p.Fits site) :
    ∃ all, (site.found p).Sublist all ∧ Batch.Settled site p all := by
  classical
  -- A comparison that stops accepts nothing; in its place stands what there is to accept.
  have hall (q : NodePair) : ∃ all, q.Fits site → Batch.Settled site q all := by
    by_cases hq : q.Fits site
    · obtain ⟨all, hsettled⟩ := exists_settled hq
      exact ⟨all, fun _ ↦ hsettled⟩
    · exact ⟨[], fun h ↦ absurd h hq⟩
  choose all hall using hall
  let f (q : NodePair) : List IndexPair :=
    if (site.compared q).1 = .ok () then (site.accepted q).toList else all q
  refine ⟨(site.root.visits p).flatMap fun q ↦ if site.root.compares q then f q else [], ?_, ?_⟩
  · refine List.Sublist.flatMap_right _ fun q _ ↦ ?_
    by_cases hcompares : site.root.compares q = true
    · rw [if_pos hcompares, if_pos hcompares]
      by_cases hends : (site.compared q).1 = .ok ()
      · exact (if_pos hends : f q = _) ▸ List.Sublist.refl _
      · have hnone : site.accepted q = #[] := by
          rw [accepted]
          split
          · next h => exact absurd h hends
          · rfl
        rw [hnone]
        exact List.nil_sublist _
    · rw [if_neg hcompares]
      exact List.nil_sublist _
  · refine settled_visits (fun q hq hterminal ↦ ?_) hp
    dsimp only [f]
    split
    · next hends => exact settled_accepted hsite hq hterminal hends
    · exact hall q hq

/-- A search finds no pair twice. -/
theorem nodup_found (hsite : site.Sound) (hp : p.Fits site) :
    (site.found p).Nodup := by
  obtain ⟨all, hsublist, hall⟩ := found_sublist hsite hp
  exact hall.nodup.sublist hsublist

/-- A search finds accepted pairs only. -/
theorem accepts_of_mem_found (hsite : site.Sound)
    (hp : p.Fits site) {x : IndexPair} (hx : x ∈ site.found p) : site.Accepts x := by
  obtain ⟨all, hsublist, hall⟩ := found_sublist hsite hp
  exact ((hall.mem_iff x).mp (hsublist.subset hx)).2.2

end SearchSite
end RayAdjacency
