import RayAdjacency.Proofs.Leaf.Adjacency
import RayAdjacency.Proofs.Leaf.Reading

/-!
# The minimality filter

The filter walks the trees with two prunings. Both are sound because a union includes the patterns
below it: where the cut is not included in a union, or no shared set is strictly included in it,
no ray below can exceed a candidate. So a walk over a tree removes exactly the candidates that one
of its rays exceeds, and the walk over the three trees leaves those that no third ray exceeds.
-/

namespace RayAdjacency

namespace Candidates

private theorem retain_eq_self {b : Candidates} {keep : Candidate → Bool}
    (h : ∀ c ∈ b.pending, keep c = true) : b.retain keep = b := by
  rw [retain, Array.filter_eq_self.mpr h]

/-- Two tests one after the other. -/
theorem retain_retain (b : Candidates) (p q : Candidate → Bool) :
    (b.retain p).retain q = b.retain fun c ↦ p c && q c := by
  simp [retain, Array.filter_filter, Bool.and_comm]

private theorem retain_congr {b : Candidates} {p q : Candidate → Bool}
    (h : ∀ c ∈ b.pending, p c = q c) : b.retain p = b.retain q := by
  have hpending : b.pending.filter p = b.pending.filter q := by
    apply Array.ext'
    rw [Array.toList_filter, Array.toList_filter]
    exact List.filter_congr fun c hc ↦ h c (Array.mem_toList_iff.mp hc)
  rw [retain, retain, hpending]

end Candidates

/-- The trees of a site hold each ray of its stores once, in whatever order, under unions that
include them. -/
structure SearchSite.Indexed (site : SearchSite) : Prop where
  covers : ∀ side, (site.root.tree side).Everywhere (Node.Covers (site.stores.side side))
  indices_perm : ∀ side,
    (site.root.tree side).indices.Perm (List.range (site.stores.side side).size)

namespace SearchSite

variable {site : SearchSite} {side : Side} {i : Nat} {z : Pattern}

/-- The trees of a sound site hold the rays in their order. -/
theorem Sound.indexed (h : site.Sound) : site.Indexed where
  covers := h.covers
  indices_perm side := by
    rw [h.indices_eq, Node.indicesFrom, Nat.sub_zero, List.range_eq_range']

/-- The trees hold every ray of the stores. -/
theorem Indexed.mem_indices (h : site.Indexed)
    (hz : (site.stores.side side).pattern? i = some z) : i ∈ (site.root.tree side).indices := by
  rw [(h.indices_perm side).mem_iff, List.mem_range]
  exact Store.lt_size_of_pattern hz

/-- The patterns of the rays are sized. -/
theorem Indexed.sized (h : site.Indexed) (hz : (site.stores.side side).pattern? i = some z) :
    z.Sized := by
  obtain ⟨z', hz', hsized, -⟩ := (h.covers side).root.subset_union i (h.mem_indices hz)
  rw [hz, Option.some.injEq] at hz'
  exact hz' ▸ hsized

end SearchSite

/-- The indices of the two rays of a candidate. -/
def Candidate.pair (c : Candidate) : IndexPair := ⟨c.positive, c.negative⟩

namespace Batch

variable {site : SearchSite} {env : Interference} {side : Side} {cut : Pattern} {n : Node}
  {b b' b'' : Batch}

/-- A candidate survives its own rays, and those that do not have all its zeros and more. -/
theorem survives_iff {i : Nat} {z : Pattern} {c : Candidate} : survives side i z c = true ↔
    c.pair.Owns side i ∨ ¬c.intersection.isStrictSubset z = true := by
  cases side <;> simp [survives, IndexPair.Owns, Candidate.pair]

/-- Whether a candidate survives the rays of a store at the given indices. -/
def spared (store : Store) (side : Side) (indices : List Nat) (c : Candidate) : Bool :=
  indices.all fun i ↦ (store.pattern? i).all (survives side i · c)

/-- A batch that has lost the candidates that do not pass a test. -/
def Filtered (keep : Candidate → Bool) (b b' : Batch) : Prop :=
  b' = { b with reads := b'.reads, candidates := b.candidates.retain keep }

/-- Candidates whose shared sets include the cut. -/
structure CutBelow (cut : Pattern) (cs : Candidates) : Prop where
  sized : cut.Sized
  candidate : ∀ c ∈ cs.pending, c.intersection.Sized ∧ cut.positions ⊆ c.intersection.positions

/-- Candidates that are filtered twice are filtered by both. -/
theorem Filtered.trans {p q : Candidate → Bool} (h : Filtered p b b') (h' : Filtered q b' b'') :
    Filtered (fun c ↦ p c && q c) b b'' := by
  rw [Filtered] at h h' ⊢
  rw [h', h]
  simp only [Candidates.retain_retain]

private theorem Filtered.of_all {keep : Candidate → Bool}
    (h : ∀ c ∈ b.candidates.pending, keep c = true) : Filtered keep b b := by
  rw [Filtered, Candidates.retain_eq_self h]

private theorem Filtered.congr {p q : Candidate → Bool} (h : Filtered p b b')
    (hpq : ∀ c ∈ b.candidates.pending, p c = q c) : Filtered q b b' := by
  rw [Filtered] at h ⊢
  rwa [← Candidates.retain_congr hpq]

/-- What is left of the candidates includes the cut as well. -/
theorem CutBelow.of_filtered {keep : Candidate → Bool} (hcut : CutBelow cut b.candidates)
    (h : Filtered keep b b') : CutBelow cut b'.candidates := by
  refine ⟨hcut.sized, fun c hc ↦ hcut.candidate c ?_⟩
  rw [Filtered] at h
  rw [h] at hc
  exact (Array.mem_filter.mp hc).1

/-- A buffer has no cut as long as nothing has been added; later its cut is a bound. -/
def HasCut (cs : Candidates) : Prop :=
  cs.pending = #[] ∧ cs.cut = none ∨ ∃ cut, cs.cut = some cut ∧ CutBelow cut cs

/-- A candidate that is added narrows the cut. -/
theorem HasCut.push {cs : Candidates} {c : Candidate} (h : HasCut cs) (hc : c.intersection.Sized) :
    HasCut (cs.push c) := by
  right
  rw [Candidates.push]
  rcases h with ⟨hnone, hcut⟩ | ⟨cut, hcut, hsized, hbelow⟩
  · refine ⟨c.intersection, by rw [hcut], hc, fun d hmem ↦ ?_⟩
    rw [hnone] at hmem
    obtain rfl : d = c := by simpa using hmem
    exact ⟨hc, Finset.Subset.refl _⟩
  · refine ⟨cut.inter c.intersection, by rw [hcut], hsized.inter _, fun d hmem ↦ ?_⟩
    rw [Pattern.positions_inter]
    rw [Array.mem_push] at hmem
    rcases hmem with hmem | rfl
    · exact ⟨(hbelow d hmem).1, Finset.inter_subset_left.trans (hbelow d hmem).2⟩
    · exact ⟨hc, Finset.inter_subset_right⟩

/-! ### One terminal node -/

private theorem ends_retainAll (rays : List (Nat × Pattern)) (good : Unit → Batch → Prop)
    (bad : Stop → Batch → Prop)
    (h : good () { b with
      candidates := b.candidates.retain (fun c ↦ rays.all fun ray ↦ survives side ray.1 ray.2 c) }) :
    Ends (rays.forM fun (i, z) ↦ (modify fun b ↦
      { b with candidates := b.candidates.retain (survives side i z) } : BatchM Unit)) b good bad := by
  induction rays generalizing b with
  | nil =>
    rw [Candidates.retain_eq_self fun _ _ ↦ List.all_nil] at h
    exact h
  | cons ray rays ih =>
    rw [List.forM, ends_bind, ends_modify]
    refine ih ?_
    rw [Candidates.retain_retain]
    exact h

/-- A terminal node removes the candidates that its rays exceed. -/
theorem ends_filterTerminal (hn : n.isInternal = false) (h : n.Covers (site.stores.side side)) :
    Ends (filterTerminal site env side n) b
      (fun _ b' ↦ Filtered (spared (site.stores.side side) side n.indices) b b')
      fun _ _ ↦ ¬site.Readable env := by
  refine (ends_reserve side h).bind ?_
  rintro _ _ rfl
  refine (ends_collect side hn h).bind ?_
  rintro rays b₁ ⟨hread, hrays⟩
  refine ends_retainAll rays _ _ ?_
  have hspared : spared (site.stores.side side) side n.indices =
      fun c ↦ rays.all fun ray ↦ survives side ray.1 ray.2 c := by
    funext c
    rw [spared, ← hrays.indices_eq, List.all_map, Bool.eq_iff_iff, List.all_eq_true,
      List.all_eq_true]
    refine forall₂_congr fun ray hray ↦ ?_
    rw [Function.comp_apply, hrays.pattern_eq ray hray, Option.all_some]
  rw [hspared, Filtered, hread]

/-! ### One tree -/

private theorem spared_append (store : Store) (is js : List Nat) :
    spared store side (is ++ js) = fun c ↦ spared store side is c && spared store side js c := by
  funext c
  rw [spared, List.all_append]
  rfl

private theorem spared_of_not_concerns (h : n.Covers (site.stores.side side))
    (hcut : CutBelow cut b.candidates) (hskip : b.concerns cut n.union = false) :
    ∀ c ∈ b.candidates.pending, spared (site.stores.side side) side n.indices c = true := by
  intro c hc
  obtain ⟨hsized, hbelow⟩ := hcut.candidate c hc
  rw [spared, List.all_eq_true]
  intro i hi
  obtain ⟨z, hz, hzsized, hzsub⟩ := h.subset_union i hi
  rw [hz, Option.all_some, survives_iff]
  refine .inr fun hexceeds ↦ ?_
  have hstrict := (Pattern.isStrictSubset_iff hsized hzsized).mp hexceeds
  have hunion : c.intersection.positions ⊂ n.union.positions := hstrict.trans_subset hzsub
  have hconcerns : b.concerns cut n.union = true := by
    rw [concerns, Bool.and_eq_true, Bool.and_eq_true, Array.any_eq_true']
    refine ⟨⟨?_, ?_⟩, c, hc, (Pattern.isStrictSubset_iff hsized h.sized).mpr hunion⟩
    · rw [Candidates.isEmpty, Bool.not_eq_true', Array.isEmpty_eq_false_iff]
      rintro hempty
      rw [hempty] at hc
      exact Array.not_mem_empty c hc
    · exact (Pattern.isSubset_iff hcut.sized h.sized).mpr (hbelow.trans hunion.subset)
  rw [hskip] at hconcerns
  cases hconcerns

private theorem ends_ifConcerns {u : Pattern} {m : BatchM Unit} (hu : n.union = u)
    (h : n.Covers (site.stores.side side)) (hcut : CutBelow cut b.candidates)
    (hm : Ends m b (fun _ b' ↦ Filtered (spared (site.stores.side side) side n.indices) b b')
      fun _ _ ↦ ¬site.Readable env) :
    Ends (do if (← get).concerns cut u then m) b
      (fun _ b' ↦ Filtered (spared (site.stores.side side) side n.indices) b b')
      fun _ _ ↦ ¬site.Readable env := by
  rw [ends_bind, ends_get]
  split
  · exact hm
  · next hskip =>
    exact .of_all (spared_of_not_concerns h hcut (hu ▸ Bool.eq_false_iff.mpr hskip))

private theorem ends_filterNodes {ns : List Node}
    (ih : ∀ n ∈ ns, ∀ b : Batch, CutBelow cut b.candidates → Ends (filterNode site env side cut n) b
      (fun _ b' ↦ Filtered (spared (site.stores.side side) side n.indices) b b')
      fun _ _ ↦ ¬site.Readable env)
    (hcut : CutBelow cut b.candidates) :
    Ends (filterNodes site env side cut ns) b
      (fun _ b' ↦ Filtered (spared (site.stores.side side) side (ns.flatMap Node.indices)) b b')
      fun _ _ ↦ ¬site.Readable env := by
  induction ns generalizing b with
  | nil => exact .of_all fun _ _ ↦ rfl
  | cons n ns ihs =>
    rw [filterNodes, List.flatMap_cons, spared_append]
    refine (ih n (.head ns) b hcut).bind fun _ b₁ h₁ ↦ ?_
    exact (ihs (fun m hm ↦ ih m (.tail n hm)) (hcut.of_filtered h₁)).mono
      (fun _ _ h₂ ↦ h₁.trans h₂) fun _ _ hbad ↦ hbad

/-- A walk over a tree removes the candidates that its rays exceed. -/
theorem ends_filterNode (h : n.Everywhere (Node.Covers (site.stores.side side)))
    (hcut : CutBelow cut b.candidates) :
    Ends (filterNode site env side cut n) b
      (fun _ b' ↦ Filtered (spared (site.stores.side side) side n.indices) b b')
      fun _ _ ↦ ¬site.Readable env := by
  induction n using Node.children_induction generalizing b with
  | step n ih =>
    have hchildren : ∀ c ∈ n.children, ∀ b : Batch, CutBelow cut b.candidates →
        Ends (filterNode site env side cut c) b
          (fun _ b' ↦ Filtered (spared (site.stores.side side) side c.indices) b b')
          fun _ _ ↦ ¬site.Readable env := fun c hc b hb ↦ ih c hc (h.child hc) hb
    have hroot := h.root
    cases n with
    | fork u left right =>
      rw [filterNode]
      refine ends_ifConcerns rfl hroot hcut ?_
      rw [Node.indices, spared_append]
      refine (hchildren left (.head _) b hcut).bind fun _ b₁ h₁ ↦ ?_
      exact (hchildren right (.tail _ (.head _)) b₁ (hcut.of_filtered h₁)).mono
        (fun _ _ h₂ ↦ h₁.trans h₂) fun _ _ hbad ↦ hbad
    | wide u ns =>
      rw [filterNode]
      refine ends_ifConcerns rfl hroot hcut ?_
      rw [Node.indices, Node.indicesAll_eq]
      exact ends_filterNodes hchildren hcut
    | leaf u start stop =>
      rw [filterNode]
      exact ends_ifConcerns rfl hroot hcut (ends_filterTerminal rfl hroot)
    | single u i =>
      rw [filterNode]
      exact ends_ifConcerns rfl hroot hcut (ends_filterTerminal rfl hroot)
    | empty u =>
      rw [filterNode]
      exact ends_ifConcerns rfl hroot hcut (ends_filterTerminal rfl hroot)

/-! ### All trees -/

/-- Whether a candidate survives the rays of several sides. -/
def sparedBy (site : SearchSite) (sides : List Side) (c : Candidate) : Bool :=
  sides.all fun side ↦ spared (site.stores.side side) side (site.root.tree side).indices c

private theorem ends_filterSides (hsite : site.Indexed) (sides : List Side)
    (hcut : CutBelow cut b.candidates) :
    Ends (filterSides site env cut sides) b (fun _ b' ↦ Filtered (sparedBy site sides) b b')
      fun _ _ ↦ ¬site.Readable env := by
  induction sides generalizing b with
  | nil => exact .of_all fun _ _ ↦ rfl
  | cons side sides ih =>
    rw [filterSides, ends_bind, ends_get]
    split
    · next hempty =>
      refine .of_all fun c hc ↦ ?_
      rw [Candidates.isEmpty, Array.isEmpty_iff] at hempty
      rw [hempty] at hc
      exact absurd hc (Array.not_mem_empty c)
    · refine (ends_filterNode (hsite.covers side) hcut).bind fun _ b₁ h₁ ↦ ?_
      exact (ih (hcut.of_filtered h₁)).mono (fun _ _ h₂ ↦ h₁.trans h₂) fun _ _ hbad ↦ hbad

/-- The candidates that no third ray exceeds survive. -/
theorem sparedBy_iff (hsite : site.Indexed) {c : Candidate} (hc : c.intersection.Sized) :
    sparedBy site [.positive, .negative, .zero] c = true ↔
      ¬site.stores.Exceeded c.pair c.intersection.positions := by
  have hall : ∀ side : Side, side ∈ [Side.positive, .negative, .zero] := fun side ↦ by
    cases side <;> simp
  rw [sparedBy, List.all_eq_true]
  constructor
  · rintro h ⟨side, i, z, hz, hother, hstrict⟩
    have hside := h side (hall side)
    rw [spared, List.all_eq_true] at hside
    have hsurvives := hside i (hsite.mem_indices hz)
    rw [hz, Option.all_some, survives_iff] at hsurvives
    exact hsurvives.elim hother fun hnot ↦
      hnot ((Pattern.isStrictSubset_iff hc (hsite.sized hz)).mpr hstrict)
  · intro h side _
    rw [spared, List.all_eq_true]
    intro i _
    cases hz : (site.stores.side side).pattern? i with
    | none => rfl
    | some z =>
      rw [Option.all_some, survives_iff]
      refine or_iff_not_imp_left.mpr fun hother hexceeds ↦ h ⟨side, i, z, hz, hother, ?_⟩
      exact (Pattern.isStrictSubset_iff hc (hsite.sized hz)).mp hexceeds

/-- The candidates that all rays spare. -/
def kept (site : SearchSite) (cs : Candidates) : Candidates :=
  cs.retain (sparedBy site [.positive, .negative, .zero])

/-- The filter leaves the candidates that no third ray exceeds, in their order, and counts those
that it removes. -/
theorem ends_filter (hsite : site.Indexed) (hb : HasCut b.candidates) :
    Ends (filter site env) b
      (fun _ b' ↦ b' = { b with
        reads := b'.reads
        tally := b.tally.add .filteredOut (b.candidates.size - (kept site b.candidates).size)
        candidates := kept site b.candidates })
      fun _ _ ↦ ¬site.Readable env := by
  rw [filter, ends_bind, ends_get]
  dsimp only
  rcases hb with ⟨hnone, hcut⟩ | ⟨cut, hcut, hbelow⟩
  · have hkept : kept site b.candidates = b.candidates :=
      Candidates.retain_eq_self fun c hc ↦ by simp [hnone] at hc
    rw [hcut, hkept, Nat.sub_self]
    rfl
  · rw [hcut]
    refine (ends_filterSides hsite _ hbelow).bind fun _ b₁ h₁ ↦ ?_
    rw [ends_bind, ends_get]
    have hsize : b₁.candidates.size ≤ b.candidates.size := by
      rw [h₁]
      exact Array.size_filter_le
    rw [Outcome.sub_of_le hsize, ends_bind, ends_liftExcept_ok, ends_modify, h₁]
    rfl

end Batch
end RayAdjacency
