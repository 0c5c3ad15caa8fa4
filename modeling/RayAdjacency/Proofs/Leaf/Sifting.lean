import RayAdjacency.Proofs.Leaf.Filter

/-!
# What a pass of the filter leaves

A buffer that has been filled, thinned and drained in any order keeps a cut that lies below all its
candidates. So one pass of the filter over trees that hold each ray once leaves exactly the
candidates that a scan of all rays would leave, and a second pass finds nothing to remove.
-/

namespace RayAdjacency

namespace Candidates

/-- The buffers that come about when candidates are added, dropped and taken out. -/
inductive Collected : Candidates → Prop
  /-- Nothing has been added. -/
  | new : Collected {}
  /-- A pair has been added, with any sized pattern in the place of its shared zeros. -/
  | push {b : Candidates} {c : Candidate} (h : Collected b) (hc : c.intersection.Sized) :
      Collected (b.push c)
  /-- Some pairs have been dropped, for whatever reason. -/
  | thin {b : Candidates} {kept : Array Candidate} (h : Collected b)
      (hkept : kept.toList.Sublist b.pending.toList) : Collected { b with pending := kept }
  /-- All pairs have been taken out. -/
  | drain {b : Candidates} (h : Collected b) : Collected b.drain.2

namespace Collected

variable {b : Candidates}

/-- Keeping the pairs that satisfy a test drops some. -/
theorem retain (h : Collected b) (keep : Candidate → Bool) : Collected (b.retain keep) := by
  refine h.thin ?_
  rw [Array.toList_filter]
  exact List.filter_sublist

/-- However a buffer came about, its cut lies below its candidates. -/
theorem hasCut (h : Collected b) : Batch.HasCut b := by
  induction h with
  | new => exact .inl ⟨rfl, rfl⟩
  | push _ hc ih => exact ih.push hc
  | @thin b kept _ hkept ih =>
    rcases ih with ⟨hnone, hcut⟩ | ⟨cut, hcut, hsized, hbelow⟩
    · refine .inl ⟨?_, hcut⟩
      rw [hnone] at hkept
      exact Array.toList_eq_nil_iff.mp (List.sublist_nil.mp hkept)
    · refine .inr ⟨cut, hcut, hsized, fun c hc ↦ hbelow c ?_⟩
      exact Array.mem_toList_iff.mp (hkept.subset (Array.mem_toList_iff.mpr hc))
  | drain _ _ => exact .inl ⟨rfl, rfl⟩

end Collected
end Candidates

namespace Batch

variable {site : SearchSite} {env : Interference} {b b' : Batch}

/-- A candidate of a buffer with a cut is sized. -/
theorem HasCut.sized {cs : Candidates} (h : HasCut cs) {c : Candidate} (hc : c ∈ cs.pending) :
    c.intersection.Sized := by
  rcases h with ⟨hnone, -⟩ | ⟨cut, -, hbelow⟩
  · rw [hnone] at hc
    exact absurd hc (Array.not_mem_empty c)
  · exact (hbelow.candidate c hc).1

open Classical in
/-- A batch after a pass of the filter: of its candidates there are left, in their order, those that
no ray other than their own two exceeds, and those removed have been counted. -/
structure Sifted (stores : Stores) (b b' : Batch) : Prop where
  pending_eq : b'.candidates.pending.toList = b.candidates.pending.toList.filter fun c ↦
    decide ¬stores.Exceeded c.pair c.intersection.positions
  filteredOut_add_size : b'.tally.get .filteredOut + b'.candidates.size
    = b.tally.get .filteredOut + b.candidates.size
  get_eq : ∀ k, k ≠ .filteredOut → b'.tally.get k = b.tally.get k

open Classical in
private theorem toList_kept (hsite : site.Indexed) {cs : Candidates} (h : HasCut cs) :
    (kept site cs).pending.toList = cs.pending.toList.filter fun c ↦
      decide ¬site.stores.Exceeded c.pair c.intersection.positions := by
  rw [kept, Candidates.toList_retain]
  refine List.filter_congr fun c hc ↦ ?_
  rw [Bool.eq_iff_iff, decide_eq_true_eq]
  exact sparedBy_iff hsite (h.sized (Array.mem_toList_iff.mp hc))

private theorem kept_kept (cs : Candidates) : kept site (kept site cs) = kept site cs := by
  rw [kept, kept, Candidates.retain_retain]
  simp only [Bool.and_self]

private theorem sifted_of_eq (hsite : site.Indexed) (hb : HasCut b.candidates)
    (h : b' = { b with
      reads := b'.reads
      tally := b.tally.add .filteredOut (b.candidates.size - (kept site b.candidates).size)
      candidates := kept site b.candidates }) : Sifted site.stores b b' := by
  have hsize : (kept site b.candidates).size ≤ b.candidates.size := Array.size_filter_le
  rw [h]
  refine ⟨toList_kept hsite hb, ?_, fun k hk ↦ ?_⟩
  · rw [Tally.get_add, if_pos rfl]
    dsimp only
    omega
  · rw [Tally.get_add, if_neg hk.symm, Nat.add_zero]

/-- Over trees that hold each ray once, a pass of the filter through any buffer removes exactly the
candidates that a third ray exceeds, and a second pass removes nothing. -/
theorem sifts_of_collected (hsite : site.Indexed) (hread : site.Readable env)
    (hb : b.candidates.Collected) :
    ∃ once, (filter site env).run.run b = (.ok (), once) ∧ Sifted site.stores b once ∧
      ∃ twice, (filter site env).run.run once = (.ok (), twice) ∧
        twice.candidates = once.candidates ∧ twice.tally = once.tally := by
  have hpass {b : Batch} (hb : HasCut b.candidates) := ((@ends_filter site env b hsite hb).mono
    (fun _ _ h ↦ h) fun _ _ hbad ↦ hbad hread).exists_ok
  obtain ⟨⟨⟩, once, hrun, honce⟩ := hpass hb.hasCut
  have hleft : once.candidates = kept site b.candidates := by rw [honce]
  have hcollected : once.candidates.Collected := hleft ▸ hb.retain _
  obtain ⟨⟨⟩, twice, hrun', htwice⟩ := hpass hcollected.hasCut
  have hsame : kept site once.candidates = once.candidates := by rw [hleft, kept_kept]
  rw [hsame, Nat.sub_self] at htwice
  refine ⟨once, hrun, sifted_of_eq hsite hb.hasCut honce, twice, hrun', ?_, ?_⟩
  · rw [htwice]
  · rw [htwice]
    rfl

/-! ### A buffer over the crossing rays -/

/-- The crossing rays under trees of which that of the positive rays holds them in reverse order. -/
def reversed : SearchSite where
  root := {
    positive := .join (.single (.ofWords [6#64] 4) 1) (.single (.ofWords [3#64] 4) 0)
    negative := .leaf (.ofWords [11#64] 4) 0 2
    zero := .ofNothing 4
    order := .natural 4
    threshold := ⟨1⟩ }
  stores := Stores.crossing
  test := .combinatorial

/-- A buffer with both pairs of the first positive ray. -/
def bothPairs : Candidates :=
  (({} : Candidates).push ⟨0, 0, .ofWords [2#64] 4⟩).push ⟨0, 1, .ofWords [1#64] 4⟩

private theorem sized_word (w : Word) : (Pattern.ofWords [w] 4).Sized := Pattern.sized_ofWords rfl

private theorem covers_crossing {side : Side} {n : Node} (hsized : n.union.Sized)
    (hsub : ∀ i ∈ n.indices, ∃ z, (Stores.crossing.side side).pattern? i = some z ∧
      z.positions ⊆ n.union.positions)
    (hsingle : ∀ u i, n = .single u i → (Stores.crossing.side side).pattern? i = some u) :
    n.Covers (Stores.crossing.side side) := by
  refine ⟨hsized, fun i hi ↦ ?_, hsingle⟩
  obtain ⟨z, hz, hzsub⟩ := hsub i hi
  exact ⟨z, hz, Store.forall_pattern (Stores.ready_crossing.uniform side).sized hz, hzsub⟩

private theorem covers_single {side : Side} {w : Word} {i : Nat}
    (hz : (Stores.crossing.side side).pattern? i = some (.ofWords [w] 4)) :
    Node.Everywhere (Node.Covers (Stores.crossing.side side)) (.single (.ofWords [w] 4) i) := by
  refine .of_terminal rfl (covers_crossing (sized_word w) (fun j hj ↦ ?_) fun u j hn ↦ ?_)
  · rw [Node.indices, List.mem_singleton] at hj
    exact ⟨_, hj ▸ hz, Finset.Subset.refl _⟩
  · cases hn
    exact hz

private theorem indexed_reversed : reversed.Indexed := by
  constructor
  · rintro (_ | _ | _)
    · refine .intro (covers_crossing ?_ ?_ fun _ _ hn ↦ by cases hn) ?_
      · exact (sized_word _).union (sized_word _)
      · change ∀ i ∈ [1, 0], _
        simp only [List.forall_mem_cons]
        exact ⟨⟨.ofWords [6#64] 4, rfl, by decide⟩, ⟨.ofWords [3#64] 4, rfl, by decide⟩, by simp⟩
      · change ∀ m ∈ [_, _], _
        simp only [List.forall_mem_cons]
        exact ⟨covers_single rfl, covers_single rfl, by simp⟩
    · refine .of_terminal rfl (covers_crossing (Pattern.wellFormed_zeros 4).sized ?_ fun _ _ hn ↦ by
        cases hn)
      exact fun _ hi ↦ absurd hi List.not_mem_nil
    · refine .of_terminal rfl (covers_crossing (sized_word _) ?_ fun _ _ hn ↦ by
        cases hn)
      change ∀ i ∈ [0, 1], _
      simp only [List.forall_mem_cons]
      exact ⟨⟨.ofWords [10#64] 4, rfl, by decide⟩, ⟨.ofWords [9#64] 4, rfl, by decide⟩, by simp⟩
  · rintro (_ | _ | _) <;> decide

/-- The filter sifts both pairs of the first positive ray. -/
theorem sifts_of_collected_reversed : bothPairs.Collected ∧ reversed.Indexed ∧
    reversed.Readable {} ∧
    ∃ once, (filter reversed {}).run.run { candidates := bothPairs } = (.ok (), once) ∧
      Sifted reversed.stores { candidates := bothPairs } once ∧
      ∃ twice, (filter reversed {}).run.run once = (.ok (), twice) ∧
        twice.candidates = once.candidates ∧ twice.tally = once.tally := by
  have hboth : bothPairs.Collected :=
    (Candidates.Collected.new.push (sized_word _)).push (sized_word _)
  have hread : reversed.Readable {} :=
    ⟨fun side _ _ _ _ ↦ by cases side <;> rfl, fun _ _ _ ↦ rfl, by rintro (_ | _ | _) <;> decide⟩
  exact ⟨hboth, indexed_reversed, hread,
    @sifts_of_collected reversed {} { candidates := bothPairs } indexed_reversed hread hboth⟩

end Batch
end RayAdjacency
