import RayAdjacency.Proofs.BitOrder

/-!
# What an order of the bits is

A given order is accepted if it is a permutation of the positions below its length: ticking the
positions off finds the ones that are missing and the ones that come twice.

An order found from drawn pairs is a permutation as well. A bit parts the pairs that disagree on it;
one that parts no drawn pair has the greatest key of all, so such bits come last, and as their keys
are equal, in their own order (`BitOrder.Arranges`). Two patterns that disagree on a bit have a
distance, so that the key of a bit that parts them is smaller, unless they have positions beyond
their widths.
-/

namespace RayAdjacency

/-! ### Orders that are given -/

namespace BitOrder

private theorem isSome_foldlM_tick (bits : List Nat) (ticked : Array Bool) :
    (bits.foldlM tick? ticked).isSome = true ↔
      bits.Nodup ∧ ∀ b ∈ bits, ticked[b]? = some false := by
  induction bits generalizing ticked with
  | nil => simp
  | cons b bits ih =>
    rw [List.foldlM_cons, tick?]
    by_cases hb : ticked[b]? = some false
    · -- What has been ticked off cannot come again, and everything else can be as before.
      have hset (c : Nat) : (ticked.setIfInBounds b true)[c]? = some false ↔
          c ≠ b ∧ ticked[c]? = some false := by
        rw [Array.getElem?_setIfInBounds]
        by_cases hc : b = c
        · subst hc
          simp
        · simp [hc, Ne.symm hc]
      rw [if_pos hb, Option.bind_eq_bind, Option.bind_some, ih, List.nodup_cons]
      simp only [hset, List.forall_mem_cons]
      constructor
      · rintro ⟨hnodup, hrest⟩
        exact ⟨⟨fun hmem ↦ (hrest b hmem).1 rfl, hnodup⟩, hb, fun c hc ↦ (hrest c hc).2⟩
      · rintro ⟨⟨hnotMem, hnodup⟩, -, hrest⟩
        exact ⟨hnodup, fun c hc ↦ ⟨fun he ↦ hnotMem (he ▸ hc), hrest c hc⟩⟩
    · rw [if_neg hb]
      refine iff_of_false Bool.false_ne_true fun h ↦ hb (h.2 b (.head bits))

private theorem perm_range_iff (bits : List Nat) :
    bits.Perm (List.range bits.length) ↔ bits.Nodup ∧ ∀ b ∈ bits, b < bits.length := by
  constructor
  · intro h
    exact ⟨h.nodup_iff.mpr List.nodup_range, fun b hb ↦ List.mem_range.mp (h.mem_iff.mp hb)⟩
  · rintro ⟨hnodup, hlt⟩
    have hsub : bits ⊆ List.range bits.length := fun b hb ↦ List.mem_range.mpr (hlt b hb)
    exact (List.subperm_of_subset hnodup hsub).perm_of_length_le
      (Nat.le_of_eq List.length_range)

/-- An order is accepted if it is a permutation of the positions below its length. -/
theorem isSome_ofBits?_iff (bits : List Nat) :
    (ofBits? bits).isSome = true ↔ bits.Perm (List.range bits.length) := by
  have hfound : (ofBits? bits).isSome =
      (bits.foldlM tick? (Array.replicate bits.length false)).isSome := by
    unfold ofBits?
    cases bits.foldlM tick? (Array.replicate bits.length false) <;> rfl
  rw [hfound, isSome_foldlM_tick, perm_range_iff]
  simp only [Array.getElem?_replicate]
  refine and_congr_right fun _ ↦ forall₂_congr fun b _ ↦ ?_
  by_cases hb : b < bits.length <;> simp [hb]

/-- An order that is accepted is the one that has been given. -/
theorem bits_of_ofBits? {bits : List Nat} {order : BitOrder} (h : ofBits? bits = some order) :
    order.bits = bits := by
  unfold ofBits? at h
  cases hticks : bits.foldlM tick? (Array.replicate bits.length false) with
  | none =>
    rw [hticks] at h
    cases h
  | some ticked =>
    rw [hticks] at h
    cases h
    rfl

end BitOrder

/-! ### Keys -/

/-- Bounded patterns that disagree on a bit have a distance. -/
theorem Pattern.distance_ne_zero {p q : Pattern} (hp : p.Bounded) (hq : q.Bounded) {bit : Nat}
    (h : p.contains bit ≠ q.contains bit) : p.distance q ≠ 0 := by
  have hcontains {z : Pattern} (hz : z.Bounded) : z.contains bit = z.bit bit := by
    rw [contains]
    cases hset : z.bit bit with
    | false => exact Bool.and_false _
    | true => rw [Bool.and_true, decide_eq_true_eq.mpr (hz bit (mem_positions.mpr hset))]
  rw [hcontains hp, hcontains hq] at h
  have hmem : bit ∈ symmDiff p.positions q.positions := by
    rw [Finset.mem_symmDiff, mem_positions, mem_positions]
    cases hb : p.bit bit <;> cases hb' : q.bit bit <;> simp_all
  rw [distance_eq_card]
  exact Finset.card_ne_zero_of_mem hmem

/-- No key is greater than that of a bit without parted distance, and no other bit has it. -/
theorem Balance.key_ofSums (parted joined : Nat) :
    (ofSums parted joined).key ≤ wordLimit + 1 ∧
      ((ofSums parted joined).key = wordLimit + 1 ↔ parted = 0) := by
  unfold ofSums
  split
  · exact ⟨Nat.le_refl _, iff_of_true rfl rfl⟩
  · next hparted =>
    exact ⟨Nat.le_succ _, iff_of_false (Nat.ne_of_lt (Nat.lt_succ_self _)) hparted⟩
  · next hparted _ =>
    have hlt (distance : Float) : (measured distance).key < wordLimit :=
      distance.toBits.toNat_lt
    exact ⟨Nat.le_of_lt (Nat.lt_succ_of_lt (hlt _)),
      iff_of_false (Nat.ne_of_lt (Nat.lt_succ_of_lt (hlt _))) hparted⟩

namespace BitOrder

variable {samples : List (List (Pattern × Pattern))} {order : BitOrder}

/-- A bit on which some pair drawn for it disagrees. -/
def Parts (samples : List (List (Pattern × Pattern))) (bit : Nat) : Prop :=
  ∃ pairs, samples[bit]? = some pairs ∧
    ∃ pair ∈ pairs, pair.1.contains bit ≠ pair.2.contains bit

private theorem parted_eq_zero_iff (bit : Nat) (pairs : List (Pattern × Pattern))
    (start : Nat × Nat) :
    (pairs.foldl (tallyPair bit) start).1 = 0 ↔ start.1 = 0 ∧
      ∀ pair ∈ pairs, pair.1.contains bit ≠ pair.2.contains bit → pair.1.distance pair.2 = 0 := by
  induction pairs generalizing start with
  | nil => simp
  | cons pair pairs ih =>
    rw [List.foldl_cons, ih, List.forall_mem_cons, tallyPair]
    split
    · next hdiffer =>
      have hne := bne_iff_ne.mp hdiffer
      rw [Nat.add_eq_zero_iff, and_assoc]
      exact and_congr_right fun _ ↦ and_congr_left fun _ ↦ ⟨fun h _ ↦ h, fun h ↦ h hne⟩
    · next hagree =>
      have hagree' : ¬pair.1.contains bit ≠ pair.2.contains bit := fun hne ↦
        hagree (bne_iff_ne.mpr hne)
      exact and_congr_right fun _ ↦ (and_iff_right fun hne ↦ absurd hne hagree').symm

/-- The score of a bit has the greatest key if no pair parted by it has a distance. -/
theorem key_of_score {pairs : List (Pattern × Pattern)} {bit : Nat} {scored : Nat × Nat}
    (h : score (pairs, bit) = .ok scored) :
    scored.2 = bit ∧ scored.1 ≤ wordLimit + 1 ∧ (scored.1 = wordLimit + 1 ↔
      ∀ pair ∈ pairs, pair.1.contains bit ≠ pair.2.contains bit → pair.1.distance pair.2 = 0) := by
  have hparted := parted_eq_zero_iff bit pairs (0, 0)
  rw [and_iff_right rfl] at hparted
  rw [score_eq] at h
  split at h
  · cases h
    obtain ⟨hle, hkey⟩ := Balance.key_ofSums (sums bit pairs).1 (sums bit pairs).2
    exact ⟨rfl, hle, hkey.trans hparted⟩
  · cases h

/-- The scores of the bits: one for each bit, in the order of the bits. -/
theorem scores_of_ofSamples (h : ofSamples samples = .ok order) :
    ∃ scores, order = ofScores scores ∧ scores.map Prod.snd = List.range samples.length ∧
      ∀ scored ∈ scores, ∃ pairs, samples[scored.2]? = some pairs ∧
        score (pairs, scored.2) = .ok scored := by
  rw [ofSamples] at h
  cases hscores : samples.zipIdx.mapM score with
  | error e =>
    rw [hscores] at h
    cases h
  | ok scores =>
    rw [hscores] at h
    cases h
    have hitems := mapM_eq_ok_iff.mp hscores
    refine ⟨scores, rfl, ?_, fun scored hmem ↦ ?_⟩
    · have hsame : List.Forall₂ (fun drawn scored ↦ drawn.2 = scored.2) samples.zipIdx scores :=
        hitems.imp fun drawn scored hscore ↦ (key_of_score hscore).1.symm
      have hmap : samples.zipIdx.map Prod.snd = scores.map Prod.snd := by
        rw [← List.forall₂_eq_eq_eq, List.forall₂_map_left_iff, List.forall₂_map_right_iff]
        exact hsame
      rw [← hmap, List.zipIdx_map_snd, List.range_eq_range']
    · obtain ⟨i, hi, rfl⟩ := List.mem_iff_getElem.mp hmem
      have hi' : i < samples.zipIdx.length := by rwa [hitems.length_eq]
      have hscore : score samples.zipIdx[i] = .ok scores[i] := hitems.get hi' hi
      rw [List.getElem_zipIdx, Nat.zero_add] at hscore
      have hbit : scores[i].2 = i := (key_of_score hscore).1
      rw [List.length_zipIdx] at hi'
      refine ⟨samples[i], ?_, ?_⟩
      · rw [hbit, List.getElem?_eq_getElem hi']
      · rw [hbit]
        exact hscore

/-! ### Orders that are found -/

/-- An order of the bits that pairs have been drawn for: it lists each bit once, and after a bit
that parts no pair drawn for it there are only further ones, in increasing order. -/
structure Arranges (samples : List (List (Pattern × Pattern))) (order : BitOrder) : Prop where
  perm : order.bits.Perm (List.range samples.length)
  pairwise : order.bits.Pairwise fun a b ↦ ¬Parts samples a → ¬Parts samples b ∧ a < b

private theorem before_trans (a b c : Nat × Nat) (hab : before a b = true)
    (hbc : before b c = true) : before a c = true := by
  simp only [before, decide_eq_true_eq] at hab hbc ⊢
  omega

private theorem before_total (a b : Nat × Nat) : (before a b || before b a) = true := by
  simp only [before, Bool.or_eq_true, decide_eq_true_eq]
  omega

/-- An order found from pairs of bounded patterns arranges the bits. -/
theorem arranges_of_ofSamples (h : ofSamples samples = .ok order)
    (hbounded : ∀ pairs ∈ samples, ∀ pair ∈ pairs, pair.1.Bounded ∧ pair.2.Bounded) :
    Arranges samples order := by
  obtain ⟨scores, rfl, hbits, hscores⟩ := scores_of_ofSamples h
  have hperm : (ofScores scores).bits.Perm (List.range samples.length) := by
    rw [← hbits]
    exact (List.mergeSort_perm scores before).map Prod.snd
  have hnodup : (ofScores scores).bits.Nodup := hperm.nodup_iff.mpr List.nodup_range
  -- A bit has the greatest key exactly if it parts nothing.
  have hkey : ∀ scored ∈ scores, scored.1 ≤ wordLimit + 1 ∧
      (scored.1 = wordLimit + 1 ↔ ¬Parts samples scored.2) := by
    intro scored hmem
    obtain ⟨pairs, hpairs, hscore⟩ := hscores scored hmem
    obtain ⟨-, hle, hgreatest⟩ := key_of_score hscore
    refine ⟨hle, hgreatest.trans ⟨?_, ?_⟩⟩
    · rintro hzero ⟨pairs', hpairs', pair, hpair, hdiffer⟩
      cases hpairs.symm.trans hpairs'
      obtain ⟨hfirst, hsecond⟩ := hbounded pairs (List.mem_of_getElem? hpairs) pair hpair
      exact Pattern.distance_ne_zero hfirst hsecond hdiffer (hzero pair hpair hdiffer)
    · intro hparts pair hpair hdiffer
      exact absurd ⟨pairs, hpairs, pair, hpair, hdiffer⟩ hparts
  refine ⟨hperm, ?_⟩
  have hsorted : (scores.mergeSort before).Pairwise fun a b ↦ before a b = true :=
    List.pairwise_mergeSort before_trans before_total scores
  have hdistinct : (scores.mergeSort before).Pairwise fun a b ↦ a.2 ≠ b.2 :=
    List.pairwise_map.mp hnodup
  apply List.pairwise_map.mpr
  refine (hsorted.and hdistinct).imp_of_mem ?_
  rintro a b ha hb ⟨hbefore, hne⟩ hidle
  obtain ⟨-, hgreatest⟩ := hkey a (List.mem_mergeSort.mp ha)
  obtain ⟨hle, hgreatest'⟩ := hkey b (List.mem_mergeSort.mp hb)
  have hmax := hgreatest.mpr hidle
  simp only [before, decide_eq_true_eq] at hbefore
  exact ⟨hgreatest'.mp (by omega), by omega⟩

end BitOrder
end RayAdjacency
