import RayAdjacency.Proofs.Computation
import RayAdjacency.Proofs.Pattern.Algebra

/-!
# Adding positions

A position is added by setting one bit of one word, and the kept cardinality grows if that bit was
clear. `Pattern.Gains` is what an addition comes to for the set that the words stand for. It keeps
the three fields in step, also in a pattern that has positions beyond its width; in a well-formed
pattern an addition below the width never fails, because the members cannot outnumber the width.
-/

namespace RayAdjacency

namespace Word

/-- A single position is set where it is, and nowhere else. -/
theorem getLsbD_single (i : Nat) {j : Nat} (hj : j < 64) :
    (single i).getLsbD j = decide (j = i % 64) := by
  unfold single
  rw [BitVec.getLsbD_shiftLeft, BitVec.getLsbD_one]
  by_cases h : j < i % 64
  · simp [h, Nat.ne_of_lt h]
  · have hzero : j - i % 64 = 0 ↔ j = i % 64 := by omega
    simp [h, hj, hzero]

/-- A word has a position in common with a single one if that position is set in it. -/
theorem and_single_eq_zero_iff (w : Word) (i : Nat) :
    w &&& single i = 0#64 ↔ w.getLsbD (i % 64) = false := by
  have hlt : i % 64 < 64 := Nat.mod_lt _ (by decide)
  constructor
  · intro h
    have hbit := congrArg (·.getLsbD (i % 64)) h
    simpa [getLsbD_single i hlt] using hbit
  · intro h
    apply BitVec.eq_of_getLsbD_eq
    intro j hj
    rw [BitVec.getLsbD_and, getLsbD_single i hj, BitVec.getLsbD_zero]
    by_cases hji : j = i % 64
    · rw [hji, h, Bool.false_and]
    · simp [hji]

/-- Setting a bit of the word of a position adds the position. -/
theorem member_set {ws : List Word} {i : Nat} {w : Word} (h : ws[i / 64]? = some w) (j : Nat) :
    member (ws.set (i / 64) (w ||| single i)) j = (member ws j || decide (j = i)) := by
  obtain ⟨hlt, -⟩ := List.getElem?_eq_some_iff.mp h
  unfold member
  rw [List.getD_eq_getElem?_getD, List.getD_eq_getElem?_getD]
  by_cases hword : j / 64 = i / 64
  · have hsame : j % 64 = i % 64 ↔ j = i := by omega
    rw [hword, List.getElem?_set_self hlt, h, Option.getD_some, Option.getD_some,
      BitVec.getLsbD_or, getLsbD_single i (Nat.mod_lt _ (by decide))]
    simp only [hsame]
  · have hne : j ≠ i := fun he ↦ hword (by rw [he])
    rw [List.getElem?_set_ne (Ne.symm hword)]
    simp [hne]

end Word

namespace Pattern

variable {p q : Pattern} {i : Nat}

/-- A pattern after the addition of a position. -/
structure Gains (p : Pattern) (i : Nat) (q : Pattern) : Prop where
  lt_capacity : i < p.capacity
  capacity_eq : q.capacity = p.capacity
  positions_eq : q.positions = p.positions ∪ {i}
  sized : q.Sized

/-- The word of a position below the width is stored. -/
theorem Sized.exists_word (hp : p.Sized) (hi : i < p.capacity) :
    ∃ w, p.words[i / 64]? = some w := by
  have hlt : i / 64 < p.words.length := by
    rw [hp.length_words]
    unfold wordCount
    omega
  exact ⟨_, List.getElem?_eq_getElem hlt⟩

private theorem mem_positions_iff {w : Word} (h : p.words[i / 64]? = some w) :
    i ∈ p.positions ↔ w.getLsbD (i % 64) = true := by
  rw [mem_positions, bit, List.getD_eq_getElem?_getD, h, Option.getD_some]

private theorem insert_of_mem (hp : p.Sized) (hi : i < p.capacity) (hmem : i ∈ p.positions) :
    p.insert i = .ok p := by
  obtain ⟨w, hw⟩ := hp.exists_word hi
  have hne : ¬w &&& Word.single i = 0#64 := fun hzero ↦ by
    rw [Word.and_single_eq_zero_iff, (mem_positions_iff hw).mp hmem] at hzero
    cases hzero
  rw [insert, if_pos hi, hw]
  dsimp only
  rw [if_neg hne]

/-- A pattern with one more position, which has not been a member. -/
def added (p : Pattern) (i : Nat) : Pattern :=
  { p with
    words := p.words.set (i / 64) (p.words.getD (i / 64) 0#64 ||| Word.single i)
    count := p.count + 1 }

private theorem gains_added (hp : p.Sized) (hi : i < p.capacity) (hmem : i ∉ p.positions) :
    p.Gains i (p.added i) := by
  obtain ⟨w, hw⟩ := hp.exists_word hi
  have hpositions : (p.added i).positions = p.positions ∪ {i} := by
    ext j
    rw [mem_positions, Finset.mem_union, mem_positions, Finset.mem_singleton,
      ← decide_eq_true_iff (p := j = i), ← Bool.or_eq_true, added, List.getD_eq_getElem?_getD, hw,
      Option.getD_some]
    exact Bool.eq_iff_iff.mp (Word.member_set hw j)
  refine ⟨hi, rfl, hpositions, ?_, ?_⟩
  · exact List.length_set.trans hp.length_words
  · rw [hpositions, Finset.card_union_of_disjoint (Finset.disjoint_singleton_right.mpr hmem),
      Finset.card_singleton, ← hp.count_eq]
    rfl

private theorem insert_of_notMem (hp : p.Sized) (hi : i < p.capacity) (hmem : i ∉ p.positions) :
    p.insert i = if p.count + 1 < wordLimit then .ok (p.added i)
      else Outcome.panic "attempt to add with overflow" := by
  obtain ⟨w, hw⟩ := hp.exists_word hi
  have hclear := Bool.eq_false_iff.mpr fun hset ↦ hmem ((mem_positions_iff hw).mpr hset)
  rw [insert, if_pos hi, hw]
  dsimp only
  rw [if_pos ((Word.and_single_eq_zero_iff w i).mpr hclear), Outcome.add, added,
    List.getD_eq_getElem?_getD, hw]
  split <;> rfl

/-- What an addition gives. -/
theorem Sized.gains (hp : p.Sized) (h : p.insert i = .ok q) : p.Gains i q := by
  by_cases hi : i < p.capacity
  · by_cases hmem : i ∈ p.positions
    · rw [insert_of_mem hp hi hmem] at h
      cases h
      exact ⟨hi, rfl, by rw [Finset.union_eq_left.mpr (Finset.singleton_subset_iff.mpr hmem)], hp⟩
    · rw [insert_of_notMem hp hi hmem] at h
      split at h
      · cases h
        exact gains_added hp hi hmem
      · cases h
  · rw [insert, if_neg hi] at h
    cases h

/-- An addition keeps a pattern well formed. -/
theorem WellFormed.of_insert (hp : p.WellFormed) (h : p.insert i = .ok q) : q.WellFormed := by
  have hgains := hp.sized.gains h
  apply hgains.sized.wellFormed
  intro j hj
  rw [hgains.positions_eq, Finset.mem_union, Finset.mem_singleton] at hj
  rw [hgains.capacity_eq]
  rcases hj with hj | rfl
  · exact hp.lt_capacity hj
  · exact hgains.lt_capacity

/-- A position below the width can be added to a well-formed pattern. -/
theorem WellFormed.exists_insert (hp : p.WellFormed) (hi : i < p.capacity)
    (hwidth : p.capacity < wordLimit) : ∃ q, p.insert i = .ok q := by
  by_cases hmem : i ∈ p.positions
  · exact ⟨p, insert_of_mem hp.sized hi hmem⟩
  · refine ⟨p.added i, (insert_of_notMem hp.sized hi hmem).trans (if_pos ?_)⟩
    -- With the new member there are still no more members than positions.
    have hsub : p.positions ∪ {i} ⊆ Finset.range p.capacity := by
      intro j hj
      rw [Finset.mem_union, Finset.mem_singleton] at hj
      rw [Finset.mem_range]
      rcases hj with hj | rfl
      · exact hp.lt_capacity hj
      · exact hi
    have hle := Finset.card_le_card hsub
    rw [Finset.card_union_of_disjoint (Finset.disjoint_singleton_right.mpr hmem),
      Finset.card_singleton, Finset.card_range, ← hp.count_eq_card] at hle
    omega

/-! ### Several positions -/

/-- What adding positions one after the other gives. -/
theorem WellFormed.of_foldlM {positions : List Nat} (hp : p.WellFormed)
    (h : positions.foldlM Pattern.insert p = .ok q) :
    q.WellFormed ∧ q.capacity = p.capacity ∧
      ∀ j, j ∈ q.positions ↔ j ∈ p.positions ∨ j ∈ positions := by
  induction positions generalizing p with
  | nil =>
    cases h
    exact ⟨hp, rfl, fun j ↦ by simp⟩
  | cons i positions ih =>
    rw [List.foldlM_cons] at h
    cases hr : p.insert i with
    | error e =>
      rw [hr] at h
      cases h
    | ok r =>
      rw [hr] at h
      have hgains := hp.sized.gains hr
      obtain ⟨hq, hcapacity, hmem⟩ := ih (hp.of_insert hr) h
      refine ⟨hq, hcapacity.trans hgains.capacity_eq, fun j ↦ ?_⟩
      rw [hmem, hgains.positions_eq, Finset.mem_union, Finset.mem_singleton, List.mem_cons, or_assoc]

/-- A pattern made from its members is well formed, and has these members. -/
theorem wellFormed_of_ofPositions {capacity : Nat} {positions : List Nat}
    (h : ofPositions capacity positions = .ok p) :
    p.WellFormed ∧ p.capacity = capacity ∧ ∀ j, j ∈ p.positions ↔ j ∈ positions := by
  obtain ⟨hp, hcapacity, hmem⟩ := (wellFormed_zeros capacity).of_foldlM h
  exact ⟨hp, hcapacity, fun j ↦ by rw [hmem, positions_zeros]; simp⟩

end Pattern
end RayAdjacency
