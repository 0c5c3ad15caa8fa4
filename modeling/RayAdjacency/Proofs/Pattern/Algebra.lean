import RayAdjacency.Proofs.Pattern.Positions

/-!
# Patterns as sets

`Pattern.positions` is the set that a pattern stands for. Intersections and unions of patterns are
intersections and unions of these sets, whatever the widths. The queries that use the kept
cardinality (`Pattern.isSubset`, `Pattern.isStrictSubset`) decide inclusion and strict inclusion
where it is exact, as it is in a sized pattern.
-/

namespace RayAdjacency.Pattern

/-- The set of positions that a pattern stands for. -/
def positions (p : Pattern) : Finset Nat := Word.positions p.words

/-- Membership is the bit test on the stored words. -/
@[simp] theorem mem_positions {p : Pattern} {i : Nat} : i ∈ p.positions ↔ p.bit i = true :=
  Word.mem_positions

/-- The members of a well-formed pattern lie below its width. -/
theorem WellFormed.lt_capacity {p : Pattern} (h : p.WellFormed) {i : Nat} (hi : i ∈ p.positions) :
    i < p.capacity :=
  h.lt_of_bit i (mem_positions.mp hi)

/-- The kept cardinality of a well-formed pattern is that of its set. -/
theorem WellFormed.count_eq_card {p : Pattern} (h : p.WellFormed) : p.count = p.positions.card := by
  rw [h.count_eq, Word.total_eq_card, positions]

/-- The bounded view of a well-formed pattern is membership. -/
theorem WellFormed.contains_iff {p : Pattern} (h : p.WellFormed) (i : Nat) :
    p.contains i = true ↔ i ∈ p.positions := by
  rw [contains, Bool.and_eq_true, decide_eq_true_eq, mem_positions]
  exact and_iff_right_of_imp (h.lt_of_bit i)

/-- Well-formed patterns of one width are equal if they have the same members. -/
theorem WellFormed.eq_of_contains {p q : Pattern} (hp : p.WellFormed) (hq : q.WellFormed)
    (hcapacity : p.capacity = q.capacity)
    (h : ∀ i, i < p.capacity → p.contains i = q.contains i) : p = q := by
  have hbit : ∀ i, p.bit i = q.bit i := fun i ↦ by
    by_cases hi : i < p.capacity
    · have hi' := h i hi
      rw [contains, contains, ← hcapacity] at hi'
      simpa [hi] using hi'
    · have hpi : p.bit i = false := Bool.eq_false_iff.mpr fun hb ↦ hi (hp.lt_of_bit i hb)
      have hqi : q.bit i = false := Bool.eq_false_iff.mpr fun hb ↦
        hi (hcapacity ▸ hq.lt_of_bit i hb)
      rw [hpi, hqi]
  have hwords : p.words = q.words := by
    refine List.ext_getElem (by rw [hp.length_words, hq.length_words, hcapacity]) fun k hk hk' ↦ ?_
    refine BitVec.eq_of_getLsbD_eq fun j hj ↦ ?_
    have hdiv : (64 * k + j) / 64 = k := by omega
    have hmod : (64 * k + j) % 64 = j := by omega
    have hkj := hbit (64 * k + j)
    rw [bit, bit, hdiv, hmod, List.getD_eq_getElem?_getD, List.getD_eq_getElem?_getD,
      List.getElem?_eq_getElem hk, List.getElem?_eq_getElem hk'] at hkj
    exact hkj
  have hcount : p.count = q.count := by rw [hp.count_eq, hq.count_eq, hwords]
  cases p
  cases q
  cases hwords
  cases hcapacity
  cases hcount
  rfl

/-! ### Operations -/

/-- The bits of an intersection. -/
theorem bit_inter (p q : Pattern) (i : Nat) : (p.inter q).bit i = (p.bit i && q.bit i) :=
  Word.member_inter p.words q.words i

/-- The bits of a union. -/
theorem bit_union (p q : Pattern) (i : Nat) : (p.union q).bit i = (p.bit i || q.bit i) :=
  Word.member_merge_or p.words q.words i

/-- The bits of a union in place. -/
theorem bit_absorb (p q : Pattern) (i : Nat) : (p.absorb q).bit i = (p.bit i || q.bit i) :=
  Word.member_merge_or p.words q.words i

/-- An intersection of patterns is an intersection of sets. -/
@[simp] theorem positions_inter (p q : Pattern) :
    (p.inter q).positions = p.positions ∩ q.positions := by
  ext i
  rw [mem_positions, bit_inter, Finset.mem_inter, mem_positions, mem_positions, Bool.and_eq_true]

/-- A union of patterns is a union of sets. -/
@[simp] theorem positions_union (p q : Pattern) :
    (p.union q).positions = p.positions ∪ q.positions := by
  ext i
  rw [mem_positions, bit_union, Finset.mem_union, mem_positions, mem_positions, Bool.or_eq_true]

/-- A union in place is a union of sets. -/
@[simp] theorem positions_absorb (p q : Pattern) :
    (p.absorb q).positions = p.positions ∪ q.positions := by
  ext i
  rw [mem_positions, bit_absorb, Finset.mem_union, mem_positions, mem_positions, Bool.or_eq_true]

/-- A new pattern stands for the empty set. -/
@[simp] theorem positions_zeros (capacity : Nat) : (zeros capacity).positions = ∅ := by
  ext i
  simp [bit_zeros]

/-- The common members are counted without building the intersection. -/
theorem interCount_eq_card (p q : Pattern) :
    p.interCount q = (p.positions ∩ q.positions).card := by
  rw [interCount, Word.common_eq_total_inter, Word.total_eq_card, ← positions_inter]
  rfl

/-- The distance is the number of positions on which the patterns differ. -/
theorem distance_eq_card (p q : Pattern) :
    p.distance q = (symmDiff p.positions q.positions).card := by
  rw [distance, Word.total_eq_card]
  congr 1
  ext i
  rw [Word.mem_positions, Word.member_merge_xor, Finset.mem_symmDiff, mem_positions, mem_positions,
    bit, bit]
  change (Word.member p.words i ^^ Word.member q.words i) = true ↔
    Word.member p.words i = true ∧ ¬Word.member q.words i = true ∨
      Word.member q.words i = true ∧ ¬Word.member p.words i = true
  cases Word.member p.words i <;> cases Word.member q.words i <;> simp

private theorem below_words_iff (p q : Pattern) :
    Word.below p.words q.words = true ↔ p.positions ⊆ q.positions := by
  rw [Word.below_iff]
  exact forall_congr' fun i ↦ by rw [mem_positions, mem_positions]; rfl

/-! ### Well-formedness -/

/-- Words and a cardinality that agree with each other and with the width. What is missing from
well-formedness is that no position lies at or beyond the width. -/
structure Sized (p : Pattern) : Prop where
  length_words : p.words.length = wordCount p.capacity
  count_eq : p.count = p.positions.card

/-- A well-formed pattern is sized. -/
theorem WellFormed.sized {p : Pattern} (h : p.WellFormed) : p.Sized :=
  ⟨h.length_words, h.count_eq_card⟩

/-- Inclusion is decided by the counts and the words. -/
theorem isSubset_iff {p q : Pattern} (hp : p.Sized) (hq : q.Sized) :
    p.isSubset q = true ↔ p.positions ⊆ q.positions := by
  rw [isSubset, Bool.and_eq_true, decide_eq_true_eq, below_words_iff, hp.count_eq, hq.count_eq]
  exact and_iff_right_of_imp Finset.card_le_card

/-- Strict inclusion is inclusion with fewer members. -/
theorem isStrictSubset_iff {p q : Pattern} (hp : p.Sized) (hq : q.Sized) :
    p.isStrictSubset q = true ↔ p.positions ⊂ q.positions := by
  rw [isStrictSubset, Bool.and_eq_true, decide_eq_true_eq, isSubset_iff hp hq, hp.count_eq,
    hq.count_eq]
  constructor
  · rintro ⟨hlt, hsub⟩
    refine Finset.ssubset_iff_subset_ne.mpr ⟨hsub, fun he ↦ ?_⟩
    rw [he] at hlt
    exact Nat.lt_irrefl _ hlt
  · intro h
    exact ⟨Finset.card_lt_card h, h.subset⟩

/-- Whether a pattern is well formed is decided by the positions of the stored words. -/
instance (p : Pattern) : Decidable p.WellFormed :=
  decidable_of_iff (p.words.length = wordCount p.capacity ∧ p.count = Word.total p.words ∧
      ∀ i, i < 64 * p.words.length → p.bit i = true → i < p.capacity)
    ⟨fun ⟨hlength, hcount, hlt⟩ ↦
        ⟨hlength, hcount, fun i hi ↦ hlt i (Word.lt_of_member hi) hi⟩,
      fun h ↦ ⟨h.length_words, h.count_eq, fun i _ ↦ h.lt_of_bit i⟩⟩

/-- A pattern whose positions lie below its width. -/
def Bounded (p : Pattern) : Prop := ∀ i ∈ p.positions, i < p.capacity

/-- A well-formed pattern is bounded. -/
theorem WellFormed.bounded {p : Pattern} (h : p.WellFormed) : p.Bounded := fun _ ↦ h.lt_capacity

/-- A sized and bounded pattern is well formed. -/
theorem Sized.wellFormed {p : Pattern} (h : p.Sized) (hlt : p.Bounded) : p.WellFormed where
  length_words := h.length_words
  count_eq := by rw [h.count_eq, Word.total_eq_card, positions]
  lt_of_bit i hi := hlt i (mem_positions.mpr hi)

private theorem wordCount_mono {a b : Nat} (h : a ≤ b) : wordCount a ≤ wordCount b :=
  Nat.div_le_div_right (by omega)

private theorem lt_of_wordCount_lt {a b : Nat} (h : wordCount a < wordCount b) : a < b := by
  unfold wordCount at h
  omega

/-- A new pattern is well formed. -/
theorem wellFormed_zeros (capacity : Nat) : (zeros capacity).WellFormed where
  length_words := length_words_zeros capacity
  count_eq := by
    rw [Word.total_eq_card]
    change 0 = (zeros capacity).positions.card
    rw [positions_zeros, Finset.card_empty]
  lt_of_bit i h := by simp [bit_zeros] at h

/-- One word is a well-formed pattern if it has no position at or above the width. -/
theorem wellFormed_ofWord {w : Word} {capacity : Nat} (hpos : 0 < capacity) (hle : capacity ≤ 64)
    (h : ∀ i, i < 64 → w.getLsbD i = true → i < capacity) : (ofWords [w] capacity).WellFormed where
  length_words := by
    change 1 = (capacity + 63) / 64
    omega
  count_eq := rfl
  lt_of_bit i hi := by
    rw [bit, ofWords] at hi
    by_cases hword : i / 64 = 0
    · rw [hword] at hi
      have hmod : i % 64 = i := by omega
      exact h i (by omega) (hmod ▸ hi)
    · have hnone : ([w] : List Word)[i / 64]? = none := List.getElem?_eq_none (by simp; omega)
      simp [List.getD_eq_getElem?_getD, hnone] at hi

/-- Words that are counted anew are sized if there are as many as the width asks for. -/
theorem sized_ofWords {words : List Word} {capacity : Nat} (h : words.length = wordCount capacity) :
    (ofWords words capacity).Sized :=
  ⟨h, Word.total_eq_card words⟩

/-- An intersection is sized if its left operand is. -/
theorem Sized.inter {p : Pattern} (hp : p.Sized) (q : Pattern) : (p.inter q).Sized :=
  sized_ofWords ((Word.length_inter p.words q.words).trans hp.length_words)

/-- A union of sized patterns is sized. -/
theorem Sized.union {p q : Pattern} (hp : p.Sized) (hq : q.Sized) : (p.union q).Sized := by
  apply sized_ofWords
  rw [Word.length_merge, hp.length_words, hq.length_words]
  rcases Nat.le_total p.capacity q.capacity with h | h
  · rw [Nat.max_eq_right h, Nat.max_eq_right (wordCount_mono h)]
  · rw [Nat.max_eq_left h, Nat.max_eq_left (wordCount_mono h)]

/-- The width of a union in place. -/
theorem capacity_absorb_eq (p q : Pattern) :
    (p.absorb q).capacity = if p.words.length < q.words.length then q.capacity else p.capacity := rfl

/-- A union in place of sized patterns is sized. -/
theorem Sized.absorb {p q : Pattern} (hp : p.Sized) (hq : q.Sized) : (p.absorb q).Sized := by
  apply sized_ofWords
  rw [Word.length_merge]
  split
  · next h => rw [Nat.max_eq_right (Nat.le_of_lt h), hq.length_words]
  · next h => rw [Nat.max_eq_left (Nat.not_lt.mp h), hp.length_words]

/-- An intersection is well formed if its left operand is. -/
theorem WellFormed.inter {p : Pattern} (hp : p.WellFormed) (q : Pattern) :
    (p.inter q).WellFormed := by
  apply (hp.sized.inter q).wellFormed
  intro i hi
  rw [positions_inter, Finset.mem_inter] at hi
  exact hp.lt_capacity hi.1

/-- A union of well-formed patterns is well formed. -/
theorem WellFormed.union {p q : Pattern} (hp : p.WellFormed) (hq : q.WellFormed) :
    (p.union q).WellFormed := by
  apply (hp.sized.union hq.sized).wellFormed
  intro i hi
  show i < max p.capacity q.capacity
  rw [positions_union, Finset.mem_union] at hi
  rcases hi with hi | hi
  · exact Nat.lt_of_lt_of_le (hp.lt_capacity hi) (Nat.le_max_left _ _)
  · exact Nat.lt_of_lt_of_le (hq.lt_capacity hi) (Nat.le_max_right _ _)

/-- A pattern that keeps the positions of another one below its width when it takes them in: it has
fewer words, and so adopts the other width, or its own width lies above them all. -/
def HasRoomFor (p q : Pattern) : Prop :=
  p.words.length < q.words.length ∨ ∀ i ∈ q.positions, i < p.capacity

/-- A union in place of well-formed patterns is well formed exactly where there is room. -/
theorem wellFormed_absorb_iff {p q : Pattern} (hp : p.WellFormed) (hq : q.WellFormed) :
    (p.absorb q).WellFormed ↔ p.HasRoomFor q := by
  constructor
  · intro h
    by_cases hlen : p.words.length < q.words.length
    · exact .inl hlen
    · refine .inr fun i hi ↦ ?_
      have hmem : i ∈ (p.absorb q).positions := by
        rw [positions_absorb]
        exact Finset.mem_union_right _ hi
      have hlt := h.lt_capacity hmem
      rwa [capacity_absorb_eq, if_neg hlen] at hlt
  · intro hroom
    apply (hp.sized.absorb hq.sized).wellFormed
    intro i hi
    rw [positions_absorb, Finset.mem_union] at hi
    rw [capacity_absorb_eq]
    split
    · next hlen =>
      rw [hp.length_words, hq.length_words] at hlen
      rcases hi with hi | hi
      · exact Nat.lt_trans (hp.lt_capacity hi) (lt_of_wordCount_lt hlen)
      · exact hq.lt_capacity hi
    · next hlen =>
      rcases hi with hi | hi
      · exact hp.lt_capacity hi
      · exact (hroom.resolve_left hlen) i hi

/-- A union in place of patterns of one width has that width. -/
theorem capacity_absorb {p q : Pattern} (h : p.capacity = q.capacity) :
    (p.absorb q).capacity = p.capacity := by
  rw [capacity_absorb_eq, h, ite_self]

/-- A union in place of well-formed patterns of one width is well formed. -/
theorem WellFormed.absorb {p q : Pattern} (hp : p.WellFormed) (hq : q.WellFormed)
    (h : p.capacity = q.capacity) : (p.absorb q).WellFormed := by
  apply (wellFormed_absorb_iff hp hq).mpr
  refine .inr fun i hi ↦ ?_
  rw [h]
  exact hq.lt_capacity hi

/-- A union in place of patterns of one width is their union. -/
theorem absorb_eq_union {p q : Pattern} (h : p.capacity = q.capacity) : p.absorb q = p.union q := by
  unfold absorb union
  rw [h, ite_self, Nat.max_self]

/-- Well-formed patterns of one width differ on no more positions than there are. -/
theorem distance_le {p q : Pattern} (hp : p.WellFormed) (hq : q.WellFormed)
    (h : p.capacity = q.capacity) : p.distance q ≤ p.capacity := by
  rw [distance_eq_card]
  have hsub : symmDiff p.positions q.positions ⊆ Finset.range p.capacity := by
    intro i hi
    rw [Finset.mem_range]
    rcases Finset.mem_symmDiff.mp hi with hi | hi
    · exact hp.lt_capacity hi.1
    · rw [h]
      exact hq.lt_capacity hi.1
  simpa using Finset.card_le_card hsub

end RayAdjacency.Pattern
