import RayAdjacency.Proofs.BitOrder.Arranged
import RayAdjacency.Proofs.Root.Preparation

/-!
# Orders found by sampling

The patterns of stores that can be read are read in order, whatever the stores refuse to exchange.
A sampled order then exists for every seed, as it does for every choice of pairs of these patterns:
it is a permutation of the positions, and a bit that parts none of its pairs, such as one on which
all patterns agree, has only further ones after it, in increasing order (`Orders`).

The only limit is memory. Each bit takes its position and its score, and a width for which these do
not fit into a buffer has no order (`not_orders_of_everywhere`).
-/

namespace RayAdjacency

/-! ### Reading the patterns -/

namespace Store

variable {s : Store}

/-- The zero patterns of the rays, in order. -/
def patterns (s : Store) : List Pattern := s.rays.toList.map Ray.pattern

private theorem ends_readAt (hs : s.Readable) {i : Nat} {ray : Ray} (hray : s.rays[i]? = some ray)
    {s' : Store} (hs' : s'.content = s.content) :
    Ends (read i) s' (fun found s'' ↦ s''.content = s.content ∧ found = ray) fun _ _ ↦ False := by
  obtain ⟨hrays, hrefusals⟩ := Prod.mk.inj hs'
  have hanswer : s'.answer s'.reads i = .ok ray := by
    simp only [answer, hrays, hrefusals, hray, hs s'.reads i ray hray]
  simp only [read, ends_bind, ends_get, ends_set, hanswer, ends_liftExcept_ok, and_true]
  exact hs'

private theorem ends_readMany (hs : s.Readable) {is : List Nat} {rays : List Ray}
    (h : List.Forall₂ (fun i ray ↦ s.rays[i]? = some ray) is rays) {s' : Store}
    (hs' : s'.content = s.content) :
    Ends (is.mapM fun i ↦ do return (← read i).pattern) s'
      (fun found _ ↦ found = rays.map Ray.pattern) fun _ _ ↦ False := by
  induction h generalizing s' with
  | nil => exact rfl
  | cons hray _ ih =>
    rw [List.mapM_cons, bind_assoc]
    refine (ends_readAt hs hray hs').bind ?_
    rintro found s₁ ⟨hs₁, rfl⟩
    rw [pure_bind]
    refine (ih hs₁).bind ?_
    rintro rest s₂ rfl
    exact rfl

/-- Reading all patterns of a store that can be read gives them in order. -/
theorem run_readPatterns (hs : s.Readable) : (readPatterns.run.run s).1 = .ok s.patterns := by
  have hrays : List.Forall₂ (fun i ray ↦ s.rays[i]? = some ray) (List.range s.size)
      s.rays.toList := by
    apply List.forall₂_iff_get.mpr
    refine ⟨List.length_range, fun i hi hi' ↦ ?_⟩
    simp
  have hends : Ends readPatterns s (fun found _ ↦ found = s.patterns) fun _ _ ↦ False :=
    ends_readMany hs hrays rfl
  obtain ⟨found, s', hrun, rfl⟩ := hends.exists_ok
  rw [hrun]

end Store

namespace BitOrder

variable {stores : List Store} {width samplesPerBit bound : Nat}

/-! ### Orders of the bits of rays -/

/-- The zero patterns of the rays of several stores, in order. -/
def patternsOf (stores : List Store) : List Pattern := (stores.map Store.patterns).flatten

/-- A rule that samples reads the patterns, sets up its buffer and draws. -/
theorem ofStores_sampled (hread : ∀ s ∈ stores, s.Readable) (width samplesPerBit seed : Nat) :
    BitOrderRule.ofStores (.sampled samplesPerBit seed) width stores = (do
      Outcome.reserve ((BitOrderRule.sampled samplesPerBit seed).placeSize
        (patternsOf stores).length) width
      sampled width (patternsOf stores) samplesPerBit seed) := by
  have hall : stores.mapM (fun (s : Store) ↦ (Store.readPatterns.run.run s).1) =
      .ok (stores.map Store.patterns) := by
    apply mapM_eq_ok_iff.mpr
    apply List.forall₂_map_right_iff.mpr
    apply List.forall₂_same.mpr
    exact fun s hs ↦ Store.run_readPatterns (hread s hs)
  simp only [BitOrderRule.ofStores, BitOrderRule.order, BitOrderRule.looksAtRays, if_true, hall,
    Outcome.ok_bind, Outcome.liftExcept_eq]
  rfl

/-- A bit on which all patterns agree parts no pair of them. -/
theorem not_parts_of_constant {patterns : List Pattern} {samples : List (List (Pattern × Pattern))}
    (hdrawn : Drawn width samplesPerBit (· ∈ patterns) samples) {bit : Nat}
    (h : ∀ p ∈ patterns, ∀ q ∈ patterns, p.contains bit = q.contains bit) :
    ¬Parts samples bit := by
  rintro ⟨pairs, hpairs, pair, hpair, hdiffer⟩
  obtain ⟨hfirst, hsecond⟩ := hdrawn.patterns pairs (List.mem_of_getElem? hpairs) pair hpair
  exact hdiffer (h pair.1 hfirst pair.2 hsecond)

/-- What sampling finds for the rays of some stores. -/
structure Orders (stores : List Store) (width samplesPerBit : Nat) : Prop where
  /-- Whatever pairs of patterns have been drawn, they have an order that arranges the bits. -/
  arranges : ∀ samples, Drawn width samplesPerBit (· ∈ patternsOf stores) samples →
    ∃ order, ofSamples samples = .ok order ∧ Arranges samples order
  /-- Among the bits that part nothing are those on which all patterns agree. -/
  constant : ∀ samples, Drawn width samplesPerBit (· ∈ patternsOf stores) samples →
    ∀ bit, (∀ p ∈ patternsOf stores, ∀ q ∈ patternsOf stores, p.contains bit = q.contains bit) →
      ¬Parts samples bit
  /-- For every seed there is an order, that of some drawn pairs if there are two rays or more. -/
  found : ∀ seed, (BitOrderRule.sampled samplesPerBit seed).placeSize (patternsOf stores).length *
      width ≤ bufferLimit →
    ∃ found, BitOrderRule.ofStores (.sampled samplesPerBit seed) width stores = .ok found ∧
      found.1.bits.Perm (List.range width) ∧
      (2 ≤ (patternsOf stores).length → ∃ samples,
        Drawn width samplesPerBit (· ∈ patternsOf stores) samples ∧ Arranges samples found.1)

private theorem exists_arranges (hbounded : ∀ p ∈ patternsOf stores, p.Bounded)
    (hbound : ∀ p ∈ patternsOf stores, ∀ q ∈ patternsOf stores, p.distance q ≤ bound)
    (hlimit : samplesPerBit * bound < wordLimit) {samples : List (List (Pattern × Pattern))}
    (hdrawn : Drawn width samplesPerBit (· ∈ patternsOf stores) samples) :
    ∃ order, ofSamples samples = .ok order ∧ Arranges samples order := by
  obtain ⟨order, horder, -⟩ :=
    exists_ofSamples_of_le hdrawn (fun p q hp hq ↦ hbound p hp q hq) hlimit
  refine ⟨order, horder, arranges_of_ofSamples horder fun pairs hpairs pair hpair ↦ ?_⟩
  obtain ⟨hfirst, hsecond⟩ := hdrawn.patterns pairs hpairs pair hpair
  exact ⟨hbounded _ hfirst, hbounded _ hsecond⟩

/-- Exactly the permutations can be given as orders. For every width whose scores fit into memory an
order is found from the rays of stores that can be read, if no sum of distances leaves its range; it
is a permutation in which the bits that part nothing come last, in increasing order. -/
theorem orders_of_readable (hread : ∀ s ∈ stores, s.Readable)
    (hbounded : ∀ p ∈ patternsOf stores, p.Bounded)
    (hbound : ∀ p ∈ patternsOf stores, ∀ q ∈ patternsOf stores, p.distance q ≤ bound)
    (hlimit : samplesPerBit * bound < wordLimit) (width : Nat) :
    (∀ bits, ((ofBits? bits).isSome = true ↔ bits.Perm (List.range bits.length)) ∧
      ∀ order, ofBits? bits = some order → order.bits = bits) ∧
    Orders stores width samplesPerBit := by
  have harranges : ∀ samples, Drawn width samplesPerBit (· ∈ patternsOf stores) samples →
      ∃ order, ofSamples samples = .ok order ∧ Arranges samples order :=
    fun _ hdrawn ↦ exists_arranges hbounded hbound hlimit hdrawn
  refine ⟨fun bits ↦ ⟨isSome_ofBits?_iff bits, fun _ ↦ bits_of_ofBits?⟩, harranges,
    fun samples hdrawn bit ↦ not_parts_of_constant hdrawn, fun seed hfits ↦ ?_⟩
  rw [ofStores_sampled hread, Outcome.reserve_of_le hfits, Outcome.ok_bind]
  rcases sampled_cases (fun _ hp ↦ hp) width samplesPerBit seed with
    ⟨hfew, hnatural⟩ | ⟨samples, hdrawn, hsampled⟩
  · exact ⟨_, hnatural, .refl _, fun htwo ↦ absurd hfew (Nat.not_lt.mpr htwo)⟩
  · obtain ⟨order, horder, harranged⟩ := harranges samples hdrawn
    cases hfound : sampled width (patternsOf stores) samplesPerBit seed with
    | error stop =>
      rw [hfound, horder] at hsampled
      cases hsampled
    | ok found =>
      rw [hfound, horder] at hsampled
      cases hsampled
      refine ⟨found, rfl, ?_, fun _ ↦ ⟨samples, hdrawn, harranged⟩⟩
      rw [← hdrawn.length_eq]
      exact harranged.perm

/-- Two stores of one ray each, which share one of four zeros. -/
def facing : List Store :=
  [Store.ofRays [.ofPattern 0 ⟨[3#64], 4, 2⟩], Store.ofRays [.ofPattern 1 ⟨[5#64], 4, 2⟩]]

/-- An order of four bits for two rays, from two pairs drawn for each bit. -/
theorem orders_of_readable_facing :
    (∀ s ∈ facing, s.Readable) ∧ (∀ p ∈ patternsOf facing, p.Bounded) ∧
      (∀ p ∈ patternsOf facing, ∀ q ∈ patternsOf facing, p.distance q ≤ 2) ∧ 2 * 2 < wordLimit ∧
      Orders facing 4 2 := by
  have hread : ∀ s ∈ facing, s.Readable := by
    intro s hs k i ray _
    rcases List.mem_pair.mp hs with rfl | rfl <;> rfl
  have hformed : ∀ p ∈ patternsOf facing, p.WellFormed := by decide
  have hbounded : ∀ p ∈ patternsOf facing, p.Bounded := fun p hp ↦ (hformed p hp).bounded
  have hbound : ∀ p ∈ patternsOf facing, ∀ q ∈ patternsOf facing, p.distance q ≤ 2 := by decide
  have hlimit : 2 * 2 < wordLimit := by decide
  exact ⟨hread, hbounded, hbound, hlimit, (orders_of_readable hread hbounded hbound hlimit 4).2⟩

/-- Two rays, of which one has the only position as its zero. -/
def opposed : Store := Store.ofRays [.ofPattern 0 ⟨[1#64], 1, 1⟩, .ofPattern 1 ⟨[0#64], 1, 0⟩]

/-- Two patterns of the same position, which lies beyond the width of the second one. -/
def crooked : Pattern × Pattern := (⟨[2#64], 2, 1⟩, ⟨[2#64], 1, 1⟩)

/-- A width of `2 ^ 59` bits has no order, as its scores do not fit into memory. And where a pattern
has a position beyond its width, a bit that parts a drawn pair may come after one that parts none. -/
theorem not_orders_of_everywhere :
    (opposed.Readable ∧ (∀ p ∈ opposed.patterns, p.WellFormed) ∧
      (∀ p ∈ opposed.patterns, ∀ q ∈ opposed.patterns, p.distance q ≤ 1) ∧ 1 * 1 < wordLimit ∧
      BitOrderRule.ofStores (.sampled 1 0) 576460752303423488 [opposed] =
        Outcome.panic "capacity overflow") ∧
    crooked.1.distance crooked.2 = 0 ∧
      Drawn 2 1 (· ∈ [crooked.1, crooked.2]) [[crooked], [crooked]] ∧
      ofSamples [[crooked], [crooked]] = .ok ⟨[0, 1]⟩ ∧
      ¬Parts [[crooked], [crooked]] 0 ∧ Parts [[crooked], [crooked]] 1 := by
  have hread : opposed.Readable := fun _ _ _ _ ↦ rfl
  have htooLarge : Outcome.reserve 16 576460752303423488 = Outcome.panic "capacity overflow" := by
    decide
  refine ⟨⟨hread, by decide, by decide, by decide, ?_⟩, by decide, ⟨rfl, by decide, by decide⟩,
    ?_, ?_, ?_⟩
  · have hall : ∀ s ∈ [opposed], s.Readable := fun s hs ↦ List.mem_singleton.mp hs ▸ hread
    rw [ofStores_sampled hall]
    exact congrArg (· >>= _) htooLarge
  · have hscores : [[crooked], [crooked]].zipIdx.mapM score =
        .ok [(wordLimit + 1, 0), (wordLimit + 1, 1)] := rfl
    have hsorted : [(wordLimit + 1, 0), (wordLimit + 1, 1)].Pairwise
        fun a b ↦ before a b = true := by decide
    rw [ofSamples, hscores, Outcome.ok_bind, ofScores, List.mergeSort_of_pairwise hsorted]
    rfl
  · rintro ⟨pairs, hpairs, pair, hpair, hdiffer⟩
    cases hpairs
    cases List.mem_singleton.mp hpair
    exact hdiffer (by decide)
  · exact ⟨[crooked], rfl, crooked, .head _, by decide⟩

end BitOrder
end RayAdjacency
