import RayAdjacency.BitOrder
import RayAdjacency.Proofs.Computation
import RayAdjacency.Proofs.Pattern.Algebra

/-!
# Orders from drawn pairs

A draw never leaves its range, so the pairs drawn for a bit are pairs of the given patterns. Each
distance is at most the width, so the two sums of a bit stay in range if the number of samples
times the width does. An order then exists, whatever was drawn, and has one place for each bit.
-/

namespace RayAdjacency

variable {σ α β : Type}

/-! ### Draws -/

private theorem ends_retry {f : UInt64 → α} {accept : UInt64 → Bool} {good : α → Prop}
    (h : ∀ w, good (f w)) (n : Nat) (s : RandomStream) :
    Ends (Draw.retry f accept n) s (fun a _ ↦ good a) fun _ _ ↦ False := by
  induction n generalizing s with
  | zero => exact h _
  | succ n ih =>
    rw [Draw.retry, ends_bind]
    change Ends (if accept s.next.1 then pure (f s.next.1) else Draw.retry f accept n) s.next.2 _ _
    by_cases hw : accept s.next.1
    · rw [if_pos hw]
      exact h _
    · rw [if_neg hw]
      exact ih _

/-- A drawn number lies below the bound. -/
theorem Draw.ends_below {n : Nat} (hn : 0 < n) (s : RandomStream) :
    Ends (Draw.below n) s (fun a _ ↦ a < n) fun _ _ ↦ False := by
  rw [Draw.below, if_neg (Nat.ne_of_gt hn)]
  refine ends_retry (fun w ↦ ?_) _ _
  rw [Nat.div_lt_iff_lt_mul (by decide), Nat.mul_comm n]
  exact Nat.mul_lt_mul_of_pos_right w.toNat_lt hn

/-- A computation repeated for each item of a list gives a list of the same length. -/
theorem Ends.mapM {f : α → ExceptT Stop (StateM σ) β} {post : β → Prop} {bad : Stop → Prop}
    {l : List α} (h : ∀ a ∈ l, ∀ s, Ends (f a) s (fun b _ ↦ post b) fun e _ ↦ bad e) (s : σ) :
    Ends (l.mapM f) s (fun bs _ ↦ bs.length = l.length ∧ ∀ b ∈ bs, post b) fun e _ ↦ bad e := by
  induction l generalizing s with
  | nil => exact ⟨rfl, fun _ hb ↦ by cases hb⟩
  | cons a l ih =>
    rw [List.mapM_cons]
    refine (h a (.head l) s).bind fun b s₁ hb ↦ ?_
    refine (ih (fun a' ha' ↦ h a' (.tail a ha')) s₁).bind fun bs s₂ hbs ↦ ?_
    refine ⟨by rw [List.length_cons, List.length_cons, hbs.1], fun b' hb' ↦ ?_⟩
    rcases List.mem_cons.mp hb' with rfl | hb'
    · exact hb
    · exact hbs.2 b' hb'

namespace BitOrder

/-- The pairs drawn for each bit: as many as asked for, of patterns that satisfy a property. -/
structure Drawn (width samplesPerBit : Nat) (P : Pattern → Prop)
    (samples : List (List (Pattern × Pattern))) : Prop where
  length_eq : samples.length = width
  length_pairs : ∀ pairs ∈ samples, pairs.length = samplesPerBit
  patterns : ∀ pairs ∈ samples, ∀ pair ∈ pairs, P pair.1 ∧ P pair.2

private theorem ends_drawPair {patterns : Array Pattern} {P : Pattern → Prop}
    (hpos : 0 < patterns.size) (hP : ∀ z ∈ patterns, P z) (s : RandomStream) :
    Ends (drawPair patterns) s (fun pair _ ↦ P pair.1 ∧ P pair.2) fun _ _ ↦ False := by
  have hget {i : Nat} (hi : i < patterns.size) : P (patterns.getD i default) := by
    rw [Array.getD, dif_pos hi]
    exact hP _ (Array.getElem_mem hi)
  refine (Draw.ends_below hpos s).bind fun a s₁ ha ↦ ?_
  refine (Draw.ends_below hpos s₁).bind fun b s₂ hb ↦ ?_
  exact ⟨hget ha, hget hb⟩

/-- Drawing from patterns of which there is at least one gives the pairs asked for. -/
theorem ends_drawSamples {patterns : Array Pattern} {P : Pattern → Prop}
    (hpos : 0 < patterns.size) (hP : ∀ z ∈ patterns, P z) (width samplesPerBit : Nat)
    (s : RandomStream) :
    Ends (drawSamples patterns width samplesPerBit) s
      (fun samples _ ↦ Drawn width samplesPerBit P samples) fun _ _ ↦ False := by
  have hbit (s : RandomStream) : Ends ((List.replicate samplesPerBit ()).mapM fun _ ↦
      drawPair patterns) s (fun pairs _ ↦ pairs.length = (List.replicate samplesPerBit ()).length ∧
        ∀ pair ∈ pairs, P pair.1 ∧ P pair.2) fun _ _ ↦ False :=
    Ends.mapM (fun _ _ s ↦ ends_drawPair hpos hP s) s
  refine (Ends.mapM (fun _ _ s ↦ hbit s) s).mono ?_ fun _ _ h ↦ h
  rintro samples - ⟨hlength, hpairs⟩
  refine ⟨by rw [hlength, List.length_replicate], fun pairs hp ↦ ?_, fun pairs hp ↦ (hpairs _ hp).2⟩
  rw [(hpairs _ hp).1, List.length_replicate]

private theorem exists_drawSamples {patterns : List Pattern} {P : Pattern → Prop}
    (htwo : 2 ≤ patterns.length) (hP : ∀ z ∈ patterns, P z) (width samplesPerBit : Nat)
    (s : RandomStream) :
    ∃ samples, ((drawSamples patterns.toArray width samplesPerBit).run.run s).1 = .ok samples ∧
      Drawn width samplesPerBit P samples := by
  have hpos : 0 < patterns.toArray.size := by
    rw [List.size_toArray]
    omega
  obtain ⟨samples, s', hrun, hdrawn⟩ := Ends.exists_ok
    (ends_drawSamples hpos (fun z hz ↦ hP z (List.mem_toArray.mp hz)) width samplesPerBit s)
  exact ⟨samples, by rw [hrun], hdrawn⟩

/-- Fewer than two patterns leave the positions in their own order; the order of others is that of
pairs drawn for each bit. -/
theorem sampled_cases {patterns : List Pattern} {P : Pattern → Prop} (hP : ∀ z ∈ patterns, P z)
    (width samplesPerBit seed : Nat) :
    patterns.length < 2 ∧
        sampled width patterns samplesPerBit seed = .ok (natural width, []) ∨
      ∃ samples, Drawn width samplesPerBit P samples ∧
        (sampled width patterns samplesPerBit seed).map Prod.fst = ofSamples samples := by
  by_cases hfew : patterns.length < 2
  · exact .inl ⟨hfew, by rw [sampled, if_pos (.inl hfew)]⟩
  · right
    obtain ⟨samples, hsamples, hdrawn⟩ := exists_drawSamples (Nat.not_lt.mp hfew) hP width
      samplesPerBit (RandomStream.ofSeed seed.toUInt64)
    refine ⟨samples, hdrawn, ?_⟩
    by_cases hwidth : width = 0
    · subst hwidth
      cases List.length_eq_zero_iff.mp hdrawn.length_eq
      have hempty : ofScores [] = natural 0 := by simp [ofScores, natural]
      rw [sampled, if_pos (.inr rfl), ← hempty]
      rfl
    · rw [sampled, if_neg fun h ↦ h.elim hfew hwidth]
      simp only [hsamples, Outcome.ok_bind]
      cases ofSamples samples <;> rfl

/-! ### Balances -/

/-- The distances of the pairs parted and of those joined by a bit. -/
def sums (bit : Nat) (pairs : List (Pattern × Pattern)) : Nat × Nat :=
  pairs.foldl (tallyPair bit) (0, 0)

private theorem foldl_tallyPair_le (bit bound : Nat) {pairs : List (Pattern × Pattern)}
    (h : ∀ pair ∈ pairs, pair.1.distance pair.2 ≤ bound) (start : Nat × Nat) :
    (pairs.foldl (tallyPair bit) start).1 + (pairs.foldl (tallyPair bit) start).2
      ≤ start.1 + start.2 + pairs.length * bound := by
  induction pairs generalizing start with
  | nil => simp
  | cons pair pairs ih =>
    have hpair := h pair (.head pairs)
    have hrest := ih (fun p hp ↦ h p (.tail pair hp)) (tallyPair bit start pair)
    have hsum : (tallyPair bit start pair).1 + (tallyPair bit start pair).2
        = start.1 + start.2 + pair.1.distance pair.2 := by
      unfold tallyPair
      dsimp only
      split <;> dsimp only <;> omega
    rw [List.foldl_cons, List.length_cons, Nat.succ_mul]
    omega

/-- A bit has a score if both sums stay in range. -/
theorem score_eq (pairs : List (Pattern × Pattern)) (bit : Nat) :
    score (pairs, bit) =
      if (sums bit pairs).1 < wordLimit ∧ (sums bit pairs).2 < wordLimit then
        .ok ((Balance.ofSums (sums bit pairs).1 (sums bit pairs).2).key, bit)
      else Outcome.panic "attempt to add with overflow" := by
  rw [score, balance, sums]
  dsimp only
  generalize pairs.foldl (tallyPair bit) (0, 0) = total
  obtain ⟨parted, joined⟩ := total
  simp only [Outcome.add, Nat.add_zero]
  by_cases hparted : parted < wordLimit
  · by_cases hjoined : joined < wordLimit
    · rw [if_pos hparted, if_pos hjoined, if_pos ⟨hparted, hjoined⟩]
      rfl
    · have hnot : ¬(parted < wordLimit ∧ joined < wordLimit) := fun h ↦ hjoined h.2
      rw [if_pos hparted, if_neg hjoined, if_neg hnot]
      rfl
  · have hnot : ¬(parted < wordLimit ∧ joined < wordLimit) := fun h ↦ hparted h.1
    rw [if_neg hparted, if_neg hnot]
    rfl

/-- The sums of a bit stay in range if the number of pairs times the greatest distance does. -/
theorem exists_score (bit : Nat) {bound : Nat} {pairs : List (Pattern × Pattern)}
    (h : ∀ pair ∈ pairs, pair.1.distance pair.2 ≤ bound) (hlimit : pairs.length * bound < wordLimit) :
    ∃ scored, score (pairs, bit) = .ok scored := by
  have hsum : (sums bit pairs).1 + (sums bit pairs).2 ≤ 0 + 0 + pairs.length * bound :=
    foldl_tallyPair_le bit bound h (0, 0)
  rw [score_eq, if_pos ⟨by omega, by omega⟩]
  exact ⟨_, rfl⟩

private theorem length_ofScores (scores : List (Nat × Nat)) :
    (ofScores scores).length = scores.length := by
  simp [length, ofScores]

/-- The values that a computation gives for the items of a list, item by item. -/
theorem mapM_eq_ok_iff {f : α → Outcome β} {l : List α} {bs : List β} :
    l.mapM f = .ok bs ↔ List.Forall₂ (fun a b ↦ f a = .ok b) l bs := by
  induction l generalizing bs with
  | nil =>
    rw [List.mapM_nil, List.forall₂_nil_left_iff]
    exact ⟨fun h ↦ by cases h; rfl, fun h ↦ by rw [h]; rfl⟩
  | cons a l ih =>
    rw [List.mapM_cons, List.forall₂_cons_left_iff]
    constructor
    · intro h
      cases hb : f a with
      | error e =>
        rw [hb] at h
        cases h
      | ok b =>
        cases hbs : l.mapM f with
        | error e =>
          rw [hb, hbs] at h
          cases h
        | ok rest =>
          rw [hb, hbs] at h
          cases h
          exact ⟨b, rest, rfl, ih.mp hbs, rfl⟩
    · rintro ⟨b, rest, hb, hrest, rfl⟩
      rw [hb, ih.mpr hrest]
      rfl

private theorem exists_mapM {f : α → Outcome β} {l : List α} (h : ∀ a ∈ l, ∃ b, f a = .ok b) :
    ∃ bs, l.mapM f = .ok bs := by
  induction l with
  | nil => exact ⟨[], rfl⟩
  | cons a l ih =>
    obtain ⟨b, hb⟩ := h a (.head l)
    obtain ⟨bs, hbs⟩ := ih fun a' ha' ↦ h a' (.tail a ha')
    exact ⟨b :: bs, by rw [List.mapM_cons, hb, hbs]; rfl⟩

private theorem panicked_of_mapM {f : α → Outcome β} {l : List α} {stop : Stop}
    (hf : ∀ a stop, f a = .error stop → ∃ message, stop = .panicked message)
    (h : l.mapM f = .error stop) : ∃ message, stop = .panicked message := by
  induction l generalizing stop with
  | nil => cases h
  | cons a l ih =>
    rw [List.mapM_cons] at h
    cases hb : f a with
    | error e =>
      rw [hb] at h
      cases h
      exact hf a _ hb
    | ok b =>
      cases hbs : l.mapM f with
      | error e =>
        rw [hb, hbs] at h
        cases h
        exact ih hbs
      | ok bs =>
        rw [hb, hbs] at h
        cases h

private theorem panicked_of_score {drawn : List (Pattern × Pattern) × Nat} {stop : Stop}
    (h : score drawn = .error stop) : ∃ message, stop = .panicked message := by
  rw [score_eq] at h
  split at h
  · cases h
  · cases h
    exact ⟨_, rfl⟩

/-- Where samples give no order, a distance sum has left the range. -/
theorem panicked_of_ofSamples {samples : List (List (Pattern × Pattern))} {stop : Stop}
    (h : ofSamples samples = .error stop) : ∃ message, stop = .panicked message := by
  rw [ofSamples] at h
  cases hs : samples.zipIdx.mapM score with
  | error e =>
    rw [hs] at h
    cases h
    exact panicked_of_mapM (fun _ _ ↦ panicked_of_score) hs
  | ok scores =>
    rw [hs] at h
    cases h

/-- An order found from samples has one place for each bit. -/
theorem length_of_ofSamples {samples : List (List (Pattern × Pattern))} {order : BitOrder}
    (h : ofSamples samples = .ok order) : order.length = samples.length := by
  rw [ofSamples] at h
  cases hs : samples.zipIdx.mapM score with
  | error e =>
    rw [hs] at h
    cases h
  | ok scores =>
    rw [hs] at h
    cases h
    rw [length_ofScores, ← (mapM_eq_ok_iff.mp hs).length_eq, List.length_zipIdx]

/-- An order exists, whatever has been drawn, if the number of samples times the greatest distance
of the patterns stays in range. -/
theorem exists_ofSamples_of_le {width samplesPerBit bound : Nat} {P : Pattern → Prop}
    {samples : List (List (Pattern × Pattern))} (h : Drawn width samplesPerBit P samples)
    (hbound : ∀ p q, P p → P q → p.distance q ≤ bound)
    (hlimit : samplesPerBit * bound < wordLimit) :
    ∃ order, ofSamples samples = .ok order ∧ order.length = width := by
  obtain ⟨scores, hscores⟩ : ∃ scores, samples.zipIdx.mapM score = .ok scores := by
    refine exists_mapM fun ⟨pairs, bit⟩ hmem ↦ ?_
    have hpairs : pairs ∈ samples := by
      obtain ⟨-, -, hget⟩ := List.mem_zipIdx hmem
      exact hget ▸ List.getElem_mem _
    have hdistance : ∀ pair ∈ pairs, pair.1.distance pair.2 ≤ bound := fun pair hp ↦ by
      obtain ⟨hfirst, hsecond⟩ := h.patterns pairs hpairs pair hp
      exact hbound _ _ hfirst hsecond
    exact exists_score bit hdistance (h.length_pairs pairs hpairs ▸ hlimit)
  have hok : ofSamples samples = .ok (ofScores scores) := by
    rw [ofSamples, hscores]
    rfl
  exact ⟨_, hok, (length_of_ofSamples hok).trans h.length_eq⟩

/-- Well-formed patterns of one width have an order, whatever has been drawn. -/
theorem exists_ofSamples {width samplesPerBit : Nat} {samples : List (List (Pattern × Pattern))}
    (h : Drawn width samplesPerBit (fun z ↦ z.WellFormed ∧ z.capacity = width) samples)
    (hlimit : samplesPerBit * width < wordLimit) :
    ∃ order, ofSamples samples = .ok order ∧ order.length = width := by
  refine exists_ofSamples_of_le h ?_ hlimit
  rintro p q ⟨hp, hwidth⟩ ⟨hq, hwidth'⟩
  rw [← hwidth]
  exact Pattern.distance_le hp hq (hwidth.trans hwidth'.symm)

end BitOrder
end RayAdjacency
