import RayAdjacency.Proofs.Leaf.Filter

/-!
# Comparisons of leaves

A comparison meets every ray of one terminal node with every ray of another. A meeting is accepted
at once, postponed to the filter, or neither; what the comparison accepts in the end are the
meetings accepted at once and the postponed ones that survive the filter. These are exactly the
accepted pairs of the two nodes, each once.

What a comparison counts follows from its meetings as well: each of them is counted once as a test,
and, if the two rays share enough zeros, once as accepted, put off or refused (`Batch.Compared`).
-/

namespace RayAdjacency

/-- A positive and a negative ray that are compared, by index and pattern. -/
structure Meeting where
  positive : Nat
  zp : Pattern
  negative : Nat
  zn : Pattern

namespace Meeting

/-- The indices of the two rays. -/
def pair (m : Meeting) : IndexPair := ⟨m.positive, m.negative⟩

/-- The candidate that the two rays make. -/
def candidate (m : Meeting) : Candidate := ⟨m.positive, m.negative, m.zp.inter m.zn⟩

/-- Whether the two rays share enough zeros. -/
def isMet (site : SearchSite) (m : Meeting) : Bool :=
  site.root.threshold.isMetBy (m.zp.interCount m.zn)

/-- Whether one of the two rays has exactly one zero more than they share. -/
def hasOneMore (m : Meeting) : Bool :=
  decide (m.zp.count - m.zp.interCount m.zn = 1 ∨ m.zn.count - m.zp.interCount m.zn = 1)

/-- Whether the delegate accepts the two rays, read from the stores. -/
def isJudged (site : SearchSite) (judge : Ray → Ray → Pattern → Outcome Bool) (m : Meeting) : Bool :=
  match site.stores.positive.rays[m.positive]?, site.stores.negative.rays[m.negative]? with
  | some p, some n =>
    match judge p n (m.zp.inter m.zn) with
    | .ok verdict => verdict
    | .error _ => false
  | _, _ => false

/-- Whether the pair is accepted as soon as it is tested. -/
def isAcceptedAtOnce (site : SearchSite) (m : Meeting) : Bool :=
  m.isMet site && match site.test with
    | .combinatorial => m.hasOneMore
    | .rank judge => m.isJudged site judge

/-- Whether the pair is put off to the filter. -/
def isPostponed (site : SearchSite) (m : Meeting) : Bool :=
  m.isMet site && match site.test with
    | .combinatorial => !m.hasOneMore
    | .rank _ => false

/-- Whether the delegate is asked about the pair. -/
def isAsked (site : SearchSite) (m : Meeting) : Bool := m.isMet site && site.test.asks

/-- The counter that tells what becomes of the pair. A pair that shares too few zeros, or that the
delegate accepts, has none. -/
def verdict (site : SearchSite) (m : Meeting) : Option Counter :=
  if m.isMet site then
    match site.test with
    | .combinatorial => some (if m.hasOneMore then .immediateAdjacent else .pendingCandidates)
    | .rank judge => if m.isJudged site judge then none else some .rankRejected
  else none

/-- What has been counted once the pair has been tested. -/
def counts (site : SearchSite) (m : Meeting) (t : Tally) : Tally :=
  let t := t.bump .leafPairs
  match m.verdict site with
  | none => t
  | some c => t.bump c

/-- Whether the test of the pair is counted by a counter. -/
def isCounted (site : SearchSite) (m : Meeting) (c : Counter) : Bool :=
  c == .leafPairs || m.verdict site == some c

/-- A pair of rays adds one to the counters that count it. -/
theorem get_counts {site : SearchSite} {m : Meeting} (t : Tally) (c : Counter) :
    (m.counts site t).get c = t.get c + if m.isCounted site c then 1 else 0 := by
  have hne : m.verdict site ≠ some .leafPairs := by
    rw [verdict]
    repeat' split
    all_goals simp
  rw [counts, isCounted]
  cases hverdict : m.verdict site with
  | none => cases c <;> simp [Tally.bump, Tally.get_add]
  | some d =>
    have hd : d ≠ .leafPairs := fun hd ↦ hne (hd ▸ hverdict)
    simp only [Tally.bump, Tally.get_add]
    by_cases hc : c = .leafPairs
    · subst hc
      simp [hd]
    · simp [hc, Ne.symm hc]

section isCounted

variable {site : SearchSite} (m : Meeting)

/-- A delegate accepts without counting. -/
theorem isCounted_immediateAdjacent : m.isCounted site .immediateAdjacent
    = (m.isAcceptedAtOnce site && !site.test.asks) := by
  rw [isCounted, verdict, isAcceptedAtOnce]
  cases m.isMet site
  · rfl
  · cases site.test with
    | combinatorial => dsimp only; cases m.hasOneMore <;> rfl
    | rank judge => dsimp only; cases m.isJudged site judge <;> rfl

/-- A pair is counted as a candidate just if it is put off. -/
theorem isCounted_pendingCandidates :
    m.isCounted site .pendingCandidates = m.isPostponed site := by
  rw [isCounted, verdict, isPostponed]
  cases m.isMet site
  · rfl
  · cases site.test with
    | combinatorial => dsimp only; cases m.hasOneMore <;> rfl
    | rank judge => dsimp only; cases m.isJudged site judge <;> rfl

/-- A pair is counted as refused just if the delegate has been asked and has not accepted it. -/
theorem isCounted_rankRejected : m.isCounted site .rankRejected
    = (m.isAsked site && !m.isAcceptedAtOnce site) := by
  rw [isCounted, verdict, isAsked, isAcceptedAtOnce]
  cases m.isMet site
  · rfl
  · cases site.test with
    | combinatorial => dsimp only; cases m.hasOneMore <;> rfl
    | rank judge => dsimp only; cases m.isJudged site judge <;> rfl

/-- No pair is counted as filtered out before the filter runs. -/
theorem isCounted_filteredOut : m.isCounted site .filteredOut = false := by
  rw [isCounted, verdict]
  cases m.isMet site
  · rfl
  · cases site.test with
    | combinatorial => cases m.hasOneMore <;> rfl
    | rank judge => dsimp only; cases m.isJudged site judge <;> rfl

end isCounted

/-- Where a delegate decides, no pair is put off. -/
theorem isPostponed_of_asks {site : SearchSite} (m : Meeting) (h : site.test.asks = true) :
    m.isPostponed site = false := by
  rw [isPostponed]
  cases htest : site.test with
  | combinatorial =>
    rw [htest] at h
    cases h
  | rank judge => exact Bool.and_false _

/-- Whoever shares enough zeros is accepted at once, put off, or refused by a delegate that has been
asked. -/
theorem isMet_cases {site : SearchSite} (m : Meeting) :
    (m.isAcceptedAtOnce site).toNat + (m.isPostponed site).toNat
      + (m.isAsked site && !m.isAcceptedAtOnce site).toNat = (m.isMet site).toNat := by
  rw [isAsked, isAcceptedAtOnce, isPostponed]
  cases m.isMet site
  · rfl
  · cases site.test with
    | combinatorial => dsimp only; cases m.hasOneMore <;> rfl
    | rank judge => dsimp only; cases m.isJudged site judge <;> rfl

/-- No pair is accepted at once and put off. -/
theorem not_postponed_of_acceptedAtOnce {site : SearchSite} {m : Meeting}
    (ha : m.isAcceptedAtOnce site = true) (hp : m.isPostponed site = true) : False := by
  rw [isAcceptedAtOnce, Bool.and_eq_true] at ha
  rw [isPostponed, Bool.and_eq_true] at hp
  cases htest : site.test <;> simp_all

/-- Meetings of rays of the stores. -/
structure Genuine (site : SearchSite) (m : Meeting) : Prop where
  positive : site.stores.positive.pattern? m.positive = some m.zp
  negative : site.stores.negative.pattern? m.negative = some m.zn

/-- The patterns of two rays of the stores are sized. -/
theorem Genuine.sized {site : SearchSite} {m : Meeting} (h : m.Genuine site) (hsite : site.Sound) :
    m.zp.Sized ∧ m.zn.Sized :=
  ⟨@SearchSite.Indexed.sized site .positive m.positive m.zp hsite.indexed h.positive,
    @SearchSite.Indexed.sized site .negative m.negative m.zn hsite.indexed h.negative⟩

section rank

variable {site : SearchSite} {m : Meeting} {judge : Ray → Ray → Pattern → Outcome Bool} {p n : Ray}

/-- What a delegate says about two rays of the stores is what is read back from the stores. -/
theorem isJudged_of_ok {verdict : Bool} (hp : site.stores.positive.rays[m.positive]? = some p)
    (hn : site.stores.negative.rays[m.negative]? = some n)
    (h : judge p n (m.zp.inter m.zn) = .ok verdict) : m.isJudged site judge = verdict := by
  rw [isJudged, hp, hn]
  simp only [h]

/-- The question about two rays of the stores hands their shared zeros over. -/
theorem Genuine.question?_eq (h : m.Genuine site)
    (hp : site.stores.positive.rays[m.positive]? = some p)
    (hn : site.stores.negative.rays[m.negative]? = some n) :
    site.question? m.pair = some ⟨p, n, m.zp.inter m.zn⟩ := by
  obtain ⟨p', hp', hzp⟩ := Option.map_eq_some_iff.mp h.positive
  obtain ⟨n', hn', hzn⟩ := Option.map_eq_some_iff.mp h.negative
  obtain rfl : p' = p := Option.some.inj (hp'.symm.trans hp)
  obtain rfl : n' = n := Option.some.inj (hn'.symm.trans hn)
  change (site.stores.positive.rays[m.positive]?.bind fun p ↦
    site.stores.negative.rays[m.negative]?.bind fun n ↦ some _) = _
  rw [hp, hn, ← hzp, ← hzn]
  rfl

/-- A pair that a delegate has refused is counted. -/
theorem counts_of_rank (htest : site.test = .rank judge) (hmet : m.isMet site = true) (t : Tally) :
    m.counts site t = if m.isJudged site judge then t.bump .leafPairs
      else (t.bump .leafPairs).bump .rankRejected := by
  rw [counts, verdict, if_pos hmet, htest]
  dsimp only
  cases m.isJudged site judge <;> rfl

end rank

end Meeting

namespace Batch

variable {site : SearchSite} {env : Interference} {b : Batch}

/-- A batch after some meetings have been tested. -/
structure Tested (site : SearchSite) (done : List Meeting) (b : Batch) : Prop where
  accepted_eq : b.accepted.toList = (done.filter (Meeting.isAcceptedAtOnce site)).map Meeting.pair
  pending_eq : b.candidates.pending.toList
    = (done.filter (Meeting.isPostponed site)).map Meeting.candidate
  cut : b.candidates.pending = #[] ∧ b.candidates.cut = none ∨
    ∃ cut, b.candidates.cut = some cut ∧ CutBelow cut b.candidates
  tally_eq : ∀ c, b.tally.get c = done.countP (Meeting.isCounted site · c)
  asked_eq : b.asked.toList.map some
    = (done.filter (Meeting.isAsked site)).map (site.question? ·.pair)

/-- What the test of a meeting notes down, whatever becomes of the pair: its counts, and the
question if the delegate is asked. -/
structure Notes (site : SearchSite) (m : Meeting) (b b' : Batch) : Prop where
  tally_eq : b'.tally = m.counts site b.tally
  asked_eq : b'.asked.toList.map some
    = b.asked.toList.map some ++ if m.isAsked site then [site.question? m.pair] else []

/-- Where nobody is asked, only the counts are noted down. -/
theorem Notes.of_not_asked {m : Meeting} {b' : Batch} (htally : b'.tally = m.counts site b.tally)
    (hasked : m.isAsked site = false) (heq : b'.asked = b.asked) : Notes site m b b' :=
  ⟨htally, by rw [heq, hasked, if_neg Bool.false_ne_true, List.append_nil]⟩

namespace Tested

variable {done : List Meeting} {m : Meeting} {b' : Batch}

/-- Reading does not change what has been tested. -/
theorem onlyRead (h : Tested site done b) (hread : OnlyRead b b') : Tested site done b' := by
  rw [hread]
  exact ⟨h.accepted_eq, h.pending_eq, h.cut, h.tally_eq, h.asked_eq⟩

private theorem tally_append (h : Tested site done b) (hnotes : Notes site m b b') (c : Counter) :
    b'.tally.get c = (done ++ [m]).countP (Meeting.isCounted site · c) := by
  rw [hnotes.tally_eq, Meeting.get_counts, h.tally_eq, List.countP_append, List.countP_singleton]

private theorem asked_append (h : Tested site done b) (hnotes : Notes site m b b') :
    b'.asked.toList.map some
      = ((done ++ [m]).filter (Meeting.isAsked site)).map (site.question? ·.pair) := by
  rw [hnotes.asked_eq, h.asked_eq, List.filter_append, List.map_append, List.filter_singleton]
  congr 1
  cases m.isAsked site <;> rfl

private theorem skip (h : Tested site done b) (ha : m.isAcceptedAtOnce site = false)
    (hp : m.isPostponed site = false) (haccepted : b'.accepted = b.accepted)
    (hc : b'.candidates = b.candidates) (hnotes : Notes site m b b') :
    Tested site (done ++ [m]) b' := by
  refine ⟨?_, ?_, hc.symm ▸ h.cut, h.tally_append hnotes, h.asked_append hnotes⟩
  · simp [haccepted, h.accepted_eq, List.filter_append, ha]
  · simp [hc, h.pending_eq, List.filter_append, hp]

private theorem accept (h : Tested site done b) (ha : m.isAcceptedAtOnce site = true)
    (hp : m.isPostponed site = false) (haccepted : b'.accepted = b.accepted.push m.pair)
    (hc : b'.candidates = b.candidates) (hnotes : Notes site m b b') :
    Tested site (done ++ [m]) b' := by
  refine ⟨?_, ?_, hc.symm ▸ h.cut, h.tally_append hnotes, h.asked_append hnotes⟩
  · simp [haccepted, h.accepted_eq, List.filter_append, ha]
  · simp [hc, h.pending_eq, List.filter_append, hp]

private theorem postpone (h : Tested site done b) (ha : m.isAcceptedAtOnce site = false)
    (hp : m.isPostponed site = true) (hm : m.zp.Sized) (haccepted : b'.accepted = b.accepted)
    (hc : b'.candidates = b.candidates.push m.candidate) (hnotes : Notes site m b b') :
    Tested site (done ++ [m]) b' := by
  have hnew : m.candidate.intersection.Sized := hm.inter m.zn
  refine ⟨?_, ?_, hc.symm ▸ HasCut.push h.cut hnew, h.tally_append hnotes, h.asked_append hnotes⟩
  · simp [haccepted, h.accepted_eq, List.filter_append, ha]
  · simp [hc, Candidates.push, h.pending_eq, List.filter_append, hp]

end Tested

/-! ### One meeting -/

private theorem ends_testExcess {done : List Meeting} {m : Meeting} (h : Tested site done b)
    (htest : site.test = .combinatorial) (hmet : m.isMet site = true) (hp : m.zp.Sized)
    (hn : m.zn.Sized) :
    Ends (testExcess m.positive m.zp m.negative m.zn (m.zp.interCount m.zn))
      { b with tally := b.tally.bump .leafPairs }
      (fun _ b' ↦ Tested site (done ++ [m]) b') fun _ _ ↦ ¬site.Quiet env := by
  have hcount : m.zp.interCount m.zn ≤ m.zp.count ∧ m.zp.interCount m.zn ≤ m.zn.count := by
    rw [Pattern.interCount_eq_card, hp.count_eq, hn.count_eq]
    exact ⟨Finset.card_le_card Finset.inter_subset_left,
      Finset.card_le_card Finset.inter_subset_right⟩
  have hatOnce : m.isAcceptedAtOnce site = m.hasOneMore := by
    rw [Meeting.isAcceptedAtOnce, hmet, htest, Bool.true_and]
  have hpostponed : m.isPostponed site = !m.hasOneMore := by
    rw [Meeting.isPostponed, hmet, htest, Bool.true_and]
  have hcounts : m.counts site b.tally = (b.tally.bump .leafPairs).bump
      (if m.hasOneMore then .immediateAdjacent else .pendingCandidates) := by
    rw [Meeting.counts, Meeting.verdict, hmet, htest]
    rfl
  have hasked : m.isAsked site = false := by
    rw [Meeting.isAsked, htest, AdjacencyTest.asks, Bool.and_false]
  rw [testExcess, Outcome.sub_of_le hcount.1, Outcome.sub_of_le hcount.2, ends_bind,
    ends_liftExcept_ok, ends_bind, ends_liftExcept_ok]
  split
  · next hone =>
    have hone' : m.hasOneMore = true := decide_eq_true hone
    rw [hone', if_pos rfl] at hcounts
    exact h.accept (hatOnce.trans hone') (by rw [hpostponed, hone', Bool.not_true]) rfl rfl
      (.of_not_asked hcounts.symm hasked rfl)
  · next hone =>
    have hone' : m.hasOneMore = false := decide_eq_false hone
    rw [hone', if_neg Bool.false_ne_true] at hcounts
    exact h.postpone (hatOnce.trans hone') (by rw [hpostponed, hone', Bool.not_false]) hp rfl rfl
      (.of_not_asked hcounts.symm hasked rfl)

private theorem ends_testRank {done : List Meeting} {m : Meeting}
    {judge : Ray → Ray → Pattern → Outcome Bool} (h : Tested site done b)
    (htest : site.test = .rank judge) (hmet : m.isMet site = true) (hm : m.Genuine site) :
    Ends (testRank site env judge m.positive m.zp m.negative m.zn)
      { b with tally := b.tally.bump .leafPairs }
      (fun _ b' ↦ Tested site (done ++ [m]) b') fun _ _ ↦ ¬site.Quiet env := by
  have hatOnce : m.isAcceptedAtOnce site = m.isJudged site judge := by
    rw [Meeting.isAcceptedAtOnce, hmet, htest, Bool.true_and]
  have hpostponed : m.isPostponed site = false := by
    rw [Meeting.isPostponed, hmet, htest, Bool.true_and]
  have hasked : m.isAsked site = true := by
    rw [Meeting.isAsked, hmet, htest]
    rfl
  have hcounts := Meeting.counts_of_rank htest hmet b.tally
  refine (ends_quietly (ends_read .positive (Store.lt_size_of_pattern hm.positive))).bind ?_
  rintro p b₁ ⟨hread₁, hp⟩
  refine (ends_quietly (ends_read .negative (Store.lt_size_of_pattern hm.negative))).bind ?_
  rintro n b₂ ⟨hread₂, hn⟩
  have hquestion := hm.question?_eq hp hn
  obtain ⟨k, rfl⟩ : ∃ k, b₂ = { b with tally := b.tally.bump .leafPairs, reads := k } :=
    ⟨b₂.reads, hread₁.trans hread₂⟩
  have hnotes {b' : Batch} (htally : b'.tally = m.counts site b.tally)
      (hb : b'.asked = b.asked.push ⟨p, n, m.zp.inter m.zn⟩) : Notes site m b b' :=
    ⟨htally, by rw [hb, hasked, if_pos rfl, hquestion]; simp⟩
  dsimp only
  rw [ends_bind, ends_get, ends_bind, ends_modify]
  cases henv : env.judge b.asked.size with
  | some stop =>
    change ¬site.Quiet env
    intro hquiet
    rw [hquiet.judge] at henv
    cases henv
  | none =>
    dsimp only
    cases hverdict : judge p n (m.zp.inter m.zn) with
    | error stop =>
      change ¬site.Quiet env
      intro hquiet
      obtain ⟨verdict, hok⟩ := hquiet.decides judge htest p n (m.zp.inter m.zn)
      rw [hverdict] at hok
      cases hok
    | ok verdict =>
      have hjudged := Meeting.isJudged_of_ok hp hn hverdict
      rw [ends_bind, ends_liftExcept_ok]
      cases verdict with
      | true =>
        rw [hjudged, if_pos rfl] at hcounts
        exact h.accept (hatOnce.trans hjudged) hpostponed rfl rfl (hnotes hcounts.symm rfl)
      | false =>
        rw [hjudged, if_neg Bool.false_ne_true] at hcounts
        exact h.skip (hatOnce.trans hjudged) hpostponed rfl rfl (hnotes hcounts.symm rfl)

/-- Testing a meeting of rays of the stores. -/
theorem ends_testPair {done : List Meeting} {m : Meeting} (h : Tested site done b)
    (hsite : site.Sound) (hm : m.Genuine site) :
    Ends (testPair site env m.positive m.zp m.negative m.zn) b
      (fun _ b' ↦ Tested site (done ++ [m]) b') fun _ _ ↦ ¬site.Quiet env := by
  obtain ⟨hzp, hzn⟩ := hm.sized hsite
  refine ends_bind.mpr ?_
  change Ends _ { b with tally := b.tally.bump .leafPairs } _ _
  dsimp only
  split
  · next hmet =>
    cases htest : site.test with
    | combinatorial => exact ends_testExcess h htest hmet hzp hzn
    | rank judge => exact ends_testRank h htest hmet hm
  · next hmet =>
    have hmet' : m.isMet site = false := Bool.eq_false_iff.mpr hmet
    refine h.skip ?_ ?_ rfl rfl (.of_not_asked ?_ ?_ rfl)
    · rw [Meeting.isAcceptedAtOnce, hmet', Bool.false_and]
    · rw [Meeting.isPostponed, hmet', Bool.false_and]
    · rw [Meeting.counts, Meeting.verdict, hmet']
      rfl
    · rw [Meeting.isAsked, hmet', Bool.false_and]

/-! ### All meetings -/

/-- The meetings of the rays of two nodes, in the order in which they are tested. -/
def meetings (positive negative : List (Nat × Pattern)) : List Meeting :=
  positive.flatMap fun p ↦ negative.map fun n ↦ ⟨p.1, p.2, n.1, n.2⟩

private theorem ends_forM {α : Type} {f : α → BatchM Unit} {l : List α} {bad : Stop → Batch → Prop}
    (I : List α → Batch → Prop)
    (step : ∀ done a b, a ∈ l → I done b → Ends (f a) b (fun _ b' ↦ I (done ++ [a]) b') bad)
    (h : I [] b) : Ends (l.forM f) b (fun _ b' ↦ I l b') bad := by
  suffices hrest : ∀ rest done b, done ++ rest = l → I done b →
      Ends (rest.forM f) b (fun _ b' ↦ I l b') bad from hrest l [] b rfl h
  intro rest
  induction rest with
  | nil =>
    intro done b hl hdone
    rw [List.append_nil] at hl
    exact hl ▸ hdone
  | cons a rest ih =>
    intro done b hl hdone
    refine (step done a b (hl ▸ List.mem_append_right done (.head rest)) hdone).bind ?_
    intro _ b' hb'
    exact ih (done ++ [a]) b' (by rw [List.append_assoc]; exact hl) hb'

private theorem ends_testAll {positive negative : List (Nat × Pattern)}
    (hsite : site.Sound) (hm : ∀ m ∈ meetings positive negative, m.Genuine site)
    (h : Tested site [] b) :
    Ends (positive.forM fun (p, zp) ↦ negative.forM fun (n, zn) ↦ testPair site env p zp n zn) b
      (fun _ b' ↦ Tested site (meetings positive negative) b') fun _ _ ↦ ¬site.Quiet env := by
  refine ends_forM (fun done b ↦ Tested site (meetings done negative) b) ?_ h
  intro done p b hp hdone
  -- Along the negative rays, the meetings of the earlier positive rays are behind.
  have hinner : Ends (negative.forM fun n ↦ testPair site env p.1 p.2 n.1 n.2) b
      (fun _ b' ↦ Tested site (meetings done negative ++ meetings [p] negative) b')
      fun _ _ ↦ ¬site.Quiet env := by
    refine ends_forM (fun later b ↦ Tested site (meetings done negative ++ meetings [p] later) b) ?_
      (by simpa [meetings] using hdone)
    intro later n b hn hlater
    let m : Meeting := ⟨p.1, p.2, n.1, n.2⟩
    have hmem : m ∈ meetings positive negative :=
      List.mem_flatMap.mpr ⟨p, hp, List.mem_map.mpr ⟨n, hn, rfl⟩⟩
    have hnext : Ends (testPair site env p.1 p.2 n.1 n.2) b
        (fun _ b' ↦ Tested site (meetings done negative ++ meetings [p] later ++ [m]) b')
        fun _ _ ↦ ¬site.Quiet env := ends_testPair hlater hsite (hm m hmem)
    simpa [meetings, List.append_assoc] using hnext
  simpa [meetings] using hinner

/-- All candidates that no third ray exceeds. -/
private abbrev sparedByAll (site : SearchSite) (c : Candidate) : Bool :=
  sparedBy site [.positive, .negative, .zero] c

/-- The postponed meetings that survive the filter. -/
def survivors (site : SearchSite) (ms : List Meeting) : List Meeting :=
  (ms.filter (Meeting.isPostponed site)).filter (sparedByAll site ·.candidate)

/-- No more pairs survive the filter than have been put off. -/
theorem length_survivors_le (ms : List Meeting) :
    (survivors site ms).length ≤ ms.countP (Meeting.isPostponed site) := by
  rw [List.countP_eq_length_filter]
  exact List.length_filter_le _ _

/-- A batch once all its meetings have been tested and settled. -/
structure Resolved (site : SearchSite) (ms : List Meeting) (b : Batch) : Prop where
  accepted_eq : b.accepted.toList = (ms.filter (Meeting.isAcceptedAtOnce site)).map Meeting.pair
    ++ (survivors site ms).map Meeting.pair
  tally_eq : ∀ c, b.tally.get c = ms.countP (Meeting.isCounted site · c) +
    if c = .filteredOut then ms.countP (Meeting.isPostponed site) - (survivors site ms).length else 0
  asked_eq : b.asked.toList.map some
    = (ms.filter (Meeting.isAsked site)).map (site.question? ·.pair)

private theorem ends_settle {ms : List Meeting} (hsite : site.Sound) (h : Tested site ms b) :
    Ends (settle site env) b (fun _ b' ↦ Resolved site ms b') fun _ _ ↦ ¬site.Quiet env := by
  rw [settle, ends_bind, ends_get]
  split
  · rw [ends_bind]
    refine (ends_quietly (ends_filter hsite.indexed h.cut)).mono ?_ fun _ _ hbad ↦ hbad
    intro _ b₁ hb₁
    rw [ends_modify, hb₁]
    have hpending : b.candidates.size = ms.countP (Meeting.isPostponed site) := by
      rw [Candidates.size, ← Array.length_toList, h.pending_eq, List.length_map,
        List.countP_eq_length_filter]
    have hleft : (kept site b.candidates).pending.toList
        = (survivors site ms).map Meeting.candidate := by
      rw [kept, Candidates.toList_retain, h.pending_eq, List.filter_map]
      rfl
    constructor
    · simp only [Candidates.drain, Array.toList_append, Array.toList_map, h.accepted_eq, hleft,
        List.map_map]
      rfl
    · intro c
      have hsize := congrArg List.length hleft
      rw [Array.length_toList, List.length_map] at hsize
      rw [Tally.get_add, h.tally_eq, hpending, Candidates.size, hsize]
      simp only [eq_comm]
    · exact h.asked_eq
  · next hcandidates =>
    have hnone : b.candidates.pending = #[] := by
      simpa [Candidates.isEmpty] using hcandidates
    have hpostponed : ms.filter (Meeting.isPostponed site) = [] := by
      have hpending := h.pending_eq
      rw [hnone] at hpending
      exact List.map_eq_nil_iff.mp hpending.symm
    have hcount : ms.countP (Meeting.isPostponed site) = 0 := by
      rw [List.countP_eq_length_filter, hpostponed, List.length_nil]
    have hsurvivors : survivors site ms = [] := by rw [survivors, hpostponed, List.filter_nil]
    constructor
    · rw [h.accepted_eq, hsurvivors, List.map_nil, List.append_nil]
    · intro c
      rw [h.tally_eq, hcount, Nat.zero_sub, ite_self, Nat.add_zero]
    · exact h.asked_eq

/-! ### What is accepted -/

private theorem adjacent_iff {m : Meeting} (hm : m.Genuine site) :
    site.stores.Adjacent site.root.threshold m.pair ↔
      site.root.threshold.required ≤ (m.zp.positions ∩ m.zn.positions).card ∧
        (m.zp.positions.card = (m.zp.positions ∩ m.zn.positions).card + 1 ∨
          m.zn.positions.card = (m.zp.positions ∩ m.zn.positions).card + 1 ∨
          ¬site.stores.Exceeded m.pair (m.zp.positions ∩ m.zn.positions)) := by
  constructor
  · rintro ⟨zp, zn, hzp, hzn, h⟩
    obtain rfl : zp = m.zp := Option.some.inj (hzp.symm.trans hm.positive)
    obtain rfl : zn = m.zn := Option.some.inj (hzn.symm.trans hm.negative)
    exact h
  · exact fun h ↦ ⟨m.zp, m.zn, hm.positive, hm.negative, h⟩

private theorem judged_iff {judge : Ray → Ray → Pattern → Outcome Bool} {m : Meeting}
    (hm : m.Genuine site) : site.stores.Judged site.root.threshold judge m.pair ↔
      site.root.threshold.required ≤ (m.zp.positions ∩ m.zn.positions).card ∧
        m.isJudged site judge = true := by
  obtain ⟨p, hp, hzp⟩ := Option.map_eq_some_iff.mp hm.positive
  obtain ⟨n, hn, hzn⟩ := Option.map_eq_some_iff.mp hm.negative
  have hjudged : m.isJudged site judge = true ↔ judge p n (m.zp.inter m.zn) = .ok true := by
    rw [Meeting.isJudged, hp, hn]
    dsimp only
    cases judge p n (m.zp.inter m.zn) <;> simp
  rw [hjudged, ← hzp, ← hzn]
  constructor
  · rintro ⟨p', n', hp', hn', h⟩
    obtain rfl : p' = p := Option.some.inj (hp'.symm.trans hp)
    obtain rfl : n' = n := Option.some.inj (hn'.symm.trans hn)
    exact h
  · exact fun h ↦ ⟨p, n, hp, hn, h⟩

private theorem or_iff_or_not_and {p q : Prop} : p ∨ q ↔ p ∨ ¬p ∧ q := by
  by_cases h : p <;> simp [h]

/-- A pair of rays is accepted if its meeting is accepted at once, or postponed and not exceeded. -/
theorem accepts_iff {m : Meeting} (hsite : site.Sound) (hm : m.Genuine site) :
    site.Accepts m.pair ↔ m.isAcceptedAtOnce site = true ∨
      m.isPostponed site = true ∧ sparedByAll site m.candidate = true := by
  obtain ⟨hzp, hzn⟩ := hm.sized hsite
  have hshared : m.candidate.intersection.positions = m.zp.positions ∩ m.zn.positions :=
    Pattern.positions_inter m.zp m.zn
  have hmet : m.isMet site = true ↔
      site.root.threshold.required ≤ (m.zp.positions ∩ m.zn.positions).card := by
    rw [Meeting.isMet, Threshold.isMetBy, decide_eq_true_eq, Pattern.interCount_eq_card]
  cases htest : site.test with
  | combinatorial =>
    have hone : m.hasOneMore = true ↔
        m.zp.positions.card = (m.zp.positions ∩ m.zn.positions).card + 1 ∨
          m.zn.positions.card = (m.zp.positions ∩ m.zn.positions).card + 1 := by
      have hp : (m.zp.positions ∩ m.zn.positions).card ≤ m.zp.positions.card :=
        Finset.card_le_card Finset.inter_subset_left
      have hn : (m.zp.positions ∩ m.zn.positions).card ≤ m.zn.positions.card :=
        Finset.card_le_card Finset.inter_subset_right
      rw [Meeting.hasOneMore, decide_eq_true_eq, Pattern.interCount_eq_card, hzp.count_eq,
        hzn.count_eq]
      omega
    have hatOnce : m.isAcceptedAtOnce site = (m.isMet site && m.hasOneMore) := by
      rw [Meeting.isAcceptedAtOnce, htest]
    have hpostponed : m.isPostponed site = (m.isMet site && !m.hasOneMore) := by
      rw [Meeting.isPostponed, htest]
    have haccepts : site.Accepts m.pair ↔ site.stores.Adjacent site.root.threshold m.pair := by
      rw [SearchSite.Accepts, htest]
    rw [haccepts, adjacent_iff hm, hatOnce, hpostponed, sparedBy_iff hsite.indexed (hzp.inter m.zn),
      hshared, Bool.and_eq_true, Bool.and_eq_true, hmet, Bool.not_eq_true', ← Bool.not_eq_true, hone]
    change _ ↔ _ ∨ _ ∧ ¬site.stores.Exceeded m.pair (m.zp.positions ∩ m.zn.positions)
    rw [← or_assoc, and_assoc, ← and_or_left]
    exact and_congr_right fun _ ↦ or_iff_or_not_and
  | rank judge =>
    have hatOnce : m.isAcceptedAtOnce site = (m.isMet site && m.isJudged site judge) := by
      rw [Meeting.isAcceptedAtOnce, htest]
    have hpostponed : m.isPostponed site = false := by
      rw [Meeting.isPostponed, htest, Bool.and_false]
    have haccepts : site.Accepts m.pair ↔ site.stores.Judged site.root.threshold judge m.pair := by
      rw [SearchSite.Accepts, htest]
    rw [haccepts, judged_iff hm, hatOnce, hpostponed, Bool.and_eq_true, hmet]
    simp

/-- The accepted pairs of two nodes, each once. -/
structure Settled (site : SearchSite) (pair : NodePair) (accepted : List IndexPair) : Prop where
  nodup : accepted.Nodup
  mem_iff : ∀ x, x ∈ accepted ↔
    x.positive ∈ pair.positive.indices ∧ x.negative ∈ pair.negative.indices ∧ site.Accepts x

private theorem settled_of_meetings {pair : NodePair} {positive negative : List (Nat × Pattern)}
    (hsite : site.Sound) (hm : ∀ m ∈ meetings positive negative, m.Genuine site)
    (hpositive : positive.map Prod.fst = pair.positive.indices)
    (hnegative : negative.map Prod.fst = pair.negative.indices)
    (hpnodup : pair.positive.indices.Nodup) (hnnodup : pair.negative.indices.Nodup) :
    Settled site pair
      (((meetings positive negative).filter (Meeting.isAcceptedAtOnce site)).map Meeting.pair
        ++ (((meetings positive negative).filter (Meeting.isPostponed site)).filter
          (sparedByAll site ·.candidate)).map Meeting.pair) := by
  have hpairs : (meetings positive negative).map Meeting.pair =
      (pair.positive.indices.product pair.negative.indices).map fun x ↦ ⟨x.1, x.2⟩ := by
    rw [← hpositive, ← hnegative]
    simp [meetings, List.product, List.map_flatMap, List.flatMap_map, Meeting.pair,
      Function.comp_def]
  have hmem : ∀ x, x ∈ (meetings positive negative).map Meeting.pair ↔
      x.positive ∈ pair.positive.indices ∧ x.negative ∈ pair.negative.indices := by
    rintro ⟨p, n⟩
    simp [hpairs, List.pair_mem_product]
  have hnodup : ((meetings positive negative).map Meeting.pair).Nodup := by
    rw [hpairs]
    refine (hpnodup.product hnnodup).map fun x y h ↦ ?_
    injection h with h₁ h₂
    exact Prod.ext h₁ h₂
  have hinj := List.inj_on_of_nodup_map hnodup
  refine ⟨List.nodup_append.mpr ⟨?_, ?_, ?_⟩, fun x ↦ ?_⟩
  · exact hnodup.sublist (List.filter_sublist.map _)
  · exact hnodup.sublist ((List.filter_sublist.trans List.filter_sublist).map _)
  · rintro x hx y hy rfl
    obtain ⟨m, hm, hmx⟩ := List.mem_map.mp hx
    obtain ⟨m', hm', hmy⟩ := List.mem_map.mp hy
    obtain ⟨hm, hatOnce⟩ := List.mem_filter.mp hm
    obtain ⟨hm', hpostponed⟩ := List.mem_filter.mp (List.mem_filter.mp hm').1
    obtain rfl := hinj hm hm' (hmx.trans hmy.symm)
    exact Meeting.not_postponed_of_acceptedAtOnce hatOnce hpostponed
  · rw [← and_assoc, ← hmem, List.mem_append, List.mem_map, List.mem_map, List.mem_map]
    constructor
    · rintro (⟨m, h, rfl⟩ | ⟨m, h, rfl⟩)
      · obtain ⟨hmem, hatOnce⟩ := List.mem_filter.mp h
        exact ⟨⟨m, hmem, rfl⟩, (accepts_iff hsite (hm m hmem)).mpr (.inl hatOnce)⟩
      · obtain ⟨h, hspared⟩ := List.mem_filter.mp h
        obtain ⟨hmem, hpostponed⟩ := List.mem_filter.mp h
        exact ⟨⟨m, hmem, rfl⟩, (accepts_iff hsite (hm m hmem)).mpr (.inr ⟨hpostponed, hspared⟩)⟩
    · rintro ⟨⟨m, hmem, rfl⟩, haccepts⟩
      rcases (accepts_iff hsite (hm m hmem)).mp haccepts with hatOnce | ⟨hpostponed, hspared⟩
      · exact .inl ⟨m, List.mem_filter.mpr ⟨hmem, hatOnce⟩, rfl⟩
      · exact .inr ⟨m, List.mem_filter.mpr ⟨List.mem_filter.mpr ⟨hmem, hpostponed⟩, hspared⟩, rfl⟩

/-! ### What is counted -/

private theorem length_meetings (positive negative : List (Nat × Pattern)) :
    (meetings positive negative).length = positive.length * negative.length := by
  rw [meetings, List.length_flatMap]
  simp only [List.length_map, List.map_const', List.sum_replicate_nat]

private theorem settled_lenient {pair : NodePair} {positive negative : List (Nat × Pattern)}
    (hsite : site.Sound) (hm : ∀ m ∈ meetings positive negative, m.Genuine site)
    (hpositive : positive.map Prod.fst = pair.positive.indices)
    (hnegative : negative.map Prod.fst = pair.negative.indices)
    (hpnodup : pair.positive.indices.Nodup) (hnnodup : pair.negative.indices.Nodup) :
    Settled site.lenient pair
      (((meetings positive negative).filter (Meeting.isMet site)).map Meeting.pair) := by
  have hm' : ∀ m ∈ meetings positive negative, m.Genuine site.lenient := fun m h ↦
    ⟨(hm m h).positive, (hm m h).negative⟩
  have hsettled := @settled_of_meetings site.lenient pair positive negative hsite.lenient hm'
    hpositive hnegative hpnodup hnnodup
  have hatOnce : (meetings positive negative).filter (Meeting.isAcceptedAtOnce site.lenient) =
      (meetings positive negative).filter (Meeting.isMet site) := by
    refine List.filter_congr fun m h ↦ ?_
    obtain ⟨p, hp, -⟩ := Option.map_eq_some_iff.mp (hm m h).positive
    obtain ⟨n, hn, -⟩ := Option.map_eq_some_iff.mp (hm m h).negative
    change (m.isMet site && m.isJudged site fun _ _ _ ↦ .ok true) = m.isMet site
    rw [Meeting.isJudged, hp, hn, Bool.and_true]
  have hpostponed : (meetings positive negative).filter (Meeting.isPostponed site.lenient) = [] :=
    List.filter_eq_nil_iff.mpr fun m _ ↦ by simp [Meeting.isPostponed, SearchSite.lenient]
  rwa [hatOnce, hpostponed, List.filter_nil, List.map_nil, List.append_nil] at hsettled

private theorem countP_isMet (ms : List Meeting) :
    ms.countP (Meeting.isAcceptedAtOnce site) + ms.countP (Meeting.isPostponed site)
      + ms.countP (Meeting.isCounted site · .rankRejected) = ms.countP (Meeting.isMet site) := by
  induction ms with
  | nil => rfl
  | cons m ms ih =>
    have hm := @m.isMet_cases site
    rw [← m.isCounted_rankRejected] at hm
    simp only [List.countP_cons, Bool.toNat, Bool.cond_eq_ite] at hm ⊢
    omega

private theorem countP_rankRejected (hasks : site.test.asks = false) (ms : List Meeting) :
    ms.countP (Meeting.isCounted site · .rankRejected) = 0 :=
  List.countP_eq_zero.mpr fun m _ ↦ by
    rw [m.isCounted_rankRejected, Meeting.isAsked, hasks, Bool.and_false, Bool.false_and]
    exact Bool.false_ne_true

private theorem countP_ruled (ms : List Meeting) :
    ms.countP (Meeting.isCounted site · .immediateAdjacent) + ms.countP (Meeting.isPostponed site)
      = if site.test.asks then 0 else ms.countP (Meeting.isMet site) := by
  simp only [Meeting.isCounted_immediateAdjacent]
  cases hasks : site.test.asks with
  | false =>
    have hall := @countP_isMet site ms
    rw [countP_rankRejected hasks] at hall
    simp only [Bool.not_false, Bool.and_true, Bool.false_eq_true, if_false]
    exact hall
  | true =>
    have hnone : ms.countP (Meeting.isPostponed site) = 0 :=
      List.countP_eq_zero.mpr fun m _ ↦ by rw [m.isPostponed_of_asks hasks]; exact Bool.false_ne_true
    simp [hnone]

/-- What a comparison of two nodes leaves behind, where `met` are the pairs of rays that share
enough zeros, each once. -/
structure Compared (site : SearchSite) (pair : NodePair) (met : List IndexPair) (b : Batch) :
    Prop where
  settled : Settled site pair b.accepted.toList
  meets : Settled site.lenient pair met
  /-- Each positive ray is compared with each negative one. -/
  leafPairs_eq : b.tally.get .leafPairs
    = pair.positive.indices.length * pair.negative.indices.length
  met_le : met.length ≤ b.tally.get .leafPairs
  /-- All pairs that share enough zeros are accepted, filtered out, or refused by the delegate. -/
  met_eq : b.accepted.size + b.tally.get .filteredOut + b.tally.get .rankRejected = met.length
  filteredOut_le : b.tally.get .filteredOut ≤ b.tally.get .pendingCandidates
  ruled_eq : b.tally.get .immediateAdjacent + b.tally.get .pendingCandidates
    = if site.test.asks then 0 else met.length
  /-- Only a delegate refuses pairs. -/
  rankRejected_eq : site.test.asks = false → b.tally.get .rankRejected = 0
  /-- The delegate is asked about each of these pairs once. -/
  asked_eq : b.asked.toList.map some = if site.test.asks then met.map site.question? else []

private theorem compared_of_resolved {pair : NodePair} {positive negative : List (Nat × Pattern)}
    (hsite : site.Sound) (hm : ∀ m ∈ meetings positive negative, m.Genuine site)
    (hpositive : positive.map Prod.fst = pair.positive.indices)
    (hnegative : negative.map Prod.fst = pair.negative.indices)
    (hpnodup : pair.positive.indices.Nodup) (hnnodup : pair.negative.indices.Nodup)
    (h : Resolved site (meetings positive negative) b) :
    Compared site pair
      (((meetings positive negative).filter (Meeting.isMet site)).map Meeting.pair) b := by
  have hlength : (meetings positive negative).length =
      pair.positive.indices.length * pair.negative.indices.length := by
    rw [length_meetings, ← hpositive, ← hnegative, List.length_map, List.length_map]
  have hsettled := settled_of_meetings hsite hm hpositive hnegative hpnodup hnnodup
  have hmet := settled_lenient hsite hm hpositive hnegative hpnodup hnnodup
  generalize meetings positive negative = ms at *
  have hcounted (c : Counter) (hc : c ≠ .filteredOut) :
      b.tally.get c = ms.countP (Meeting.isCounted site · c) := by
    rw [h.tally_eq, if_neg hc, Nat.add_zero]
  have hfiltered : b.tally.get .filteredOut =
      ms.countP (Meeting.isPostponed site) - (survivors site ms).length := by
    have hnone : ms.countP (Meeting.isCounted site · .filteredOut) = 0 :=
      List.countP_eq_zero.mpr fun m _ ↦ by rw [m.isCounted_filteredOut]; exact Bool.false_ne_true
    rw [h.tally_eq, if_pos rfl, hnone, Nat.zero_add]
  have hpending : b.tally.get .pendingCandidates = ms.countP (Meeting.isPostponed site) := by
    rw [hcounted .pendingCandidates (by decide)]
    exact List.countP_congr fun m _ ↦ by rw [m.isCounted_pendingCandidates]
  have hsurvivors := @length_survivors_le site ms
  constructor
  · rw [h.accepted_eq]
    exact hsettled
  · exact hmet
  · rw [hcounted .leafPairs (by decide), ← hlength]
    exact List.countP_eq_length.mpr fun _ _ ↦ rfl
  · rw [hcounted .leafPairs (by decide), List.length_map, ← List.countP_eq_length_filter]
    exact List.countP_mono_left fun _ _ _ ↦ rfl
  · rw [hfiltered, hcounted .rankRejected (by decide), List.length_map,
      ← List.countP_eq_length_filter, ← countP_isMet, ← Array.length_toList, h.accepted_eq,
      List.length_append, List.length_map, List.length_map, ← List.countP_eq_length_filter]
    omega
  · rw [hfiltered, hpending]
    exact Nat.sub_le _ _
  · rw [hpending, hcounted .immediateAdjacent (by decide), List.length_map,
      ← List.countP_eq_length_filter]
    exact countP_ruled ms
  · intro hasks
    rw [hcounted .rankRejected (by decide), countP_rankRejected hasks]
  · rw [h.asked_eq]
    cases hasks : site.test.asks with
    | false =>
      have hnone : ms.filter (Meeting.isAsked site) = [] :=
        List.filter_eq_nil_iff.mpr fun m _ ↦ by simp [Meeting.isAsked, hasks]
      rw [hnone, if_neg Bool.false_ne_true, List.map_nil]
    | true =>
      have hall : Meeting.isAsked site = Meeting.isMet site := by
        funext m
        rw [Meeting.isAsked, hasks, Bool.and_true]
      rw [hall, if_pos rfl, List.map_map]
      rfl

/-- A comparison of two terminal nodes that ends has accepted what there is to accept; it ends
where nothing is refused. -/
theorem ends_compare {pair : NodePair} (hsite : site.Sound)
    (hp : pair.positive.isInternal = false) (hn : pair.negative.isInternal = false)
    (hpcovers : pair.positive.Covers site.stores.positive)
    (hncovers : pair.negative.Covers site.stores.negative)
    (hpnodup : pair.positive.indices.Nodup) (hnnodup : pair.negative.indices.Nodup) :
    Ends (compare site env pair) {} (fun _ b' ↦ ∃ met, Compared site pair met b')
      fun _ _ ↦ ¬site.Quiet env := by
  refine (ends_quietly (ends_reserve .positive hpcovers)).bind ?_
  rintro _ _ rfl
  refine (ends_quietly (ends_collect .positive hp hpcovers)).bind ?_
  rintro positive b₁ ⟨hread₁, hpositive⟩
  refine (ends_quietly (ends_reserve .negative hncovers)).bind ?_
  rintro _ _ rfl
  refine (ends_quietly (ends_collect .negative hn hncovers)).bind ?_
  rintro negative b₂ ⟨hread₂, hnegative⟩
  have hm : ∀ m ∈ meetings positive negative, m.Genuine site := by
    intro m h
    obtain ⟨p, hpmem, h⟩ := List.mem_flatMap.mp h
    obtain ⟨n, hnmem, rfl⟩ := List.mem_map.mp h
    exact ⟨hpositive.pattern_eq p hpmem, hnegative.pattern_eq n hnmem⟩
  have hempty : Tested site [] {} := ⟨rfl, rfl, .inl ⟨rfl, rfl⟩, fun c ↦ by cases c <;> rfl, rfl⟩
  refine (ends_testAll hsite hm (hempty.onlyRead (hread₁.trans hread₂))).bind fun _ b₃ h₃ ↦ ?_
  refine (ends_settle hsite h₃).mono (fun _ b₄ h₄ ↦ ?_) fun _ _ hbad ↦ hbad
  exact ⟨_, compared_of_resolved hsite hm hpositive.indices_eq hnegative.indices_eq hpnodup
    hnnodup h₄⟩

end Batch
end RayAdjacency
