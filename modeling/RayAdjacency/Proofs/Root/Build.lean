import RayAdjacency.Proofs.BitOrder
import RayAdjacency.Proofs.Tree.Build
import RayAdjacency.Root.Basic

/-!
# Built roots

`Root.Built` is what a build promises: the stores are rearranged, and each tree is the tree over
all rays of its store. A build that ends keeps the promise whatever the stores refuse. It does end
if the configuration can be run, the stores are ready (`Stores.Ready`: they answer, and their
patterns are well formed and of one width), and the distance sums of sampled bits stay in range.
-/

namespace RayAdjacency

variable {α : Type}

namespace Stores

/-- Stores whose rays have been rearranged, each side for itself. -/
def Rearranged (s s' : Stores) : Prop :=
  ∀ side, Store.Rearranged 0 (s.side side).size (s.side side) (s'.side side)

/-- Patterns whose words and cardinality agree, on all sides. -/
def Sized (s : Stores) : Prop := ∀ side, (s.side side).Sized

/-- Patterns that are well formed and share a width, on all sides. -/
def Uniform (width : Nat) (s : Stores) : Prop := ∀ side, (s.side side).Uniform width

/-- Stores that refuse no call, with well-formed patterns of one width. -/
structure Ready (width : Nat) (s : Stores) : Prop where
  answers : ∀ side, (s.side side).Answers
  uniform : s.Uniform width

/-- A stop that one of the stores causes by a refusal. -/
def Refused (s : Stores) (stop : Stop) : Prop := ∃ side, (s.side side).Refused stop

variable {s s' s'' : Stores} {width : Nat}

/-- Uniform patterns are sized. -/
theorem Uniform.sized (h : s.Uniform width) : s.Sized := fun side ↦ (h side).sized

/-- The rays of ready stores can be read. -/
theorem Ready.readable (h : s.Ready width) (side : Side) : (s.side side).Readable :=
  (h.answers side).readable

/-- Ready stores refuse nothing. -/
theorem Refused.not_ready {stop : Stop} (h : s.Refused stop) : ¬s.Ready width := by
  obtain ⟨side, hside⟩ := h
  exact fun hready ↦ hside.1 (hready.answers side)

/-- The store that has been put in a place is found there. -/
@[simp] theorem side_setSide_self (side : Side) (t : Store) : (s.setSide side t).side side = t := by
  cases side <;> rfl

/-- The stores of the other sides stay as they were. -/
theorem side_setSide_of_ne {side side' : Side} (h : side' ≠ side) (t : Store) :
    (s.setSide side t).side side' = s.side side' := by
  cases side <;> cases side' <;> first | rfl | exact absurd rfl h

namespace Rearranged

/-- Nothing has happened. -/
theorem refl (s : Stores) : Rearranged s s := fun _ ↦ .refl _

/-- One rearrangement after the other. -/
theorem trans (h : Rearranged s s') (h' : Rearranged s' s'') : Rearranged s s'' := fun side ↦ by
  have hside := h' side
  rw [(h side).size_eq] at hside
  exact (h side).trans hside

/-- A rearrangement of one side. -/
theorem setSide {side : Side} {t : Store}
    (h : Store.Rearranged 0 (s.side side).size (s.side side) t) :
    Rearranged s (s.setSide side t) := by
  intro side'
  by_cases hside : side' = side
  · subst hside
    rwa [side_setSide_self]
  · rw [side_setSide_of_ne hside]
    exact .refl _

/-- Patterns stay uniform. -/
theorem uniform (h : Rearranged s s') (hs : s.Uniform width) : s'.Uniform width := fun side ↦
  (h side).uniform (hs side)

/-- Patterns stay sized. -/
theorem sized (h : Rearranged s s') (hs : s.Sized) : s'.Sized := fun side ↦ (h side).sized (hs side)

/-- Stores stay ready. -/
theorem ready (h : Rearranged s s') (hs : s.Ready width) : s'.Ready width :=
  ⟨fun side ↦ (h side).answers_iff.mpr (hs.answers side), h.uniform hs.uniform⟩

/-- What causes a stop stays. -/
theorem refused (h : Rearranged s s') {stop : Stop} (hs : s'.Refused stop) : s.Refused stop := by
  obtain ⟨side, hside⟩ := hs
  exact ⟨side, (h side).refused_iff.mp hside⟩

end Rearranged

/-- Two positive and two negative rays of four positions. The first positive ray shares one zero
with each negative ray, the second one with the first negative ray alone. -/
def crossing : Stores where
  positive := Store.ofRays [.ofPattern 0 (.ofWords [3#64] 4), .ofPattern 1 (.ofWords [6#64] 4)]
  negative := Store.ofRays [.ofPattern 2 (.ofWords [10#64] 4), .ofPattern 3 (.ofWords [9#64] 4)]
  zero := Store.ofRays []

/-- The crossing rays are ready. -/
theorem ready_crossing : crossing.Ready 4 := by
  constructor
  · rintro (_ | _ | _) <;> exact ⟨fun _ _ _ ↦ rfl, fun _ ↦ rfl⟩
  · rintro (_ | _ | _)
    · exact Store.uniform_ofRays [(0, 3#64), (1, 6#64)] (by decide) (by decide) (by decide)
    · exact Store.uniform_ofRays [] (by decide) (by decide) (by decide)
    · exact Store.uniform_ofRays [(2, 10#64), (3, 9#64)] (by decide) (by decide) (by decide)

/-- What holds after a computation on one side. -/
theorem ends_on {side : Side} {m : StoreM α} {good : α → Stores → Prop} {bad : Stop → Stores → Prop} :
    Ends (on side m) s good bad ↔ Ends m (s.side side) (fun a t ↦ good a (s.setSide side t))
      fun e t ↦ bad e (s.setSide side t) := by
  simp only [on, ends_bind, ends_get]
  unfold Ends
  rcases m.run.run (s.side side) with ⟨a | a, t⟩ <;> rfl

/-- What holds after a computation that is confined to one side. -/
theorem ends_on_of_confined {side : Side} {m : StoreM α} {post : α → Store → Prop}
    (h : Store.Confined m (s.side side) 0 (s.side side).size post) :
    Ends (on side m) s (fun a s' ↦ s.Rearranged s' ∧ post a (s'.side side))
      fun stop _ ↦ s.Refused stop := by
  rw [ends_on]
  refine Ends.mono h ?_ ?_
  · rintro a t ⟨hs, ha⟩
    exact ⟨.setSide hs, by rwa [side_setSide_self]⟩
  · rintro e t ⟨-, hrefused⟩
    exact ⟨side, hrefused⟩

end Stores

/-! ### Widths -/

/-- The width that a store shows is that of its patterns. -/
theorem Store.confined_patternWidth {s : Store} :
    Confined patternWidth s 0 s.size fun found _ ↦
      ∀ width, s.Uniform width → found = some width ∨ found = none ∧ s.size = 0 := by
  refine .get_bind ?_
  split
  · next hsize => exact .pure fun _ _ ↦ .inr ⟨rfl, hsize⟩
  · next hsize =>
    refine (confined_read (Nat.pos_of_ne_zero hsize)).bind ?_
    rintro ray s₁ - ⟨-, hray⟩
    refine .pure fun width hs ↦ .inl ?_
    rw [hs.capacity_eq ray (Array.mem_of_getElem? hray)]

namespace Stores

variable {s₀ s : Stores} {width : Nat}

/-- What the width found on some sides says: it is the width of the patterns, unless these sides
are empty. -/
private def Shows (s₀ : Stores) (sides : List Side) (found : Option Nat) : Prop :=
  ∀ width, s₀.Uniform width →
    found = some width ∨ found = none ∧ ∀ side ∈ sides, (s₀.side side).size = 0

private theorem ends_agree {found : Option Nat} {sides : List Side} (side : Side)
    (h₀ : s₀.Rearranged s) (h : Shows s₀ sides found) :
    Ends (agree found side) s
      (fun found' s' ↦ s₀.Rearranged s' ∧ Shows s₀ (side :: sides) found')
      fun _ _ ↦ ¬s₀.Ready width := by
  have hpattern := ends_on_of_confined (Store.confined_patternWidth (s := s.side side))
  refine (hpattern.mono (fun _ _ h ↦ h) fun _ _ hbad ↦ (h₀.refused hbad).not_ready).bind ?_
  rintro got s₁ ⟨hs₁, hgot⟩
  have hside : ∀ width, s₀.Uniform width → got = some width ∨
      got = none ∧ (s₀.side side).size = 0 := fun width hu ↦ by
    rw [← (h₀ side).size_eq]
    exact hgot width (h₀.uniform hu side)
  have h₁ : s₀.Rearranged s₁ := h₀.trans hs₁
  match found, got with
  | some expected, some got =>
    change Ends (if expected = got then _ else _) _ _ _
    split
    · refine ⟨h₁, fun width hu ↦ .inl ?_⟩
      simpa using h width hu
    · next hne =>
      intro hready
      have hexpected := h width hready.uniform
      have hgot := hside width hready.uniform
      simp only [Option.some.injEq, reduceCtorEq, false_and, or_false] at hexpected hgot
      exact hne (hexpected.trans hgot.symm)
  | none, some got =>
    refine ⟨h₁, fun width hu ↦ .inl ?_⟩
    simpa using hside width hu
  | some expected, none =>
    refine ⟨h₁, fun width hu ↦ .inl ?_⟩
    simpa using h width hu
  | none, none =>
    refine ⟨h₁, fun width hu ↦ .inr ⟨rfl, ?_⟩⟩
    have hsides := h width hu
    have hnew := hside width hu
    simp only [reduceCtorEq, true_and, false_or] at hsides hnew
    simpa using ⟨hnew, hsides⟩

/-- The common width is that of the patterns; it is 0 if there is no ray. -/
theorem ends_patternWidth (s : Stores) :
    Ends patternWidth s (fun found s' ↦ s.Rearranged s' ∧ ∀ width, s.Uniform width →
        s.Uniform found ∧ found ≤ width) fun _ _ ↦ ¬s.Ready width := by
  have h₀ : Shows s [] none := fun _ _ ↦ .inr ⟨rfl, by simp⟩
  rw [patternWidth]
  simp only [List.foldlM_cons, List.foldlM_nil, bind_assoc, pure_bind]
  refine (ends_agree .positive (.refl s) h₀).bind ?_
  rintro f₁ s₁ ⟨hs₁, h₁⟩
  refine (ends_agree .negative hs₁ h₁).bind ?_
  rintro f₂ s₂ ⟨hs₂, h₂⟩
  refine (ends_agree .zero hs₂ h₂).bind ?_
  rintro f₃ s₃ ⟨hs₃, h₃⟩
  refine ⟨hs₃, fun width hu ↦ ?_⟩
  rcases h₃ width hu with rfl | ⟨rfl, hempty⟩
  · exact ⟨hu, Nat.le_refl _⟩
  · refine ⟨fun side ↦ ?_, Nat.zero_le _⟩
    have hsize : (s.side side).size = 0 := hempty side (by cases side <;> simp)
    have hnone : ∀ ray, ray ∉ (s.side side).rays := fun ray hray ↦ by
      rw [Array.eq_empty_of_size_eq_zero hsize] at hray
      exact Array.not_mem_empty ray hray
    exact ⟨fun ray hray ↦ absurd hray (hnone ray), fun ray hray ↦ absurd hray (hnone ray)⟩

end Stores

/-! ### Orders -/

private theorem confined_readPatterns {s : Store} :
    Store.Confined Store.readPatterns s 0 s.size fun zs _ ↦
      zs.length = s.size ∧ ∀ z ∈ zs, ∃ i, s.pattern? i = some z := by
  refine .get_bind ?_
  have hinside : ∀ i ∈ List.range s.size, i < s.size := fun i hi ↦ List.mem_range.mp hi
  have hlength : (List.range s.size).length = s.size := List.length_range
  generalize List.range s.size = is at hinside hlength
  -- A read keeps the rays, so each later read finds those that were there at first.
  suffices h : ∀ s' : Store, s'.rays = s.rays → Store.Confined
      (is.mapM fun i ↦ do return (← Store.read i).pattern) s' 0 s.size
        fun zs _ ↦ zs.length = is.length ∧ ∀ z ∈ zs, ∃ i, s.pattern? i = some z by
    simpa only [hlength] using h s rfl
  clear hlength
  induction is with
  | nil => exact fun _ _ ↦ .pure ⟨rfl, fun _ hz ↦ by cases hz⟩
  | cons i is ih =>
    intro s' hs'
    have hi : i < s'.size := by
      rw [Store.size, hs']
      exact hinside i (.head is)
    rw [List.mapM_cons, bind_assoc]
    refine (Store.confined_read hi).bind ?_
    rintro ray s₁ - ⟨hrays, hray⟩
    rw [pure_bind]
    refine (ih (fun j hj ↦ hinside j (.tail i hj)) s₁ (hrays.trans hs')).bind ?_
    rintro zs s₂ _ ⟨hlength, hzs⟩
    refine .pure ⟨congrArg Nat.succ hlength, fun z hz ↦ ?_⟩
    rcases List.mem_cons.mp hz with rfl | hz
    · exact ⟨i, by rw [Store.pattern?, ← hs', hray, Option.map_some]⟩
    · exact hzs z hz

/-- The distance sums of sampled bits stay in range. -/
def BitOrderRule.InRange (rule : BitOrderRule) (width : Nat) : Prop :=
  ∀ samplesPerBit seed, rule = .sampled samplesPerBit seed → samplesPerBit * width < wordLimit

/-- The order that a rule finds for so many rays fits into memory. -/
def BitOrderRule.InMemory (rule : BitOrderRule) (rays width : Nat) : Prop :=
  rule.placeSize rays * width ≤ bufferLimit

instance (rule : BitOrderRule) (rays width : Nat) : Decidable (rule.InMemory rays width) :=
  inferInstanceAs (Decidable (_ ≤ _))

namespace BitOrder

variable {width samplesPerBit : Nat} {patterns : List Pattern}

/-- A sampled order has a place for each bit of the width. -/
theorem length_of_sampled {seed : Nat} {found : BitOrder × List LogRecord}
    (h : sampled width patterns samplesPerBit seed = .ok found) : found.1.length = width := by
  rcases sampled_cases (P := fun _ ↦ True) (fun _ _ ↦ trivial) width samplesPerBit seed with
    ⟨-, hnatural⟩ | ⟨samples, hdrawn, hsampled⟩
  · cases h.symm.trans hnatural
    exact List.length_range
  · rw [h] at hsampled
    exact (length_of_ofSamples hsampled.symm).trans hdrawn.length_eq

/-- Where there is no sampled order, a sum has left the range. -/
theorem panicked_of_sampled {seed : Nat} {stop : Stop}
    (h : sampled width patterns samplesPerBit seed = .error stop) :
    ∃ message, stop = .panicked message := by
  rcases sampled_cases (P := fun _ ↦ True) (fun _ _ ↦ trivial) width samplesPerBit seed with
    ⟨-, hnatural⟩ | ⟨samples, -, hsampled⟩
  · cases h.symm.trans hnatural
  · rw [h] at hsampled
    exact panicked_of_ofSamples hsampled.symm

/-- Well-formed patterns of one width have a sampled order. -/
theorem exists_sampled (seed : Nat)
    (h : ∀ z ∈ patterns, z.WellFormed ∧ z.capacity = width)
    (hlimit : samplesPerBit * width < wordLimit) :
    ∃ found, sampled width patterns samplesPerBit seed = .ok found := by
  rcases sampled_cases h width samplesPerBit seed with ⟨-, hnatural⟩ | ⟨samples, hdrawn, hsampled⟩
  · exact ⟨_, hnatural⟩
  · obtain ⟨order, horder, -⟩ := exists_ofSamples hdrawn hlimit
    cases hfound : sampled width patterns samplesPerBit seed with
    | ok found => exact ⟨found, rfl⟩
    | error stop =>
      rw [hfound, horder] at hsampled
      cases hsampled

end BitOrder

namespace BitOrderRule

variable {s : Stores} {width : Nat}

private theorem ends_readPatterns (width : Nat) (sides : List Side) :
    Ends (Stores.readPatterns sides) s
      (fun zs s' ↦ s.Rearranged s' ∧ zs.length = (sides.map fun side ↦ (s.side side).size).sum ∧
        ∀ z ∈ zs, s.Uniform width → z.WellFormed ∧ z.capacity = width)
      fun stop _ ↦ s.Refused stop := by
  -- What is read first is left as it was, so what is read next is what was there at first.
  suffices h : ∀ s₁ : Stores, s.Rearranged s₁ →
      Ends (sides.mapM fun side ↦ Stores.on side Store.readPatterns) s₁
        (fun zss s' ↦ s.Rearranged s' ∧
          zss.flatten.length = (sides.map fun side ↦ (s.side side).size).sum ∧
          ∀ z ∈ zss.flatten, s.Uniform width → z.WellFormed ∧ z.capacity = width)
        fun stop _ ↦ s.Refused stop from (h s (.refl s)).bind fun _ _ h ↦ h
  induction sides with
  | nil => exact fun s₁ h₁ ↦ ⟨h₁, rfl, fun _ h ↦ by cases h⟩
  | cons side sides ih =>
    intro s₁ h₁
    rw [List.mapM_cons]
    refine ((Stores.ends_on_of_confined confined_readPatterns).mono (fun _ _ h ↦ h)
      fun _ _ hbad ↦ h₁.refused hbad).bind ?_
    rintro zs s₂ ⟨hs₂, hlength, hzs⟩
    refine (ih s₂ (h₁.trans hs₂)).bind ?_
    rintro zss s₃ ⟨hs₃, hlengths, hzss⟩
    refine ⟨hs₃, ?_, fun z hz hu ↦ ?_⟩
    · rw [List.flatten_cons, List.length_append, hlength, hlengths, (h₁ side).size_eq]
      rfl
    · rcases List.mem_append.mp hz with hz | hz
      · obtain ⟨i, hi⟩ := hzs z hz
        exact (h₁.uniform hu side).pattern hi
      · exact hzss z hz hu

/-- The place of a bit depends on the number of rays only where they are looked at. -/
theorem placeSize_of_not_looksAtRays {rule : BitOrderRule} (h : rule.looksAtRays = false)
    (rays rays' : Nat) : rule.placeSize rays = rule.placeSize rays' := by
  simp [placeSize, h]

/-- The patterns of rays have an order with a place for each bit of the width, unless it does not
fit into memory or a distance sum leaves the range. -/
theorem ends_ofPatterns (rule : BitOrderRule) (patterns : List Pattern) :
    Ends (liftExcept (rule.ofPatterns width patterns) : StoresM (BitOrder × List LogRecord)) s
      (fun found s' ↦ s' = s ∧ found.1.length = width)
      fun stop _ ↦ (∃ message, stop = .panicked message) ∧
        ((∀ z ∈ patterns, z.WellFormed ∧ z.capacity = width) →
          ¬(rule.InRange width ∧ rule.InMemory patterns.length width)) := by
  unfold ofPatterns Outcome.reserve
  split
  · match rule with
    | .natural => exact ⟨rfl, List.length_range⟩
    | .sampled samplesPerBit seed =>
      cases hfound : BitOrder.sampled width patterns samplesPerBit seed with
      | ok found =>
        simp only [Outcome.ok_bind, hfound]
        exact ⟨rfl, BitOrder.length_of_sampled hfound⟩
      | error stop =>
        simp only [Outcome.ok_bind, hfound]
        refine ⟨BitOrder.panicked_of_sampled hfound, fun hpatterns hfits ↦ ?_⟩
        obtain ⟨found, hok⟩ :=
          BitOrder.exists_sampled seed hpatterns (hfits.1 samplesPerBit seed rfl)
        rw [hfound] at hok
        cases hok
  · next hlarge => exact ⟨⟨_, rfl⟩, fun _ hfits ↦ hlarge hfits.2⟩

/-- A rule finds an order with a place for each bit of the width. It stops only where a store
refuses a read, where the order does not fit into memory or where a distance sum leaves the
range. -/
theorem ends_order (rule : BitOrderRule) (sides : List Side) :
    Ends (rule.order width (Stores.readPatterns sides)) s
      (fun found s' ↦ s.Rearranged s' ∧ found.1.length = width)
      fun stop _ ↦ s.Refused stop ∨
        (∃ message, stop = .panicked message) ∧ (s.Uniform width → ¬(rule.InRange width ∧
          rule.InMemory (sides.map fun side ↦ (s.side side).size).sum width)) := by
  rw [order]
  cases hlooks : rule.looksAtRays with
  | false =>
    refine (ends_ofPatterns rule []).mono ?_ ?_
    · rintro found s₁ ⟨hs₁, hlength⟩
      exact ⟨hs₁ ▸ .refl s, hlength⟩
    · rintro stop _ ⟨hpanicked, hbad⟩
      refine .inr ⟨hpanicked, fun _ hfits ↦ hbad (fun _ h ↦ by cases h) ⟨hfits.1, ?_⟩⟩
      rw [InMemory, placeSize_of_not_looksAtRays hlooks _ (List.map _ sides).sum]
      exact hfits.2
  | true =>
    refine ((ends_readPatterns width sides).mono (fun _ _ h ↦ h) fun _ _ hbad ↦ .inl hbad).bind ?_
    rintro patterns s₁ ⟨hs₁, hlength, hpatterns⟩
    refine (ends_ofPatterns rule patterns).mono ?_ ?_
    · rintro found _ ⟨rfl, hlength⟩
      exact ⟨hs₁, hlength⟩
    · rintro stop _ ⟨hpanicked, hbad⟩
      refine .inr ⟨hpanicked, fun hu ↦ ?_⟩
      rw [← hlength]
      exact hbad fun z hz ↦ hpatterns z hz hu

/-- Sums that stay in range do so for a smaller width. -/
theorem InRange.mono {rule : BitOrderRule} {width' : Nat} (h : rule.InRange width)
    (hwidth : width' ≤ width) : rule.InRange width' := fun samplesPerBit seed hrule ↦
  Nat.lt_of_le_of_lt (Nat.mul_le_mul_left _ hwidth) (h samplesPerBit seed hrule)

/-- An order that fits into memory does so for a smaller width. -/
theorem InMemory.mono {rule : BitOrderRule} {rays width' : Nat} (h : rule.InMemory rays width)
    (hwidth : width' ≤ width) : rule.InMemory rays width' :=
  Nat.le_trans (Nat.mul_le_mul_left _ hwidth) h

end BitOrderRule

/-! ### Roots -/

/-- What holds after a computation on the stores. -/
theorem BuildSite.ends_onStores {m : StoresM α} {site : BuildSite} {good : α → Stores → Prop}
    {bad : Stop → Stores → Prop} (h : Ends m site.stores good bad) :
    Ends (onStores m) site (fun a site' ↦ good a site'.stores) fun e site' ↦ bad e site'.stores := by
  simp only [onStores, ends_bind, ends_get]
  unfold Ends at h ⊢
  rcases hrun : m.run.run site.stores with ⟨a | a, stores⟩ <;> rw [hrun] at h <;> exact h

/-- A record changes nothing but the log. -/
theorem BuildSite.ends_note {record : LogRecord} {site : BuildSite}
    {good : Unit → BuildSite → Prop} {bad : Stop → BuildSite → Prop}
    (h : ∀ log, good () { site with log }) : Ends (note record) site good bad := h _

/-- Several records change nothing but the log. -/
theorem BuildSite.ends_notes {records : List LogRecord} {site : BuildSite}
    {good : Unit → BuildSite → Prop} {bad : Stop → BuildSite → Prop}
    (h : ∀ log, good () { site with log }) : Ends (records.forM note) site good bad := by
  induction records generalizing site with
  | nil => exact h site.log
  | cons record records ih => exact (ends_note fun log ↦ ih h : Ends (note record) site
      (fun _ site' ↦ Ends (records.forM note) site' good bad) bad).bind fun _ _ h ↦ h

namespace Root

variable {config : Config} {threshold : Threshold} {stores : Stores} {width : Nat}

/-- A root built over three stores, which the build has rearranged. -/
structure Built (config : Config) (threshold : Threshold) (stores stores' : Stores) (r : Root) :
    Prop where
  rearranged : stores.Rearranged stores'
  threshold_eq : r.threshold = threshold
  grown : ∀ side, TreeBuilder.Grown ⟨config.shape, config.maxLeaf, r.order.length⟩ 0
    (stores'.side side).size (r.tree side) (stores'.side side)

/-- The tree of a side is built over its store, which is rearranged; it is not built only where that
store refuses a call. -/
theorem ends_buildSide (config : Config) (order : BitOrder) (side : Side) (site : BuildSite) :
    Ends (buildSide config order side) site
      (fun tree site' ↦ ∃ t, site'.stores = site.stores.setSide side t ∧
        Store.Rearranged 0 (site.stores.side side).size (site.stores.side side) t ∧
        TreeBuilder.Grown ⟨config.shape, config.maxLeaf, order.length⟩ 0 t.size tree t)
      fun stop site' ↦ ∃ t, site'.stores = site.stores.setSide side t ∧
        Store.Rearranged 0 (site.stores.side side).size (site.stores.side side) t ∧
        (site.stores.side side).Refused stop := by
  have hbuild := TreeBuilder.confined_buildAll (s := site.stores.side side) config.shape
    config.maxLeaf order
  have hside : Ends (Stores.on side (TreeBuilder.buildAll config.shape config.maxLeaf order))
      site.stores (fun built stores ↦ ∃ t, stores = site.stores.setSide side t ∧
        Store.Rearranged 0 (site.stores.side side).size (site.stores.side side) t ∧
        TreeBuilder.Grown ⟨config.shape, config.maxLeaf, order.length⟩ 0 t.size built.1 t)
      fun stop stores ↦ ∃ t, stores = site.stores.setSide side t ∧
        Store.Rearranged 0 (site.stores.side side).size (site.stores.side side) t ∧
        (site.stores.side side).Refused stop := by
    refine Stores.ends_on.mpr (Ends.mono hbuild ?_ ?_)
    · rintro built t ⟨ht, hgrown⟩
      exact ⟨t, rfl, ht, ht.size_eq.symm ▸ hgrown⟩
    · rintro stop t ⟨ht, hrefused⟩
      exact ⟨t, rfl, ht, hrefused⟩
  exact (BuildSite.ends_onStores hside).bind fun _ _ h ↦ h

/-- Building the trees for an order keeps the promise of a build. It stops only where a store
refuses a call. -/
theorem ends_buildTrees_refused (order : BitOrder) (site : BuildSite) :
    Ends (buildTrees config threshold order) site
      (fun r site' ↦ Built config threshold site.stores site'.stores r ∧ r.order = order)
      fun stop _ ↦ site.stores.Refused stop := by
  have hside (side : Side) {site₁ : BuildSite} (h : site.stores.Rearranged site₁.stores) :=
    (ends_buildSide config order side site₁).mono (fun _ _ h ↦ h)
      fun _ _ ⟨_, _, _, hrefused⟩ ↦ h.refused ⟨side, hrefused⟩
  refine (hside .positive (.refl _)).bind ?_
  rintro positive site₁ ⟨t₁, h₁, ht₁, hpositive⟩
  have hstores₁ : site.stores.Rearranged site₁.stores := h₁ ▸ .setSide ht₁
  refine (hside .negative hstores₁).bind ?_
  rintro negative site₂ ⟨t₂, h₂, ht₂, hnegative⟩
  have hstores₂ : site.stores.Rearranged site₂.stores := hstores₁.trans (h₂ ▸ .setSide ht₂)
  refine (hside .zero hstores₂).bind ?_
  rintro zero site₃ ⟨t₃, h₃, ht₃, hzero⟩
  refine ⟨⟨hstores₂.trans (h₃ ▸ .setSide ht₃), rfl, ?_⟩, rfl⟩
  rw [h₃, h₂, h₁]
  rintro (_ | _ | _)
  · exact hpositive
  · exact hzero
  · exact hnegative

/-- Building the trees for an order over ready stores keeps the promise of a build. -/
theorem ends_buildTrees (order : BitOrder) (site : BuildSite) :
    Ends (buildTrees config threshold order) site
      (fun r site' ↦ Built config threshold site.stores site'.stores r ∧ r.order = order)
      fun _ _ ↦ ¬site.stores.Ready width :=
  (ends_buildTrees_refused order site).mono (fun _ _ h ↦ h) fun _ _ hbad ↦ hbad.not_ready

/-- What a build asks of its configuration and its stores. -/
structure Buildable (config : Config) (width : Nat) (stores : Stores) : Prop where
  valid : config.validate = .ok ()
  ready : stores.Ready width
  inRange : config.order.InRange width
  /-- The order of the bits fits into memory; it is found from the rays of two sides. -/
  inMemory : config.order.InMemory (stores.positive.size + stores.negative.size) width

/-- A build that ends keeps its promise; a build of what is buildable ends. -/
theorem ends_build (site : BuildSite) :
    Ends (build config threshold) site
      (fun r site' ↦ Built config threshold site.stores site'.stores r)
      fun _ _ ↦ ¬Buildable config width site.stores := by
  cases hvalid : config.validate with
  | error stop =>
    rw [build, hvalid]
    intro hbuildable
    rw [hbuildable.valid] at hvalid
    cases hvalid
  | ok =>
    rw [build, hvalid]
    rw [ends_bind, ends_liftExcept_ok, ends_bind]
    refine (BuildSite.ends_onStores (Stores.ends_patternWidth site.stores)).mono ?_
      fun _ _ hbad hbuildable ↦ hbad hbuildable.ready
    rintro found site₁ ⟨hstores₁, hwidth⟩
    rw [ends_bind]
    refine (BuildSite.ends_onStores (config.order.ends_order _)).mono ?_
      fun _ _ hbad hbuildable ↦ ?_
    · rintro ⟨order, records⟩ site₂ ⟨hstores₂, -⟩
      have hnotes : Ends (records.forM BuildSite.note) site₂
          (fun _ site' ↦ site.stores.Rearranged site'.stores)
          fun _ _ ↦ ¬Buildable config width site.stores :=
        BuildSite.ends_notes fun _ ↦ hstores₁.trans hstores₂
      refine hnotes.bind fun _ site₃ h₃ ↦ ?_
      refine ((ends_buildTrees order site₃).mono (fun _ _ h ↦ h) fun _ _ hbad hbuildable ↦
        hbad (h₃.ready hbuildable.ready)).bind ?_
      rintro r site₄ ⟨hbuilt, -⟩
      exact ⟨h₃.trans hbuilt.rearranged, hbuilt.threshold_eq, hbuilt.grown⟩
    · obtain ⟨hu, hle⟩ := hwidth width hbuildable.ready.uniform
      rcases hbad with hrefused | ⟨-, hrange⟩
      · exact (hstores₁.refused hrefused).not_ready hbuildable.ready
      · refine hrange (hstores₁.uniform hu) ⟨hbuildable.inRange.mono hle, ?_⟩
        have hsize : ([Side.positive, .negative].map fun side ↦ (site₁.stores.side side).size).sum =
            site.stores.positive.size + site.stores.negative.size := by
          rw [List.map_cons, List.map_singleton, (hstores₁ .positive).size_eq,
            (hstores₁ .negative).size_eq]
          rfl
        rw [hsize]
        exact hbuildable.inMemory.mono hle

/-- A root that has been built is what a build promises. -/
theorem built_of_build {r : Root} {built : BuildSite}
    (h : (build config threshold).run.run { stores } = (.ok r, built)) :
    r.Built config threshold stores built.stores :=
  (@ends_build config threshold 0 { stores }).of_ok h

/-- A build of what is buildable ends. -/
theorem exists_build (h : Buildable config width stores) :
    ∃ r built, (build config threshold).run.run { stores } = (.ok r, built) := by
  have hends := @ends_build config threshold width { stores }
  obtain ⟨r, built, hbuild, -⟩ := (hends.mono (fun _ _ h ↦ h) fun _ _ hbad ↦ hbad h).exists_ok
  exact ⟨r, built, hbuild⟩

/-- Whether the crossing rays, built on in the order of their positions, pass a check. -/
def crossingPasses (check : Root → Stores → Bool) : Bool :=
  match (build { order := .natural } ⟨1⟩).run.run { stores := Stores.crossing } with
  | (.ok r, built) => check r built.stores
  | (.error _, _) => false

/-- The crossing rays can be built on in the order of their positions, and what is checked then holds
of the root and of the stores that are left behind. -/
theorem exists_build_crossing {check : Root → Stores → Bool} (h : crossingPasses check = true) :
    ∃ r built,
      (build { order := .natural } ⟨1⟩).run.run { stores := Stores.crossing } = (.ok r, built) ∧
        check r built.stores = true := by
  unfold crossingPasses at h
  split at h
  · next r built hbuild => exact ⟨r, built, hbuild, h⟩
  · cases h

end Root
end RayAdjacency
