import RayAdjacency.Proofs.Root.Preparation

/-!
# What is checked of the widths

A store is asked for its width once, and it answers with the width of its first ray. So a build
compares the first rays of the three stores. Where a store holds rays of one width, that compares
all rays. A later ray of another width goes unnoticed, and the trees are built over it.
-/

namespace RayAdjacency

namespace Store

variable {s s' : Store}

/-- The width that a store shows: that of its first ray. -/
def shownWidth? (s : Store) : Option Nat := (s.pattern? 0).map Pattern.capacity

/-- A store whose rays all have the width that it shows. -/
def OneWidth (s : Store) : Prop := ∀ ray ∈ s.rays, s.shownWidth? = some ray.pattern.capacity

/-- The width that a store shows is part of its content. -/
theorem shownWidth_congr (h : s'.content = s.content) : s'.shownWidth? = s.shownWidth? := by
  have hrays : s'.rays = s.rays := congrArg Prod.fst h
  rw [shownWidth?, shownWidth?, pattern?, pattern?, hrays]

/-- Whether a store answers is part of its content. -/
theorem answers_congr (h : s'.content = s.content) (hs : s.Answers) : s'.Answers := by
  have hrefusals : s'.refusals = s.refusals := congrArg Prod.snd h
  exact ⟨fun k i ray ↦ hrefusals ▸ hs.read k i ray, fun k ↦ hrefusals ▸ hs.swap k⟩

/-- A store that refuses nothing gives the width that it shows. -/
theorem ends_patternWidth (hs : s.Answers) :
    Ends patternWidth s (fun found _ ↦ found = s.shownWidth?) fun _ _ ↦ False := by
  rw [patternWidth, ends_bind, ends_get]
  split
  · next hnone =>
    have hempty : s.rays[0]? = none := Array.getElem?_eq_none (Nat.le_of_eq hnone)
    rw [ends_pure, shownWidth?, pattern?, hempty]
    rfl
  · next hsome =>
    have hread := @confined_read s 0 s.size 0 (Nat.pos_of_ne_zero hsome)
    refine Ends.bind (Ends.mono hread (fun _ _ h ↦ h) fun _ _ hbad ↦ hbad.2.1 hs) ?_
    rintro ray s₁ ⟨-, -, hray⟩
    rw [ends_pure, shownWidth?, pattern?, hray]
    rfl

end Store

namespace Stores

variable {s s₀ : Stores}

/-- Stores that refuse no call. -/
def Answer (s : Stores) : Prop := ∀ side, (s.side side).Answers

/-- Stores of the same content answer as well. -/
theorem Answer.congr (hs : s₀.Answer) (h : s.content = s₀.content) : s.Answer := fun side ↦
  Store.answers_congr (congrFun h side) (hs side)

/-- Stores that refuse no call cause no stop. -/
theorem Answer.not_refused (hs : s.Answer) {stop : Stop} : ¬s.Refused stop := by
  rintro ⟨side, hside⟩
  exact hside.1 (hs side)

/-- Two widths that are shown and differ. -/
structure Differ (s : Stores) (expected got : Nat) : Prop where
  ne : expected ≠ got
  expected_shown : ∃ side, (s.side side).shownWidth? = some expected
  got_shown : ∃ side, (s.side side).shownWidth? = some got

/-- The width found so far, which the sides asked show if they show one, and one of them does. -/
private structure Found (s : Stores) (sides : List Side) (found : Option Nat) : Prop where
  shown : ∀ w, found = some w → ∃ side, (s.side side).shownWidth? = some w
  agree : ∀ side ∈ sides, ∀ w, (s.side side).shownWidth? = some w → found = some w

/-- A stop over two widths that differ. -/
def Disagrees (s : Stores) (stop : Stop) : Prop :=
  ∃ expected got, stop = .failed (.widthMismatch expected got) ∧ s.Differ expected got

/-- A stop that is not over widths, unless they are shown and differ. -/
def Tells (s : Stores) (stop : Stop) : Prop :=
  ∀ expected got, stop = .failed (.widthMismatch expected got) → s.Differ expected got

/-- A stop over two widths that differ is over these. -/
theorem Disagrees.tells {stop : Stop} (h : s.Disagrees stop) : s.Tells stop := by
  obtain ⟨expected, got, rfl, hdiffer⟩ := h
  rintro _ _ ⟨⟩
  exact hdiffer

/-- A stop for a broken contract is not over widths. -/
theorem tells_panicked (message : String) : s.Tells (.panicked message) := fun _ _ h ↦ by cases h

private theorem ends_agree_shown (hs₀ : s₀.Answer) (h : s.content = s₀.content) {sides : List Side}
    {found : Option Nat} (hfound : Found s₀ sides found) (side : Side) :
    Ends (agree found side) s
      (fun found' s' ↦ s'.content = s₀.content ∧ Found s₀ (side :: sides) found')
      fun stop _ ↦ Disagrees s₀ stop := by
  have hside : (s.side side).content = (s₀.side side).content := congrFun h side
  have hwidth := Store.ends_patternWidth (Store.answers_congr hside (hs₀ side))
  rw [Store.shownWidth_congr hside] at hwidth
  have hasked : Ends (on side Store.patternWidth) s
      (fun got s' ↦ s'.content = s₀.content ∧ got = (s₀.side side).shownWidth?)
      fun _ _ ↦ False := by
    have hon : Ends (on side Store.patternWidth) s
        (fun got _ ↦ got = (s₀.side side).shownWidth?) fun _ _ ↦ False := ends_on.mpr hwidth
    exact ((leaves_on Store.leaves_patternWidth side s).and hon).mono
      (fun _ _ hgood ↦ ⟨hgood.1.trans h, hgood.2⟩) fun _ _ hbad ↦ hbad.2
  refine (hasked.mono (fun _ _ hgood ↦ hgood) fun _ _ ↦ False.elim).bind ?_
  rintro got s₁ ⟨hs₁, hgot⟩
  -- Only where a width has been found and another one is shown is there anything to compare.
  match found, got with
  | some expected, some got =>
    change Ends (if expected = got then _ else _) _ _ _
    split
    · next heq =>
      refine ⟨hs₁, hfound.shown, List.forall_mem_cons.mpr ⟨fun w hw ↦ ?_, hfound.agree⟩⟩
      rw [heq, hgot, hw]
    · next hne => exact ⟨expected, got, rfl, hne, hfound.shown expected rfl, side, hgot.symm⟩
  | none, some got =>
    refine ⟨hs₁, fun w hw ↦ ⟨side, hgot.symm.trans hw⟩, List.forall_mem_cons.mpr ⟨fun w hw ↦ ?_,
      fun side' hside' w hw ↦ ?_⟩⟩
    · rw [hgot, hw]
    · cases hfound.agree side' hside' w hw
  | found, none =>
    have hunchanged : Found s₀ (side :: sides) found := by
      refine ⟨hfound.shown, List.forall_mem_cons.mpr ⟨fun w hw ↦ ?_, hfound.agree⟩⟩
      rw [← hgot] at hw
      cases hw
    cases found <;> exact ⟨hs₁, hunchanged⟩

/-- Stores that refuse nothing have a common width if and only if no two widths that they show
differ. It is then the width that each of them shows. -/
theorem ends_patternWidth_of_answer (hs : s.Answer) :
    Ends patternWidth s (fun width _ ↦ ∀ side w, (s.side side).shownWidth? = some w → w = width)
      fun stop _ ↦ s.Disagrees stop := by
  have h₀ : Found s [] none := ⟨fun _ hw ↦ (by cases hw), fun _ hside ↦ (by cases hside)⟩
  rw [patternWidth]
  simp only [List.foldlM_cons, List.foldlM_nil, bind_assoc, pure_bind]
  refine (ends_agree_shown hs rfl h₀ .positive).bind ?_
  rintro f₁ s₁ ⟨hs₁, h₁⟩
  refine (ends_agree_shown hs hs₁ h₁ .negative).bind ?_
  rintro f₂ s₂ ⟨hs₂, h₂⟩
  refine (ends_agree_shown hs hs₂ h₂ .zero).bind ?_
  rintro f₃ s₃ ⟨-, h₃⟩
  rw [ends_pure]
  intro side w hw
  rw [h₃.agree side (by cases side <;> simp) w hw, Option.getD_some]

end Stores

namespace Root

variable {config : Config} {threshold : Threshold} {site : BuildSite}

/-- A build that stops over two widths that differ, with all three stores as they were. -/
def ReportsWidths (config : Config) (threshold : Threshold) (site : BuildSite) : Prop :=
  ∃ expected got site',
    (build config threshold).run.run site =
        (.error (.failed (.widthMismatch expected got)), site') ∧
      site.stores.Differ expected got ∧ ∀ side, site'.rays side = site.rays side

/-- What a build makes sure of about the widths of the rays. -/
structure ChecksWidths (config : Config) (threshold : Threshold) (site : BuildSite) : Prop where
  /-- The first ray of each store has the width of the order. -/
  shown_eq : ∀ {r site'}, (build config threshold).run.run site = (.ok r, site') → ∀ side w,
    (site.stores.side side).shownWidth? = some w → w = r.order.length
  /-- So has every ray of a store of one width. -/
  capacity_eq : ∀ {r site'}, (build config threshold).run.run site = (.ok r, site') → ∀ side,
    (site.stores.side side).OneWidth → ∀ ray ∈ site.rays side, ray.pattern.capacity = r.order.length
  /-- Two first rays of different widths are reported. -/
  reports_shown : config.validate = .ok () → ∀ side side' w w',
    (site.stores.side side).shownWidth? = some w →
    (site.stores.side side').shownWidth? = some w' → w ≠ w' → ReportsWidths config threshold site
  /-- So are any two rays of different widths, of stores of one width. -/
  reports_capacity : config.validate = .ok () → ∀ side side',
    (site.stores.side side).OneWidth → (site.stores.side side').OneWidth →
    ∀ ray ∈ site.rays side, ∀ ray' ∈ site.rays side',
      ray.pattern.capacity ≠ ray'.pattern.capacity → ReportsWidths config threshold site
  /-- No other difference is reported. -/
  differ : ∀ {expected got site'}, (build config threshold).run.run site =
    (.error (.failed (.widthMismatch expected got)), site') → site.stores.Differ expected got

private theorem tells_of_validate {stores : Stores} {stop : Stop}
    (h : config.validate = .error stop) : stores.Tells stop := by
  rw [Config.validate] at h
  split at h
  · cases h
    exact fun _ _ hwidths ↦ by cases hwidths
  · cases h

private theorem ends_prepare (hs : site.stores.Answer) :
    Ends (prepare config) site (fun found _ ↦ ∀ side w,
      (site.stores.side side).shownWidth? = some w → w = found.2.length)
      fun stop _ ↦ site.stores.Tells stop := by
  have hvalid : Ends (liftExcept config.validate : BuildM Unit) site
      (fun _ site' ↦ site' = site) fun stop _ ↦ site.stores.Tells stop := by
    cases hvalidate : config.validate with
    | error stop => exact tells_of_validate hvalidate
    | ok => rfl
  refine hvalid.bind ?_
  rintro - _ rfl
  have hwidth := (BuildSite.leaves_onStores Stores.leaves_patternWidth _).and
    (BuildSite.ends_onStores (Stores.ends_patternWidth_of_answer hs))
  refine (hwidth.mono (fun _ _ h ↦ h) fun _ _ hbad ↦ hbad.2.tells).bind ?_
  rintro width site₁ ⟨hcontent, hwidth⟩
  have horder := BuildSite.ends_onStores
    (@BitOrderRule.ends_order site₁.stores width config.order [.positive, .negative])
  refine (horder.mono (fun _ _ h ↦ h) ?_).bind ?_
  · rintro stop - (hrefused | ⟨⟨message, rfl⟩, -⟩)
    · exact absurd hrefused (hs.congr hcontent).not_refused
    · exact Stores.tells_panicked message
  · rintro ⟨order, records⟩ site₂ ⟨-, hlength⟩
    exact (BuildSite.ends_notes fun _ ↦ trivial : Ends (records.forM BuildSite.note) site₂
      (fun _ _ ↦ True) _).bind fun _ _ _ side w hw ↦ (hwidth side w hw).trans hlength.symm

private theorem ends_build_shown (hs : site.stores.Answer) :
    Ends (build config threshold) site (fun r _ ↦ ∀ side w,
      (site.stores.side side).shownWidth? = some w → w = r.order.length)
      fun stop _ ↦ site.stores.Tells stop := by
  rw [build_eq_prepare]
  refine (((leaves_prepare config site).and (ends_prepare hs)).mono (fun _ _ h ↦ h)
    fun _ _ hbad ↦ hbad.2).bind ?_
  rintro ⟨width, order⟩ site₁ ⟨hcontent, hlength⟩
  have htrees := @ends_buildTrees_refused config threshold order site₁
  refine (htrees.mono (fun _ _ h ↦ h) fun _ _ hbad ↦ ?_).bind ?_
  · exact absurd hbad (hs.congr hcontent).not_refused
  · rintro r site₂ ⟨-, rfl⟩
    exact hlength

private theorem reportsWidths_of_ne (hs : site.stores.Answer) (hvalid : config.validate = .ok ())
    {side side' : Side} {w w' : Nat} (hw : (site.stores.side side).shownWidth? = some w)
    (hw' : (site.stores.side side').shownWidth? = some w') (hne : w ≠ w') :
    ReportsWidths config threshold site := by
  have hwidths := BuildSite.ends_onStores (Stores.ends_patternWidth_of_answer hs)
  have hleft := BuildSite.leaves_onStores Stores.leaves_patternWidth site
  rcases hrun : (BuildSite.onStores Stores.patternWidth).run.run site with ⟨stop | width, site'⟩
  · obtain ⟨expected, got, rfl, hdiffer⟩ := hwidths.of_error hrun
    have hrays := BuildSite.rays_eq_of_content (hleft.of_error hrun)
    refine ⟨expected, got, site', ?_, hdiffer, congrFun hrays⟩
    rw [build, hvalid, run_bind]
    change ((BuildSite.onStores Stores.patternWidth >>= _).run.run site) = _
    rw [run_bind, hrun]
  · have hshown := hwidths.of_ok hrun
    exact absurd ((hshown side w hw).trans (hshown side' w' hw').symm) hne

/-- A build over stores that refuse nothing compares the first rays of the stores, and so all rays
of stores of one width: it reports widths if and only if two of those compared differ. -/
theorem checksWidths_of_answer (hs : site.stores.Answer) : ChecksWidths config threshold site where
  shown_eq hrun := (ends_build_shown hs).of_ok hrun
  capacity_eq hrun side hone ray hray :=
    (ends_build_shown hs).of_ok hrun side _ (hone ray hray)
  reports_shown hvalid _ _ _ _ hw hw' hne := reportsWidths_of_ne hs hvalid hw hw' hne
  reports_capacity hvalid _ _ hone hone' ray hray ray' hray' hne :=
    reportsWidths_of_ne hs hvalid (hone ray hray) (hone' ray' hray') hne
  differ hrun := (ends_build_shown hs).of_error hrun _ _ rfl

/-- Positive rays of three positions, negative rays of four. -/
def uneven : Stores where
  positive := Store.ofRays [.ofPattern 0 (.ofWords [5#64] 3)]
  negative := Store.ofRays [.ofPattern 1 (.ofWords [5#64] 4)]
  zero := Store.ofRays []

/-- Stores of different widths are told apart. -/
theorem checksWidths_of_answer_uneven : uneven.Answer ∧
    ChecksWidths { order := .natural } ⟨1⟩ { stores := uneven } := by
  have hs : uneven.Answer := by
    rintro (_ | _ | _) <;> exact ⟨fun _ _ _ ↦ rfl, fun _ ↦ rfl⟩
  exact ⟨hs, @checksWidths_of_answer { order := .natural } ⟨1⟩ { stores := uneven } hs⟩

/-- A positive ray of three positions before one of four. -/
def mixed : Stores where
  positive := Store.ofRays [.ofPattern 0 (.ofWords [5#64] 3), .ofPattern 1 (.ofWords [13#64] 4)]
  negative := Store.ofRays [.ofPattern 2 (.ofWords [3#64] 3)]
  zero := Store.ofRays []

/-- A later ray of another width goes unnoticed, and the order has no place for its last bit. -/
theorem builds_mixed : ∃ r built,
    (build { order := .natural } ⟨1⟩).run.run { stores := mixed } = (.ok r, built) ∧
      r.order.length = 3 ∧ ∃ ray ∈ mixed.positive.rays, ray.pattern.capacity = 4 := by
  have hlength : ((build { order := .natural } ⟨1⟩).run.run { stores := mixed }).1.toOption.map
      (·.order.length) = some 3 := by decide +kernel
  rcases hrun : (build { order := .natural } ⟨1⟩).run.run { stores := mixed } with
    ⟨stop | r, built⟩
  · rw [hrun] at hlength
    cases hlength
  · rw [hrun] at hlength
    exact ⟨r, built, rfl, Option.some.inj hlength, .ofPattern 1 (.ofWords [13#64] 4),
      by simp [mixed, Store.ofRays], rfl⟩

end Root
end RayAdjacency
