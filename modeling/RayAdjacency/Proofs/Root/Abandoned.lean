import RayAdjacency.Proofs.Root.Preparation

/-!
# What an abandoned build leaves

A store may refuse a call at any point of a build. No ray is ever lost or duplicated by that. A
build that gives up before its first tree has moved no ray. One that gives up in the tree of a side
has rearranged the rays of that side and of those before it, and has not touched the others.
-/

namespace RayAdjacency

namespace BuildSite

variable {site site' site'' : BuildSite}

/-- A build that has rearranged the rays of some sides only. -/
structure Touched (sides : List Side) (site site' : BuildSite) : Prop where
  perm : ∀ side, (site'.rays side).toList.Perm (site.rays side).toList
  rays_eq : ∀ side, side ∉ sides → site'.rays side = site.rays side

/-- A build that has left the rays as they are has touched no side. -/
theorem Touched.of_rays_eq (h : site'.rays = site.rays) : Touched [] site site' :=
  ⟨fun _ ↦ h ▸ .refl _, fun side _ ↦ congrFun h side⟩

/-- What two parts of a build have touched. -/
theorem Touched.append {sides sides' : List Side} (h : Touched sides site site')
    (h' : Touched sides' site' site'') : Touched (sides ++ sides') site site'' where
  perm side := (h'.perm side).trans (h.perm side)
  rays_eq side hside := by
    rw [List.mem_append, not_or] at hside
    rw [h'.rays_eq side hside.2, h.rays_eq side hside.1]

private theorem touched_setSide {side : Side} {t : Store}
    (h : site'.stores = site.stores.setSide side t)
    (ht : Store.Rearranged 0 (site.stores.side side).size (site.stores.side side) t) :
    Touched [side] site site' where
  perm side' := by
    change (site'.stores.side side').rays.toList.Perm _
    rw [h]
    exact (Stores.Rearranged.setSide ht side').perm
  rays_eq side' hside := by
    rw [List.mem_singleton] at hside
    change (site'.stores.side side').rays = _
    rw [h, Stores.side_setSide_of_ne hside]
    rfl

end BuildSite

namespace Root

open BuildSite

variable {config : Config} {threshold : Threshold} {site site' : BuildSite} {stop : Stop}

/-- The tree of a side touches that side alone, whether or not it is finished. -/
theorem touches_buildSide (order : BitOrder) (side : Side) (site : BuildSite) :
    Ends (buildSide config order side) site (fun _ site' ↦ Touched [side] site site')
      fun _ site' ↦ Touched [side] site site' := by
  refine (ends_buildSide config order side site).mono ?_ ?_
  · rintro tree site' ⟨t, h, ht, -⟩
    exact touched_setSide h ht
  · rintro stop site' ⟨t, h, ht, -⟩
    exact touched_setSide h ht

/-- The trees of several sides touch these alone. -/
theorem touches_mapM_buildSide (order : BitOrder) (sides : List Side) (site : BuildSite) :
    Ends (sides.mapM (buildSide config order)) site (fun _ site' ↦ Touched sides site site')
      fun _ _ ↦ True := by
  induction sides generalizing site with
  | nil => exact .of_rays_eq rfl
  | cons side sides ih =>
    rw [List.mapM_cons]
    refine ((touches_buildSide order side site).mono (fun _ _ h ↦ h) fun _ _ _ ↦ trivial).bind ?_
    intro tree site₁ h₁
    refine (ih site₁).bind ?_
    exact fun trees site₂ h₂ ↦ h₁.append h₂

/-- The trees are built side by side. -/
theorem buildTrees_eq_mapM (config : Config) (threshold : Threshold) (order : BitOrder) :
    buildTrees config threshold order = do
      let trees ← [Side.positive, .negative, .zero].mapM (buildSide config order)
      return ⟨trees.getD 0 default, trees.getD 1 default, trees.getD 2 default, order,
        threshold⟩ := by
  simp [buildTrees, List.mapM_cons]

/-- What a build leaves that has stopped. -/
inductive Abandoned (config : Config) (site : BuildSite) (stop : Stop) (site' : BuildSite) : Prop
  /-- It has stopped over its configuration, the widths, or a read for the width or the order. -/
  | unprepared (fails : (prepare config).run.run site = (.error stop, site'))
      (rays_eq : ∀ side, site'.rays side = site.rays side)
  /-- It has stopped in the tree of `side`, after the trees of `done` and before those of `rest`. -/
  | ungrown {width : Nat} {order : BitOrder} {done rest : List Side} {side : Side}
      {trees : List Node} {ready begun : BuildSite}
      (prepared : (prepare config).run.run site = (.ok (width, order), ready))
      (sides : done ++ side :: rest = [.positive, .negative, .zero])
      (grown : (done.mapM (buildSide config order)).run.run ready = (.ok trees, begun))
      (fails : (buildSide config order side).run.run begun = (.error stop, site'))
      (perm : ∀ side, (site'.rays side).toList.Perm (site.rays side).toList)
      (rays_eq : ∀ side ∈ rest, site'.rays side = site.rays side)

private theorem not_mem_of_sides {done rest : List Side} {side : Side}
    (h : done ++ side :: rest = [.positive, .negative, .zero]) {side' : Side}
    (hrest : side' ∈ rest) : side' ∉ done ++ [side] := by
  have hnodup : (done ++ [side] ++ rest).Nodup := by
    rw [List.append_assoc, List.singleton_append, h]
    decide
  exact fun hdone ↦ (List.nodup_append.mp hnodup).2.2 side' hdone side' hrest rfl

/-- A build that has stopped has kept every ray, and has left the stores alone whose trees it had
not begun: all three while it was preparing. -/
theorem abandoned_of_build (h : (build config threshold).run.run site = (.error stop, site')) :
    Abandoned config site stop site' := by
  rw [build_eq_prepare] at h
  -- A build stops while it prepares or in one of the trees; the report at its end cannot fail.
  rcases run_bind_error h with hprepare | ⟨⟨width, order⟩, ready, hprepare, h⟩
  · have hrays := rays_eq_of_content ((leaves_prepare config site).of_error hprepare)
    exact .unprepared hprepare fun side ↦ congrFun hrays side
  · have hready : Touched [] site ready :=
      .of_rays_eq (rays_eq_of_content ((leaves_prepare config site).of_ok hprepare))
    rcases run_bind_error h with h | ⟨root, s₁, -, h⟩
    · rw [buildTrees_eq_mapM] at h
      rcases run_bind_error h with h | ⟨trees, s₁, -, h⟩
      · obtain ⟨done, side, rest, trees, begun, hsides, hdone, hside⟩ := run_mapM_error h
        have hgrown := (touches_mapM_buildSide order done ready).of_ok hdone
        have hlast := (touches_buildSide order side begun).of_error hside
        have hall := (hready.append hgrown).append hlast
        exact .ungrown hprepare hsides.symm hdone hside hall.perm fun side' hrest ↦
          hall.rays_eq side' (not_mem_of_sides hsides.symm hrest)
      · cases h
    · cases h

/-- The crossing rays, with a store of negative rays that exchanges none of them. -/
def stubborn : Stores where
  positive := Stores.crossing.positive
  negative := { Stores.crossing.negative with
    refusals := { swap := fun _ ↦ some (.store "columns are locked") } }
  zero := Stores.crossing.zero

/-- The tree of the negative rays is begun and not finished. -/
theorem abandoned_of_build_stubborn : ∃ site',
    (build { order := .natural } ⟨1⟩).run.run { stores := stubborn } =
      (.error (.failed (.store "columns are locked")), site') ∧
    Abandoned { order := .natural } { stores := stubborn }
      (.failed (.store "columns are locked")) site' := by
  obtain ⟨site', hrun⟩ : ∃ site', (build { order := .natural } ⟨1⟩).run.run { stores := stubborn } =
      (.error (.failed (.store "columns are locked")), site') :=
    exists_run_error (by decide +kernel)
  exact ⟨site', hrun, abandoned_of_build hrun⟩

end Root
end RayAdjacency
