import RayAdjacency.Proofs.Root.Build

/-!
# What precedes the first tree

A build checks its configuration, finds the common width and computes the order of the bits before
it grows a tree. `Root.prepare` is that part. It only looks at the stores: whatever they refuse and
however it ends, each of them has the content that it had, its rays in their order.
-/

namespace RayAdjacency

/-! ### Calls that only look -/

namespace Store

/-- What a store holds, apart from the calls made so far. -/
def content (s : Store) : Array Ray × Refusals := (s.rays, s.refusals)

/-- A read leaves the content as it is, answered or not. -/
theorem leaves_read (i : Nat) : Leaves content (read i) := fun s ↦ by
  simp only [read, ends_bind, ends_get, ends_set]
  cases s.answer s.reads i <;> rfl

/-- Looking for the width leaves the content as it is. -/
theorem leaves_patternWidth : Leaves content patternWidth := by
  refine .get_bind fun s ↦ ?_
  split
  · exact .pure none
  · exact (leaves_read 0).bind fun _ ↦ .pure _

/-- Reading all patterns leaves the content as it is. -/
theorem leaves_readPatterns : Leaves content readPatterns :=
  .get_bind fun _ ↦ .mapM (fun i ↦ (leaves_read i).bind fun _ ↦ .pure _) _

end Store

namespace Stores

variable {α : Type}

/-- What each side holds. -/
def content (s : Stores) (side : Side) : Array Ray × Refusals := (s.side side).content

/-- What leaves the content of a store leaves that of all three. -/
theorem leaves_on {m : StoreM α} (hm : Leaves Store.content m) (side : Side) :
    Leaves content (on side m) := fun s ↦ by
  have hset {t : Store} (ht : t.content = (s.side side).content) :
      (s.setSide side t).content = s.content := by
    funext side'
    by_cases hside : side' = side
    · rw [content, content, hside, side_setSide_self, ht]
    · rw [content, content, side_setSide_of_ne hside]
  exact ends_on.mpr ((hm (s.side side)).mono (fun _ _ ↦ hset) fun _ _ ↦ hset)

/-- Comparing a side with the width found so far leaves the content as it is. -/
theorem leaves_agree (found : Option Nat) (side : Side) : Leaves content (agree found side) := by
  refine (leaves_on Store.leaves_patternWidth side).bind fun got ↦ ?_
  match found, got with
  | some expected, some got =>
    change Leaves content (if expected = got then _ else _)
    split
    · exact .pure _
    · exact .throw _
  | none, some _ | some _, none | none, none => exact .pure _

/-- Looking for the common width leaves the content as it is. -/
theorem leaves_patternWidth : Leaves content patternWidth :=
  (Leaves.foldlM leaves_agree _ none).bind fun _ ↦ .pure _

end Stores

/-- Finding an order leaves the content as it is. -/
theorem BitOrderRule.leaves_order (rule : BitOrderRule) (width : Nat) (sides : List Side) :
    Leaves Stores.content (rule.order width (Stores.readPatterns sides)) := by
  have hread : Leaves Stores.content (Stores.readPatterns sides) :=
    (Leaves.mapM (Stores.leaves_on Store.leaves_readPatterns) _).bind fun _ ↦ .pure _
  rw [order]
  cases rule.looksAtRays with
  | false => exact .liftExcept _
  | true => exact hread.bind fun _ ↦ .liftExcept _

namespace BuildSite

variable {α : Type} {site site' : BuildSite}

/-- What each side holds. -/
def content (site : BuildSite) : Side → Array Ray × Refusals := site.stores.content

/-- The rays of each side, in their order. -/
def rays (site : BuildSite) (side : Side) : Array Ray := (site.content side).1

/-- The rays are part of the content. -/
theorem rays_eq_of_content (h : site'.content = site.content) : site'.rays = site.rays :=
  funext fun side ↦ congrArg Prod.fst (congrFun h side)

/-- What leaves the content of the stores leaves that of a build. -/
theorem leaves_onStores {m : StoresM α} (hm : Leaves Stores.content m) :
    Leaves content (onStores m) :=
  fun site ↦ ends_onStores (hm site.stores)

/-- A record leaves the content as it is. -/
theorem leaves_note (record : LogRecord) : Leaves content (note record) := fun _ ↦ rfl

end BuildSite

namespace Root

/-- The part of a build that precedes the first tree: the common width and the order. -/
def prepare (config : Config) : BuildM (Nat × BitOrder) := do
  liftExcept config.validate
  let width ← BuildSite.onStores Stores.patternWidth
  let (order, records) ← BuildSite.onStores
    (config.order.order width (Stores.readPatterns [.positive, .negative]))
  records.forM BuildSite.note
  return (width, order)

/-- A build prepares, grows the trees and reports. -/
theorem build_eq_prepare (config : Config) (threshold : Threshold) :
    build config threshold = do
      let (width, order) ← prepare config
      let root ← buildTrees config threshold order
      BuildSite.note (root.builtRecord width)
      return root := by
  simp only [build, prepare, bind_assoc, pure_bind]

/-- However the preparation of a build ends, the stores hold what they have held. -/
theorem leaves_prepare (config : Config) : Leaves BuildSite.content (prepare config) := by
  refine (Leaves.liftExcept _).bind fun _ ↦ ?_
  refine (BuildSite.leaves_onStores Stores.leaves_patternWidth).bind fun width ↦ ?_
  refine (BuildSite.leaves_onStores (config.order.leaves_order width _)).bind fun _ ↦ ?_
  exact (Leaves.forM BuildSite.leaves_note _).bind fun _ ↦ .pure _

end Root
end RayAdjacency
