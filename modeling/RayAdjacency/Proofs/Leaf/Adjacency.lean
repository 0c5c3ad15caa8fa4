import RayAdjacency.LeafTest
import RayAdjacency.Proofs.Tree.Unions

/-!
# Adjacent rays

What a search is to find, said of the stores alone. A positive and a negative ray that share enough
zeros are adjacent if one of them has exactly one zero more than they share, or if no third ray has
all the shared zeros and more. Where a delegate decides, it decides every pair that shares enough
zeros.
-/

namespace RayAdjacency

/-- Whether a ray of one side is one of the two rays of a pair. -/
def IndexPair.Owns (x : IndexPair) : Side → Nat → Prop
  | .positive, i => x.positive = i
  | .negative, i => x.negative = i
  | .zero, _ => False

namespace Stores

/-- Whether a ray other than the two rays of a pair has the given positions and more. -/
def Exceeded (s : Stores) (x : IndexPair) (shared : Finset Nat) : Prop :=
  ∃ side i z, (s.side side).pattern? i = some z ∧ ¬x.Owns side i ∧ shared ⊂ z.positions

/-- Whether two rays share as many zeros as the threshold asks for. -/
def Meets (s : Stores) (threshold : Threshold) (x : IndexPair) : Prop :=
  ∃ zp zn, s.positive.pattern? x.positive = some zp ∧ s.negative.pattern? x.negative = some zn ∧
    threshold.required ≤ (zp.positions ∩ zn.positions).card

/-- Whether two rays are adjacent: they share as many zeros as the threshold asks for, and one of
them has exactly one zero more, or no third ray has all the zeros that they share and more. -/
def Adjacent (s : Stores) (threshold : Threshold) (x : IndexPair) : Prop :=
  ∃ zp zn, s.positive.pattern? x.positive = some zp ∧ s.negative.pattern? x.negative = some zn ∧
    threshold.required ≤ (zp.positions ∩ zn.positions).card ∧
    (zp.positions.card = (zp.positions ∩ zn.positions).card + 1 ∨
      zn.positions.card = (zp.positions ∩ zn.positions).card + 1 ∨
      ¬s.Exceeded x (zp.positions ∩ zn.positions))

/-- Whether two rays share as many zeros as the threshold asks for, and the delegate accepts them. -/
def Judged (s : Stores) (threshold : Threshold) (judge : Ray → Ray → Pattern → Outcome Bool)
    (x : IndexPair) : Prop :=
  ∃ p n, s.positive.rays[x.positive]? = some p ∧ s.negative.rays[x.negative]? = some n ∧
    threshold.required ≤ (p.pattern.positions ∩ n.pattern.positions).card ∧
    judge p n (p.pattern.inter n.pattern) = .ok true

end Stores

/-- Whether a test puts questions to a delegate. -/
def AdjacencyTest.asks : AdjacencyTest → Bool
  | combinatorial => false
  | rank _ => true

namespace SearchSite

/-- Whether the adjacency test of a site accepts a pair of rays. -/
def Accepts (site : SearchSite) (x : IndexPair) : Prop :=
  match site.test with
  | .combinatorial => site.stores.Adjacent site.root.threshold x
  | .rank judge => site.stores.Judged site.root.threshold judge x

/-- The trees of a site hold all rays of its stores, under unions that include them. -/
structure Sound (site : SearchSite) : Prop where
  covers : ∀ side, (site.root.tree side).Everywhere (Node.Covers (site.stores.side side))
  indices_eq : ∀ side, (site.root.tree side).indices
    = Node.indicesFrom 0 (site.stores.side side).size

/-- The question that a delegate is asked about two rays. -/
def question? (site : SearchSite) (x : IndexPair) : Option Question := do
  let p ← site.stores.positive.rays[x.positive]?
  let n ← site.stores.negative.rays[x.negative]?
  return ⟨p, n, p.pattern.inter n.pattern⟩

/-- The same rays, where a delegate accepts all pairs that meet the threshold. -/
def lenient (site : SearchSite) : SearchSite := { site with test := .rank fun _ _ _ ↦ .ok true }

variable {site : SearchSite}

/-- A site with a lenient delegate is as sound as it was. -/
theorem Sound.lenient (h : site.Sound) : site.lenient.Sound := ⟨h.covers, h.indices_eq⟩

/-- A lenient delegate leaves the decision to the threshold. -/
theorem accepts_lenient_iff {x : IndexPair} :
    site.lenient.Accepts x ↔ site.stores.Meets site.root.threshold x := by
  change site.stores.Judged site.root.threshold (fun _ _ _ ↦ .ok true) x ↔ _
  constructor
  · rintro ⟨p, n, hp, hn, hmet, -⟩
    exact ⟨p.pattern, n.pattern, by rw [Store.pattern?, hp, Option.map_some],
      by rw [Store.pattern?, hn, Option.map_some], hmet⟩
  · rintro ⟨zp, zn, hzp, hzn, hmet⟩
    obtain ⟨p, hp, rfl⟩ := Option.map_eq_some_iff.mp hzp
    obtain ⟨n, hn, rfl⟩ := Option.map_eq_some_iff.mp hzn
    exact ⟨p, n, hp, hn, hmet, rfl⟩

end SearchSite
end RayAdjacency
