import RayAdjacency.Proofs.Pattern.Algebra
import RayAdjacency.Proofs.Tree.Subtrees
import RayAdjacency.Store

/-!
# Unions of pattern trees

What ties a tree to the store it was built over. `Node.Unites` says that the union of a node has
exactly the bits of the patterns of the rays below it, whatever these are. Where the cardinalities
of patterns are exact it gives `Node.Covers`, which is what a search relies on: every ray below a
node is in the store, and its pattern is included in the union of the node.

What else is known of the unions is inherited from the patterns that they are made of. Both that
patterns are sized and that they are well formed and of one width is `Pattern.Inherited`.
-/

namespace RayAdjacency

/-- A property that a new pattern of a width has, and that unions have if their operands do. -/
structure Pattern.Inherited (width : Nat) (P : Pattern → Prop) : Prop where
  zeros : P (.zeros width)
  union : ∀ {p q : Pattern}, P p → P q → P (p.union q)
  absorb : ∀ {p q : Pattern}, P p → P q → P (p.absorb q)

/-- Unions of sized patterns are sized, whatever their widths are. -/
theorem Pattern.inherited_sized (width : Nat) : Inherited width Sized :=
  ⟨(wellFormed_zeros width).sized, Sized.union, Sized.absorb⟩

/-- Unions of well-formed patterns of one width are well formed and have that width. -/
theorem Pattern.inherited_uniform (width : Nat) :
    Inherited width fun p ↦ p.WellFormed ∧ p.capacity = width where
  zeros := ⟨wellFormed_zeros width, rfl⟩
  union {p q} hp hq := by
    refine ⟨hp.1.union hq.1, ?_⟩
    change max p.capacity q.capacity = width
    rw [hp.2, hq.2, Nat.max_self]
  absorb {p q} hp hq := by
    have hcapacity : p.capacity = q.capacity := hp.2.trans hq.2.symm
    exact ⟨hp.1.absorb hq.1 hcapacity, (capacity_absorb hcapacity).trans hp.2⟩

/-- The pattern of the ray at an index, if there is one. -/
def Store.pattern? (s : Store) (i : Nat) : Option Pattern := s.rays[i]?.map Ray.pattern

/-- Patterns whose words and cardinality agree, as they do in all patterns that can be made. -/
def Store.Sized (s : Store) : Prop := ∀ ray ∈ s.rays, ray.pattern.Sized

/-- Patterns that are well formed and share a width. -/
structure Store.Uniform (width : Nat) (s : Store) : Prop where
  wellFormed : ∀ ray ∈ s.rays, ray.pattern.WellFormed
  capacity_eq : ∀ ray ∈ s.rays, ray.pattern.capacity = width

/-- Every index inside a store has a pattern. -/
theorem Store.exists_pattern {s : Store} {i : Nat} (h : i < s.size) : ∃ z, s.pattern? i = some z :=
  ⟨s.rays[i].pattern, by rw [pattern?, Array.getElem?_eq_getElem h, Option.map_some]⟩

/-- An index with a pattern lies inside the store. -/
theorem Store.lt_size_of_pattern {s : Store} {i : Nat} {z : Pattern} (h : s.pattern? i = some z) :
    i < s.size := by
  obtain ⟨ray, hray, -⟩ := Option.map_eq_some_iff.mp h
  exact (Array.getElem?_eq_some_iff.mp hray).1

/-- What holds of the patterns of all rays holds of the pattern at an index. -/
theorem Store.forall_pattern {s : Store} {P : Pattern → Prop} (h : ∀ ray ∈ s.rays, P ray.pattern)
    {i : Nat} {z : Pattern} (hz : s.pattern? i = some z) : P z := by
  obtain ⟨ray, hray, rfl⟩ := Option.map_eq_some_iff.mp hz
  exact h ray (Array.mem_of_getElem? hray)

/-- The patterns of a uniform store are well formed. -/
theorem Store.Uniform.pattern {s : Store} {width i : Nat} {z : Pattern} (h : s.Uniform width)
    (hz : s.pattern? i = some z) : z.WellFormed ∧ z.capacity = width :=
  @forall_pattern s (fun p ↦ p.WellFormed ∧ p.capacity = width)
    (fun ray hray ↦ ⟨h.wellFormed ray hray, h.capacity_eq ray hray⟩) i z hz

/-- The patterns of a uniform store are sized. -/
theorem Store.Uniform.sized {s : Store} {width : Nat} (h : s.Uniform width) : s.Sized :=
  fun ray hray ↦ (h.wellFormed ray hray).sized

/-- Rays of one word each are uniform if no word has a position at or above the width. -/
theorem Store.uniform_ofRays (rays : List (Nat × Word)) {width : Nat} (hpos : 0 < width)
    (hle : width ≤ 64) (h : ∀ r ∈ rays, ∀ i, i < 64 → r.2.getLsbD i = true → i < width) :
    (ofRays (rays.map fun r ↦ .ofPattern r.1 (.ofWords [r.2] width))).Uniform width := by
  constructor
  · intro ray hray
    obtain ⟨r, hr, rfl⟩ := List.mem_map.mp (List.mem_toArray.mp hray)
    exact Pattern.wellFormed_ofWord hpos hle (h r hr)
  · intro ray hray
    obtain ⟨r, hr, rfl⟩ := List.mem_map.mp (List.mem_toArray.mp hray)
    rfl

namespace Node

/-- The union of a node has the bits of the patterns below it, and a single ray is its own. -/
structure Unites (s : Store) (n : Node) : Prop where
  lt_size : ∀ i ∈ n.indices, i < s.size
  bit_union : ∀ k, n.union.bit k = true ↔
    ∃ i ∈ n.indices, ∃ z, s.pattern? i = some z ∧ z.bit k = true
  single : ∀ u i, n = .single u i → s.pattern? i = some u

/-- The union of a node is sized and includes the patterns below it, which are sized as well, and a
single ray is its own. -/
structure Covers (s : Store) (n : Node) : Prop where
  sized : n.union.Sized
  subset_union : ∀ i ∈ n.indices, ∃ z, s.pattern? i = some z ∧ z.Sized ∧
    z.positions ⊆ n.union.positions
  single : ∀ u i, n = .single u i → s.pattern? i = some u

/-- The union of a node is well formed and of the given width. -/
structure HasWidth (width : Nat) (n : Node) : Prop where
  wellFormed : n.union.WellFormed
  capacity_eq : n.union.capacity = width

/-- A node with a ray, and more than one child if it has children. -/
structure Solid (n : Node) : Prop where
  not_empty : n.isEmpty = false
  two_children : n.isInternal = true → 2 ≤ n.children.length

variable {s s' : Store} {n : Node}

/-- The indices of a child are indices of its parent. -/
theorem mem_indices_of_child {c : Node} (hc : c ∈ n.children) {i : Nat} (hi : i ∈ c.indices) :
    i ∈ n.indices := by
  have hinternal : n.isInternal = true := by
    by_contra h
    rw [children_eq_nil (Bool.not_eq_true _ ▸ h)] at hc
    cases hc
  rw [indices_of_isInternal hinternal]
  exact List.mem_flatMap.mpr ⟨c, hc, hi⟩

/-- The unions of a tree depend on the rays below it alone. -/
theorem Everywhere.unites_congr (h : Everywhere (Unites s) n)
    (hs : ∀ i ∈ n.indices, s'.rays[i]? = s.rays[i]?) : Everywhere (Unites s') n := by
  induction h with
  | @intro n root _ ih =>
    have hpattern : ∀ i ∈ n.indices, s'.pattern? i = s.pattern? i := fun i hi ↦ by
      rw [Store.pattern?, Store.pattern?, hs i hi]
    refine .intro ⟨fun i hi ↦ ?_, fun k ↦ ?_, fun u i hn ↦ ?_⟩ fun c hc ↦
      ih c hc fun i hi ↦ hs i (mem_indices_of_child hc hi)
    · obtain ⟨z, hz⟩ := Store.exists_pattern (root.lt_size i hi)
      exact Store.lt_size_of_pattern ((hpattern i hi).trans hz)
    · rw [root.bit_union]
      exact exists_congr fun i ↦ and_congr_right fun hi ↦ by rw [hpattern i hi]
    · rw [hpattern i (by simp [hn, indices]), root.single u i hn]

/-- Exact unions of sized patterns cover them. -/
theorem Unites.covers (h : n.Unites s) (hs : s.Sized) (hn : n.union.Sized) : n.Covers s where
  sized := hn
  subset_union i hi := by
    obtain ⟨z, hz⟩ := Store.exists_pattern (h.lt_size i hi)
    refine ⟨z, hz, Store.forall_pattern hs hz, fun k hk ↦ ?_⟩
    rw [Pattern.mem_positions] at hk ⊢
    exact (h.bit_union k).mpr ⟨i, hi, z, hz, hk⟩
  single := h.single

end Node
end RayAdjacency
