import Mathlib.Algebra.BigOperators.Ring.List
import Mathlib.Algebra.Order.BigOperators.Group.List
import RayAdjacency.Proofs.Leaf.Compare

/-!
# Visits

`Root.visits` lists the node pairs that a search from a pair asks to enter, in the order of one
thread: a pair, then, if it is admitted and not empty, the pairs below each of its children. The
list does not depend on a strategy. Among the pairs visited are those that go to the leaf test;
together they hold every accepted pair of rays, and no two of them share one.
-/

namespace RayAdjacency

namespace NodePair

/-- The number of nodes of both trees of a pair. -/
def size (p : NodePair) : Nat := p.positive.nodeCount + p.negative.nodeCount

private theorem nodeCount_le_of_mem_parts {n c : Node} (h : c ∈ n.parts) :
    c.nodeCount ≤ n.nodeCount := by
  rw [Node.parts] at h
  split at h
  · exact Nat.le_of_lt (Node.nodeCount_lt_of_mem_children h)
  · rw [List.mem_singleton.mp h]

private theorem nodeCount_lt_of_mem_parts {n c : Node} (hn : n.isInternal = true)
    (h : c ∈ n.parts) : c.nodeCount < n.nodeCount := by
  rw [Node.parts, if_pos hn] at h
  exact Node.nodeCount_lt_of_mem_children h

/-- The pairs below are the pairs of the parts, unless both nodes are terminal. -/
theorem mem_children {p c : NodePair} : c ∈ p.children ↔
    p.isInternal = true ∧ c.positive ∈ p.positive.parts ∧ c.negative ∈ p.negative.parts := by
  rw [children]
  split
  · next h =>
    rw [List.mem_flatMap]
    constructor
    · rintro ⟨a, ha, hc⟩
      obtain ⟨b, hb, rfl⟩ := List.mem_map.mp hc
      exact ⟨h, ha, hb⟩
    · rintro ⟨-, ha, hb⟩
      exact ⟨c.positive, ha, List.mem_map.mpr ⟨c.negative, hb, rfl⟩⟩
  · next h => simp [h]

/-- A pair below has fewer nodes. -/
theorem size_lt_of_mem_children {p c : NodePair} (h : c ∈ p.children) : c.size < p.size := by
  obtain ⟨hinternal, hp, hn⟩ := mem_children.mp h
  have hple := nodeCount_le_of_mem_parts hp
  have hnle := nodeCount_le_of_mem_parts hn
  rw [isInternal, Bool.or_eq_true] at hinternal
  rw [size, size]
  rcases hinternal with hinternal | hinternal
  · have := nodeCount_lt_of_mem_parts hinternal hp
    omega
  · have := nodeCount_lt_of_mem_parts hinternal hn
    omega

/-- The number of pairs of a node of either tree. -/
def weight (p : NodePair) : Nat := p.positive.nodeCount * p.negative.nodeCount

/-- Every pair weighs something. -/
theorem weight_pos (p : NodePair) : 0 < p.weight :=
  Nat.mul_pos p.positive.nodeCount_pos p.negative.nodeCount_pos

/-- A product over the pairs below is summed up side by side. -/
theorem sum_children {p : NodePair} (h : p.isInternal = true) (f g : Node → Nat) :
    (p.children.map fun c ↦ f c.positive * g c.negative).sum =
      (p.positive.parts.map f).sum * (p.negative.parts.map g).sum := by
  rw [children, if_pos h]
  induction p.positive.parts with
  | nil => simp
  | cons a as ih =>
    have hrow := p.negative.parts.sum_map_mul_left g (f a)
    rw [List.flatMap_cons, List.map_append, List.sum_append, ih, List.map_cons, List.sum_cons,
      Nat.add_mul, List.map_map, ← hrow]
    rfl

private theorem sum_nodeCount_parts (n : Node) : (n.parts.map Node.nodeCount).sum =
    if n.isInternal then n.nodeCount - 1 else n.nodeCount := by
  have hcounts (ns : List Node) : (ns.map Node.nodeCount).sum = Node.nodeCounts ns := by
    induction ns with
    | nil => rfl
    | cons n ns ih => rw [List.map_cons, List.sum_cons, ih, Node.nodeCounts]
  rw [hcounts, Node.parts]
  split
  · rw [n.nodeCount_eq, Nat.add_sub_cancel_left]
  · rfl

/-- The pairs below have fewer pairs of nodes together. -/
theorem sum_weight_children_lt (p : NodePair) : (p.children.map weight).sum < p.weight := by
  by_cases hinternal : p.isInternal = true
  · have hsum := sum_children hinternal Node.nodeCount Node.nodeCount
    rw [sum_nodeCount_parts, sum_nodeCount_parts] at hsum
    change (p.children.map fun c ↦ c.positive.nodeCount * c.negative.nodeCount).sum < _
    rw [hsum, weight]
    obtain ⟨i, hi⟩ := Nat.exists_eq_add_of_lt p.positive.nodeCount_pos
    obtain ⟨j, hj⟩ := Nat.exists_eq_add_of_lt p.negative.nodeCount_pos
    -- An internal node loses itself, so the product of the parts is smaller.
    rw [isInternal, Bool.or_eq_true] at hinternal
    rw [hi, hj, Nat.zero_add, Nat.zero_add, Nat.add_sub_cancel, Nat.add_sub_cancel]
    split <;> split
    · exact Nat.mul_lt_mul_of_lt_of_le (Nat.lt_succ_self i) (Nat.le_succ j) (Nat.succ_pos j)
    · exact Nat.mul_lt_mul_of_pos_right (Nat.lt_succ_self i) (Nat.succ_pos j)
    · exact Nat.mul_lt_mul_of_pos_left (Nat.lt_succ_self j) (Nat.succ_pos i)
    · next hp hn => exact absurd hinternal (not_or.mpr ⟨hp, hn⟩)
  · rw [children, if_neg hinternal]
    exact p.weight_pos

end NodePair

namespace Root

/-- The node pairs that a search from a pair asks to enter, in the order of one thread. -/
def visits (r : Root) (p : NodePair) : List NodePair :=
  p :: if r.admits p && !p.isEmpty then p.children.attach.flatMap fun c ↦ r.visits c.1 else []
termination_by p.size
decreasing_by exact NodePair.size_lt_of_mem_children c.2

variable {r : Root} {p : NodePair}

/-- A pair is visited before the pairs below it. -/
theorem visits_eq (r : Root) (p : NodePair) :
    r.visits p = p :: if r.admits p && !p.isEmpty then p.children.flatMap r.visits else [] := by
  rw [visits, List.flatMap_subtype (g := r.visits) (by simp), List.unattach_attach]

/-- The pairs below an admitted pair that is not empty are visited. -/
theorem visits_of_admits (h : r.admits p = true) (hp : p.isEmpty = false) :
    r.visits p = p :: p.children.flatMap r.visits := by
  simp [visits_eq r p, h, hp]

/-- Every pair is visited. -/
theorem length_visits_pos (r : Root) (p : NodePair) : 0 < (r.visits p).length := by
  rw [visits_eq]
  exact Nat.succ_pos _

/-- A statement that holds of a pair if it holds of the pairs below it holds of every pair. -/
theorem pairs_induction {motive : NodePair → Prop}
    (step : ∀ p, (∀ c ∈ p.children, motive c) → motive p) (p : NodePair) : motive p := by
  suffices h : ∀ k p, p.size = k → motive p from h _ p rfl
  intro k
  induction k using Nat.strongRecOn with
  | ind k ih =>
    intro p hp
    exact step p fun c hc ↦ ih c.size (hp ▸ NodePair.size_lt_of_mem_children hc) c rfl

/-- Whether a visited pair goes to the leaf test. -/
def compares (r : Root) (p : NodePair) : Bool := r.admits p && !p.isEmpty && !p.isInternal

/-- The visited pairs that go to the leaf test. -/
def comparisons (r : Root) (p : NodePair) : List NodePair := (r.visits p).filter r.compares

/-- Compared are those of the visited pairs that pass the gate and are terminal. -/
theorem mem_comparisons {q : NodePair} :
    q ∈ r.comparisons p ↔ q ∈ r.visits p ∧ r.compares q = true := List.mem_filter

/-- A pair is compared itself, or the pairs below it are. -/
theorem comparisons_eq (r : Root) (p : NodePair) : r.comparisons p =
    (if r.compares p then [p] else []) ++
      if r.admits p && !p.isEmpty then p.children.flatMap r.comparisons else [] := by
  rw [comparisons, visits_eq, List.filter_cons]
  split <;> split <;> simp [List.filter_flatMap] <;> rfl

/-- Below a pair that is not admitted nothing is compared. -/
theorem comparisons_of_not_admits (h : r.admits p = false) : r.comparisons p = [] := by
  simp [comparisons_eq, compares, h]

/-- In a pair with an empty side nothing is compared. -/
theorem comparisons_of_isEmpty (hp : p.isEmpty = true) : r.comparisons p = [] := by
  simp [comparisons_eq, compares, hp]

/-- Below an inner pair is compared what is compared below its children. -/
theorem comparisons_of_isInternal (h : r.admits p = true) (hp : p.isEmpty = false)
    (hinternal : p.isInternal = true) : r.comparisons p = p.children.flatMap r.comparisons := by
  simp [comparisons_eq r p, compares, h, hp, hinternal]

/-- A terminal pair that is admitted is compared itself. -/
theorem comparisons_of_terminal (h : r.admits p = true) (hp : p.isEmpty = false)
    (hterminal : p.isInternal = false) : r.comparisons p = [p] := by
  simp [comparisons_eq r p, compares, NodePair.children, h, hp, hterminal]

private theorem length_flatMap_visits_le_of {ps : List NodePair}
    (h : ∀ p ∈ ps, (r.visits p).length ≤ p.weight) :
    (ps.flatMap r.visits).length ≤ (ps.map NodePair.weight).sum := by
  rw [List.length_flatMap]
  exact List.sum_le_sum h

/-- A search visits no more pairs than there are. -/
theorem length_visits_le (r : Root) (p : NodePair) :
    (r.visits p).length ≤ p.positive.nodeCount * p.negative.nodeCount := by
  change _ ≤ p.weight
  induction p using pairs_induction with
  | step p ih =>
    rw [visits_eq, List.length_cons]
    split
    · exact Nat.lt_of_le_of_lt (length_flatMap_visits_le_of ih) p.sum_weight_children_lt
    · exact p.weight_pos

/-- Searches from several pairs visit no more pairs than there are. -/
theorem length_flatMap_visits_le (r : Root) (ps : List NodePair) :
    (ps.flatMap r.visits).length ≤ (ps.map NodePair.weight).sum :=
  length_flatMap_visits_le_of fun p _ ↦ r.length_visits_le p

end Root

/-! ### Coverage -/

/-- A pair of nodes over the rays of a site, each ray once. -/
structure NodePair.Fits (site : SearchSite) (p : NodePair) : Prop where
  positive : p.positive.Everywhere (Node.Covers site.stores.positive)
  negative : p.negative.Everywhere (Node.Covers site.stores.negative)
  nodup_positive : p.positive.indices.Nodup
  nodup_negative : p.negative.indices.Nodup

/-- Whether a pair of nodes fits does not depend on the test. -/
theorem NodePair.fits_lenient_iff {site : SearchSite} {p : NodePair} :
    p.Fits site.lenient ↔ p.Fits site :=
  ⟨fun h ↦ ⟨h.positive, h.negative, h.nodup_positive, h.nodup_negative⟩,
    fun h ↦ ⟨h.positive, h.negative, h.nodup_positive, h.nodup_negative⟩⟩

namespace SearchSite

variable {site : SearchSite} {width : Nat} {p : NodePair}

private theorem nodup_indices_of_part {n c : Node} (h : n.indices.Nodup) (hc : c ∈ n.parts) :
    c.indices.Nodup := by
  rw [Node.indices_eq_parts, List.nodup_flatMap] at h
  exact h.1 c hc

/-- The pairs below fit as well. -/
theorem fits_of_mem_children {c : NodePair} (h : p.Fits site) (hc : c ∈ p.children) : c.Fits site := by
  obtain ⟨-, hp, hn⟩ := NodePair.mem_children.mp hc
  exact ⟨h.positive.part hp, h.negative.part hn, nodup_indices_of_part h.nodup_positive hp,
    nodup_indices_of_part h.nodup_negative hn⟩

/-- The bound of a pair is no smaller than what two rays below it share. -/
theorem card_shared_le_bound (h : p.Fits site) {i j : Nat} {zp zn : Pattern}
    (hi : i ∈ p.positive.indices) (hj : j ∈ p.negative.indices)
    (hzp : site.stores.positive.pattern? i = some zp)
    (hzn : site.stores.negative.pattern? j = some zn) :
    (zp.positions ∩ zn.positions).card ≤ p.bound := by
  obtain ⟨z, hz, -, hpsub⟩ := h.positive.root.subset_union i hi
  obtain ⟨z', hz', -, hnsub⟩ := h.negative.root.subset_union j hj
  obtain rfl : z = zp := Option.some.inj (hz.symm.trans hzp)
  obtain rfl : z' = zn := Option.some.inj (hz'.symm.trans hzn)
  rw [NodePair.bound, Pattern.interCount_eq_card]
  exact Finset.card_le_card (Finset.inter_subset_inter hpsub hnsub)

/-- An accepted pair of rays shares as many zeros as the threshold asks for. -/
theorem Accepts.meets {x : IndexPair} (h : site.Accepts x) :
    site.stores.Meets site.root.threshold x := by
  rw [Accepts] at h
  split at h
  · obtain ⟨zp, zn, hzp, hzn, hmet, -⟩ := h
    exact ⟨zp, zn, hzp, hzn, hmet⟩
  · obtain ⟨p, n, hp, hn, hmet, -⟩ := h
    exact ⟨p.pattern, n.pattern, by rw [Store.pattern?, hp, Option.map_some],
      by rw [Store.pattern?, hn, Option.map_some], hmet⟩

/-- No accepted pair of rays lies below a pair of nodes that is not admitted. -/
theorem admits_of_accepts (h : p.Fits site) {x : IndexPair} (hx : site.Accepts x)
    (hp : x.positive ∈ p.positive.indices) (hn : x.negative ∈ p.negative.indices) :
    site.root.admits p = true := by
  obtain ⟨zp, zn, hzp, hzn, hmet⟩ := hx.meets
  rw [Root.admits, Threshold.isMetBy, decide_eq_true_eq]
  exact Nat.le_trans hmet (card_shared_le_bound h hp hn hzp hzn)

private theorem pairwise_disjoint_parts {n : Node} (h : n.indices.Nodup) :
    n.parts.Pairwise fun a b ↦ a.indices.Disjoint b.indices := by
  rw [Node.indices_eq_parts, List.nodup_flatMap] at h
  exact h.2

private theorem pairwise_disjoint_children (h : p.Fits site) :
    p.children.Pairwise fun c d ↦
      c.positive.indices.Disjoint d.positive.indices ∨
        c.negative.indices.Disjoint d.negative.indices := by
  rw [NodePair.children]
  split
  · rw [List.pairwise_flatMap]
    refine ⟨fun a _ ↦ ?_, ?_⟩
    · rw [List.pairwise_map]
      exact (pairwise_disjoint_parts h.nodup_negative).imp fun hb ↦ .inr hb
    · refine (pairwise_disjoint_parts h.nodup_positive).imp fun ha c hc d hd ↦ ?_
      obtain ⟨b, -, rfl⟩ := List.mem_map.mp hc
      obtain ⟨b', -, rfl⟩ := List.mem_map.mp hd
      exact .inl ha
  · exact .nil

private theorem settled_children {f : NodePair → List IndexPair} (h : p.Fits site)
    (hinternal : p.isInternal = true) (hf : ∀ c ∈ p.children, Batch.Settled site c (f c)) :
    Batch.Settled site p (p.children.flatMap f) where
  nodup := by
    rw [List.nodup_flatMap]
    refine ⟨fun c hc ↦ (hf c hc).nodup, ?_⟩
    refine (pairwise_disjoint_children h).imp_of_mem fun {c d} hc hd hdisjoint x hx hy ↦ ?_
    obtain ⟨hxp, hxn, -⟩ := ((hf c hc).mem_iff x).mp hx
    obtain ⟨hyp, hyn, -⟩ := ((hf d hd).mem_iff x).mp hy
    exact hdisjoint.elim (fun hp ↦ hp hxp hyp) fun hn ↦ hn hxn hyn
  mem_iff x := by
    rw [List.mem_flatMap, Node.indices_eq_parts, Node.indices_eq_parts p.negative,
      List.mem_flatMap, List.mem_flatMap]
    constructor
    · rintro ⟨c, hc, hx⟩
      obtain ⟨hp, hn, hx⟩ := ((hf c hc).mem_iff x).mp hx
      obtain ⟨-, ha, hb⟩ := NodePair.mem_children.mp hc
      exact ⟨⟨c.positive, ha, hp⟩, ⟨c.negative, hb, hn⟩, hx⟩
    · rintro ⟨⟨a, ha, hp⟩, ⟨b, hb, hn⟩, hx⟩
      have hc : (⟨a, b⟩ : NodePair) ∈ p.children := NodePair.mem_children.mpr ⟨hinternal, ha, hb⟩
      exact ⟨⟨a, b⟩, hc, ((hf _ hc).mem_iff x).mpr ⟨hp, hn, hx⟩⟩

private theorem settled_nil (h : ∀ x : IndexPair, x.positive ∈ p.positive.indices →
    x.negative ∈ p.negative.indices → ¬site.Accepts x) : Batch.Settled site p [] :=
  ⟨.nil, fun x ↦ ⟨fun hx ↦ absurd hx List.not_mem_nil, fun ⟨hp, hn, hx⟩ ↦ absurd hx (h x hp hn)⟩⟩

/-- A pair without rays on one side has no pairs of rays below it. -/
theorem settled_of_isEmpty (hempty : p.isEmpty = true) : Batch.Settled site p [] := by
  have hindices {n : Node} (h : n.isEmpty = true) : n.indices = [] := by
    cases n <;> first | rfl | cases h
  rw [NodePair.isEmpty, Bool.or_eq_true] at hempty
  refine settled_nil fun x hp hn _ ↦ ?_
  rcases hempty with hempty | hempty
  · rw [hindices hempty] at hp
    cases hp
  · rw [hindices hempty] at hn
    cases hn

/-- The visited pairs that go to the leaf test hold every accepted pair of rays below a pair, each
once. -/
theorem settled_visits {f : NodePair → List IndexPair}
    (hf : ∀ q, q.Fits site → q.isInternal = false → Batch.Settled site q (f q))
    (h : p.Fits site) :
    Batch.Settled site p
      ((site.root.visits p).flatMap fun q ↦ if site.root.compares q then f q else []) := by
  induction p using Root.pairs_induction with
  | step p ih =>
    rw [Root.visits_eq, List.flatMap_cons, Root.compares]
    by_cases hadmits : site.root.admits p = true
    · by_cases hempty : p.isEmpty = true
      · simp only [hadmits, hempty, Bool.not_true, Bool.and_false, Bool.false_and,
          Bool.false_eq_true, if_false, List.flatMap_nil, List.append_nil]
        exact settled_of_isEmpty hempty
      · rw [Bool.not_eq_true] at hempty
        by_cases hinternal : p.isInternal = true
        · simp only [hadmits, hempty, hinternal, Bool.not_true, Bool.not_false, Bool.and_true,
            Bool.and_false, Bool.false_eq_true, if_false, if_true, List.nil_append,
            List.flatMap_assoc]
          exact settled_children h hinternal fun c hc ↦ ih c hc (fits_of_mem_children h hc)
        · rw [Bool.not_eq_true] at hinternal
          have hchildren : p.children = [] := by
            rw [NodePair.children, hinternal]
            rfl
          simp only [hadmits, hempty, hinternal, hchildren, Bool.not_false, Bool.and_true, if_true,
            List.flatMap_nil, List.append_nil]
          exact hf p h hinternal
    · rw [Bool.not_eq_true] at hadmits
      simp only [hadmits, Bool.false_and, Bool.false_eq_true, if_false, List.flatMap_nil,
        List.append_nil]
      refine settled_nil fun x hp hn hx ↦ ?_
      have := admits_of_accepts h hx hp hn
      rw [hadmits] at this
      cases this

end SearchSite
end RayAdjacency
