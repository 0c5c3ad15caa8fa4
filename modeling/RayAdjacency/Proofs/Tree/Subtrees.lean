import RayAdjacency.NodePair

/-!
# Subtrees

Binary and wide nodes differ in how they are built, not in how they are searched: both are nodes
with children. `Node.children_induction` proves a statement about all nodes from their children,
and `Node.Everywhere` says that a property holds at every node of a tree.
-/

namespace RayAdjacency.Node

/-- A tree has at least its root. -/
theorem nodeCount_pos (n : Node) : 0 < n.nodeCount := by
  cases n <;> simp only [nodeCount] <;> omega

/-- A node counts itself and the nodes below its children. -/
theorem nodeCount_eq (n : Node) : n.nodeCount = 1 + nodeCounts n.children := by
  cases n <;> simp only [nodeCount, children, nodeCounts]
  omega

private theorem nodeCount_le_of_mem {c : Node} {ns : List Node} (h : c ∈ ns) :
    c.nodeCount ≤ nodeCounts ns := by
  induction ns with
  | nil => cases h
  | cons n ns ih =>
    rw [nodeCounts]
    rcases List.mem_cons.mp h with rfl | h
    · omega
    · have := ih h
      omega

/-- A child has fewer nodes than its parent. -/
theorem nodeCount_lt_of_mem_children {n c : Node} (h : c ∈ n.children) :
    c.nodeCount < n.nodeCount := by
  have := nodeCount_le_of_mem h
  have := n.nodeCount_eq
  omega

/-- The longest path from a node down goes through its deepest child. -/
theorem depth_eq (n : Node) : n.depth = 1 + depths n.children := by
  cases n <;> simp only [depth, children, depths]
  omega

/-- Trees of bounded depth have a bounded greatest depth. -/
theorem depths_le {ns : List Node} {d : Nat} (h : ∀ n ∈ ns, n.depth ≤ d) : depths ns ≤ d := by
  induction ns with
  | nil => exact Nat.zero_le d
  | cons n ns ih =>
    rw [depths]
    exact Nat.max_le.mpr ⟨h n (.head ns), ih fun m hm ↦ h m (.tail n hm)⟩

/-- A statement that holds of a node if it holds of its children holds of every node. -/
theorem children_induction {motive : Node → Prop}
    (step : ∀ n, (∀ c ∈ n.children, motive c) → motive n) (n : Node) : motive n := by
  suffices h : ∀ k n, n.nodeCount = k → motive n from h _ n rfl
  intro k
  induction k using Nat.strongRecOn with
  | ind k ih =>
    intro n hn
    exact step n fun c hc ↦ ih c.nodeCount (hn ▸ nodeCount_lt_of_mem_children hc) c rfl

/-! ### Rays -/

/-- The indices of several trees, tree by tree. -/
theorem indicesAll_eq (ns : List Node) : indicesAll ns = ns.flatMap indices := by
  induction ns with
  | nil => rfl
  | cons n ns ih => rw [indicesAll, ih, List.flatMap_cons]

/-- The rays of an internal node are those of its children. -/
theorem indices_of_isInternal {n : Node} (h : n.isInternal = true) :
    n.indices = n.children.flatMap indices := by
  cases n with
  | fork u left right => simp [indices, children]
  | wide u ns => rw [indices, indicesAll_eq, children]
  | leaf u start stop => cases h
  | single u i => cases h
  | empty u => cases h

/-- The rays of a node are those of its parts. -/
theorem indices_eq_parts (n : Node) : n.indices = n.parts.flatMap indices := by
  rw [parts]
  split
  · next h => exact indices_of_isInternal h
  · simp

private theorem rayCounts_eq {ns : List Node} (h : ∀ n ∈ ns, n.rayCount = n.indices.length) :
    rayCounts ns = (indicesAll ns).length := by
  induction ns with
  | nil => rfl
  | cons n ns ih =>
    rw [rayCounts, indicesAll, List.length_append, h n (.head ns),
      ih fun m hm ↦ h m (.tail n hm)]

/-- Counting the rays of a node is counting their indices. -/
theorem rayCount_eq_length (n : Node) : n.rayCount = n.indices.length := by
  induction n using children_induction with
  | step n ih =>
    cases n with
    | fork u left right =>
      rw [rayCount, indices, List.length_append, ih left (by simp [children]),
        ih right (by simp [children])]
    | wide u ns => exact rayCounts_eq ih
    | leaf u start stop => simp [rayCount, indices, indicesFrom]
    | single u i => rfl
    | empty u => rfl

/-- A terminal node has no children. -/
theorem children_eq_nil {n : Node} (h : n.isInternal = false) : n.children = [] := by
  cases n <;> first | rfl | cases h

/-! ### Properties of all nodes of a tree -/

/-- A property that holds at every node of a tree. -/
inductive Everywhere (P : Node → Prop) : Node → Prop
  | intro {n : Node} (root : P n) (below : ∀ c ∈ n.children, Everywhere P c) : Everywhere P n

namespace Everywhere

variable {P Q : Node → Prop} {n c : Node}

/-- What holds everywhere holds at the root. -/
theorem root (h : Everywhere P n) : P n := by
  cases h
  assumption

/-- What holds everywhere holds below a child. -/
theorem child (h : Everywhere P n) (hc : c ∈ n.children) : Everywhere P c := by
  cases h with
  | intro _ below => exact below c hc

/-- What holds everywhere holds below a part. -/
theorem part (h : Everywhere P n) (hc : c ∈ n.parts) : Everywhere P c := by
  rw [parts] at hc
  split at hc
  · exact h.child hc
  · rwa [List.mem_singleton.mp hc]

/-- A property that follows from one that holds everywhere holds everywhere. -/
theorem imp (h : Everywhere P n) (hPQ : ∀ m, P m → Q m) : Everywhere Q n := by
  induction h with
  | intro root _ ih => exact .intro (hPQ _ root) ih

/-- Two properties that hold everywhere hold everywhere together. -/
theorem and (h : Everywhere P n) (h' : Everywhere Q n) : Everywhere (fun m ↦ P m ∧ Q m) n := by
  induction h with
  | intro root _ ih => exact .intro ⟨root, h'.root⟩ fun c hc ↦ ih c hc (h'.child hc)

/-- What holds at a terminal node holds everywhere in it. -/
theorem of_terminal (hn : n.isInternal = false) (h : P n) : Everywhere P n :=
  .intro h fun c hc ↦ by simp [children_eq_nil hn] at hc

end Everywhere

/-- A property that holds at every node of a tree and at the level of the node. -/
inductive EverywhereAt (P : Nat → Node → Prop) : Nat → Node → Prop
  | intro {level : Nat} {n : Node} (root : P level n)
      (below : ∀ c ∈ n.children, EverywhereAt P (level + 1) c) : EverywhereAt P level n

namespace EverywhereAt

variable {P : Nat → Node → Prop} {level : Nat} {n : Node}

/-- What holds at a terminal node holds everywhere in it. -/
theorem of_terminal (hn : n.isInternal = false) (h : P level n) : EverywhereAt P level n :=
  .intro h fun c hc ↦ by simp [children_eq_nil hn] at hc

/-- A property that follows at every level holds everywhere. -/
theorem everywhere {Q : Node → Prop} (h : EverywhereAt P level n)
    (hPQ : ∀ level m, P level m → Q m) : Everywhere Q n := by
  induction h with
  | intro root _ ih => exact .intro (hPQ _ _ root) ih

end EverywhereAt
end RayAdjacency.Node
