import RayAdjacency.Proofs.Tree.Build

/-!
# A window and its tree, word by word

A build is confined to its window, and its tree unites the patterns that the window holds when the
build has ended, not those that a node saw when it was made. Read word by word, the union of every
node is the disjunction of the words at the indices below it.
-/

namespace RayAdjacency

/-! ### Words -/

/-- A word of a pattern, which is empty beyond the stored words. -/
def Pattern.word (p : Pattern) (k : Nat) : Word := p.words.getD k 0#64

/-- A word holds 64 positions of its pattern. -/
theorem Pattern.getLsbD_word (p : Pattern) (k : Nat) {j : Nat} (hj : j < 64) :
    (p.word k).getLsbD j = p.bit (64 * k + j) := by
  have hdiv : (64 * k + j) / 64 = k := by omega
  have hmod : (64 * k + j) % 64 = j := by omega
  rw [bit, hdiv, hmod, word]

namespace Store

variable {s s' : Store} {start stop : Nat}

/-- A word of the pattern at an index, which is empty where there is no ray. -/
def word (s : Store) (k i : Nat) : Word := ((s.pattern? i).map (·.word k)).getD 0#64

/-- The disjunction of a word of the patterns at several indices. -/
def orWord (s : Store) (is : List Nat) (k : Nat) : Word := (is.map (s.word k)).foldr (· ||| ·) 0#64

private theorem getLsbD_word (k i : Nat) {j : Nat} (hj : j < 64) :
    (s.word k i).getLsbD j = true ↔ ∃ z, s.pattern? i = some z ∧ z.bit (64 * k + j) = true := by
  rw [word]
  cases s.pattern? i with
  | none => simp
  | some z => simp [Pattern.getLsbD_word z k hj]

private theorem getLsbD_orWord (is : List Nat) (k : Nat) {j : Nat} (hj : j < 64) :
    (s.orWord is k).getLsbD j = true ↔
      ∃ i ∈ is, ∃ z, s.pattern? i = some z ∧ z.bit (64 * k + j) = true := by
  induction is with
  | nil => simp [orWord]
  | cons i is ih =>
    change (s.word k i ||| s.orWord is k).getLsbD j = true ↔ _
    rw [BitVec.getLsbD_or, Bool.or_eq_true, getLsbD_word k i hj, ih]
    simp only [List.mem_cons, exists_eq_or_imp]

end Store

namespace Node

variable {s : Store} {n : Node}

/-- A union that has the bits of the patterns below it is the disjunction of their words. -/
theorem Unites.word_union (h : n.Unites s) (k : Nat) :
    n.union.word k = s.orWord n.indices k := by
  refine BitVec.eq_of_getLsbD_eq fun j hj ↦ ?_
  rw [Bool.eq_iff_iff, Pattern.getLsbD_word _ _ hj, Store.getLsbD_orWord _ _ hj, h.bit_union]

private theorem windowsFitAll_eq {ns : List Node} (h : ∀ n ∈ ns, n.windowsFit = .ok ()) :
    windowsFitAll ns = .ok () := by
  induction ns with
  | nil => rfl
  | cons n ns ih =>
    rw [windowsFitAll, h n (.head ns), Outcome.ok_bind, ih fun m hm ↦ h m (.tail n hm)]

/-- Windows of rays whose indices have a successor lie in the index type. -/
theorem windowsFit_eq (n : Node) (h : ∀ i ∈ n.indices, i + 1 < wordLimit) :
    n.windowsFit = .ok () := by
  induction n using children_induction with
  | step n ih =>
    have hchildren : ∀ c ∈ n.children, c.windowsFit = .ok () := fun c hc ↦
      ih c hc fun i hi ↦ h i (mem_indices_of_child hc hi)
    cases n with
    | fork u left right =>
      rw [windowsFit, hchildren left (by simp [children]), Outcome.ok_bind,
        hchildren right (by simp [children])]
    | wide u ns => exact windowsFitAll_eq hchildren
    | leaf u start stop => rfl
    | single u i =>
      rw [windowsFit, Outcome.add_of_lt (h i (by simp [indices]))]
      rfl
    | empty u => rfl

/-- The indices of a tree are listed if they and their list fit into memory. -/
theorem checkedIndices_eq (hlist : 8 * n.indices.length ≤ bufferLimit)
    (h : ∀ i ∈ n.indices, i + 1 < wordLimit) : n.checkedIndices = .ok n.indices := by
  have hcount : n.rayCount + 0 < wordLimit := by
    rw [rayCount_eq_length]
    have : bufferLimit < 8 * wordLimit := by decide
    omega
  rw [checkedIndices, checkedRayCount, Outcome.add_of_lt hcount, Outcome.ok_bind,
    Outcome.reserve_of_le (by rw [Nat.add_zero, rayCount_eq_length]; exact hlist),
    Outcome.ok_bind, n.windowsFit_eq h]
  rfl

end Node

/-! ### Builds -/

namespace TreeBuilder

variable {s s' : Store} {start stop : Nat}

/-- A store and the tree over one of its windows after a build. -/
structure Planted (start stop : Nat) (s s' : Store) (n : Node) : Prop where
  /-- The tree lists the indices of the window in order. -/
  indices_eq : n.indices = List.range' start (stop - start)
  /-- The list is handed out unless it does not fit into memory. -/
  checkedIndices_eq : 8 * s.size ≤ bufferLimit → n.checkedIndices = .ok n.indices
  /-- The window holds the rays that it held. -/
  window_perm : (s'.rays.extract start stop).Perm (s.rays.extract start stop)
  /-- All other rays are where they were. -/
  outside : ∀ i, i < start ∨ stop ≤ i → s'.rays[i]? = s.rays[i]?
  /-- Each word of a union is the disjunction of the words below the node. -/
  word_union : n.Everywhere fun m ↦ ∀ k, m.union.word k = s'.orWord m.indices k
  /-- The union of a single ray is its pattern. -/
  single : n.Everywhere fun m ↦ ∀ u i, m = .single u i → s'.pattern? i = some u

/-- A tree grown over a rearranged window is planted there. -/
theorem Grown.planted {b : TreeBuilder} {n : Node} (h : Grown b start stop n s')
    (hs : s.Rearranged start stop s') (hstart : start ≤ stop) (hstop : stop ≤ s.size) :
    Planted start stop s s' n where
  indices_eq := h.indices_eq
  checkedIndices_eq hsize := by
    have hlength : n.indices.length = stop - start := by
      rw [h.indices_eq, Node.indicesFrom, List.length_range']
    have hlimit : bufferLimit < wordLimit := by decide
    refine Node.checkedIndices_eq (by omega) fun i hi ↦ ?_
    rw [h.indices_eq, Node.mem_indicesFrom] at hi
    omega
  window_perm := hs.window_perm hstart hstop
  outside := hs.outside
  word_union := h.unites.imp fun _ hm ↦ hm.word_union
  single := h.unites.imp fun _ hm ↦ hm.single

/-- A store that refuses nothing gets the tree over any of its windows, whatever the shape, the size
of a leaf, the order of the bits and the bit to start from. -/
theorem plants_of_answers (shape : NodeShape) (maxLeaf : Nat) (order : BitOrder) (firstBit : Nat)
    (hs : s.Answers) (hstart : start ≤ stop) (hstop : stop ≤ s.size) :
    ∃ n s', (build shape maxLeaf order start stop firstBit).run.run s = (.ok n, s') ∧
      Planted start stop s s' n := by
  have hgrow := confined_grow (b := ⟨shape, maxLeaf, order.length⟩)
    (order.bits.drop firstBit).length (order.bits.drop firstBit) 0 hstart hstop
  obtain ⟨n, s', hrun, hrearranged, hgrown⟩ := hgrow.exists_ok hs
  exact ⟨n, s', hrun, hgrown.planted hrearranged hstart hstop⟩

/-- Three rays of four positions. -/
def triple : Store := .ofRays [.ofPattern 0 (.ofWords [3#64] 4), .ofPattern 1 (.ofWords [6#64] 4),
  .ofPattern 2 (.ofWords [9#64] 4)]

/-- The patterns of the triple are well formed and of one width. -/
theorem uniform_triple : triple.Uniform 4 :=
  Store.uniform_ofRays [(0, 3#64), (1, 6#64), (2, 9#64)] (by decide) (by decide) (by decide)

/-- The last two of three rays get their tree. -/
theorem plants_of_answers_triple : triple.Answers ∧ 1 ≤ 3 ∧ 3 ≤ triple.size ∧
    ∃ n s', (build (.wide 2) 1 (.natural 4) 1 3 0).run.run triple = (.ok n, s') ∧
      Planted 1 3 triple s' n := by
  have hs : triple.Answers := ⟨fun _ _ _ ↦ rfl, fun _ ↦ rfl⟩
  exact ⟨hs, by decide, by decide,
    plants_of_answers (.wide 2) 1 (.natural 4) 0 hs (by decide) (by decide)⟩

end TreeBuilder
end RayAdjacency
