import RayAdjacency.Proofs.Tree.Refinement

/-!
# What the nodes of a tree split

`TreeBuilder.Splits` is the law of splitting. Any two children of a node are told apart by a bit of
the order on which every child agrees with itself; a wide node has no more children than the bits of
its level allow; and rays that share a leaf that is too large agree on every bit that the builder
could try. No node is wasted, which bounds the depth and the number of nodes.

A window is grown under the invariant that its rays agree on every bit that has been tried above it:
each bit is either still to be tried or settled.
-/

namespace RayAdjacency

namespace Node

variable {s s' : Store} {n : Node} {bit : Nat} {value : Bool} {bits : List Nat}

/-- All rays below a node have a bit set, or all have it clear. -/
def Shows (s : Store) (bit : Nat) (value : Bool) (n : Node) : Prop :=
  ∀ i ∈ n.indices, ∀ ray, s.rays[i]? = some ray → ray.pattern.contains bit = value

/-- Of any two children of a node the first one has a bit clear that the second one has set, and on
that bit the rays below each child agree. So one bit is clear on the left and set on the right of a
binary node. -/
def Separates (s : Store) (bits : List Nat) (n : Node) : Prop :=
  n.children.Pairwise fun c d ↦ ∃ bit ∈ bits,
    (∀ e ∈ n.children, ∃ value, e.Shows s bit value) ∧ c.Shows s bit false ∧ d.Shows s bit true

/-- What the rays below a node show does not depend on other rays. -/
theorem Shows.congr (h : n.Shows s bit value) (hs : ∀ i ∈ n.indices, s'.rays[i]? = s.rays[i]?) :
    n.Shows s' bit value :=
  fun i hi ray hray ↦ h i hi ray (hs i hi ▸ hray)

/-- A tree over a window shows what the window shows. -/
theorem shows_iff {w : Nat × Nat} (hn : n.indices = indicesFrom w.1 w.2) :
    n.Shows s bit value ↔ s.Shows bit value w := by
  simp only [Shows, Store.Shows, Store.HoldsOn, hn, mem_indicesFrom, and_imp]
  exact forall_congr' fun i ↦
    ⟨fun h ray hi hlt hray ↦ h hi hlt ray hray, fun h hi hlt ray hray ↦ h ray hi hlt hray⟩

end Node

namespace TreeBuilder

open Store Node

variable {b : TreeBuilder} {s s' : Store} {start stop level : Nat} {n : Node}
  {all bits : List Nat}

/-- The law that a node at some level obeys. -/
structure SplitLaw (b : TreeBuilder) (bits : List Nat) (s : Store) (level : Nat) (n : Node) :
    Prop where
  not_empty : n.isEmpty = false
  separates : n.Separates s bits
  wide_children : ∀ u children, n = .wide u children →
    ∃ wideBits, b.shape = .wide wideBits ∧ 2 ≤ children.length ∧
      children.length ≤ 2 ^ wideBitsAt wideBits level
  leaf_agrees : ∀ u low high, n = .leaf u low high → b.maxLeaf < high - low →
    ∀ bit ∈ bits, ∃ value, n.Shows s bit value

/-- The law depends on the rays below the node alone. -/
theorem SplitLaw.congr (h : SplitLaw b bits s level n)
    (hs : ∀ i ∈ n.indices, s'.rays[i]? = s.rays[i]?) : SplitLaw b bits s' level n where
  not_empty := h.not_empty
  separates := by
    have hchild : ∀ c ∈ n.children, ∀ {bit value}, c.Shows s bit value → c.Shows s' bit value :=
      fun c hc _ _ hshows ↦ hshows.congr fun i hi ↦ hs i (mem_indices_of_child hc hi)
    refine h.separates.imp_of_mem ?_
    rintro c d hc hd ⟨bit, hbit, hagree, hclear, hset⟩
    refine ⟨bit, hbit, fun e he ↦ ?_, hchild c hc hclear, hchild d hd hset⟩
    obtain ⟨value, hvalue⟩ := hagree e he
    exact ⟨value, hchild e he hvalue⟩
  wide_children := h.wide_children
  leaf_agrees u low high hn hlarge bit hbit := by
    obtain ⟨value, hvalue⟩ := h.leaf_agrees u low high hn hlarge bit hbit
    exact ⟨value, hvalue.congr hs⟩

private theorem lawful_congr (h : EverywhereAt (SplitLaw b bits s) level n)
    (hs : ∀ i ∈ n.indices, s'.rays[i]? = s.rays[i]?) :
    EverywhereAt (SplitLaw b bits s') level n := by
  induction h with
  | intro root _ ih =>
    exact .intro (root.congr hs) fun c hc ↦ ih c hc fun i hi ↦ hs i (mem_indices_of_child hc hi)

/-- A tree over a window whose nodes obey the law for `all` bits, of which `bits` were still to be
tried when it was begun. -/
structure Ramified (b : TreeBuilder) (all bits : List Nat) (level : Nat) (n : Node) (w : Nat × Nat)
    (s : Store) : Prop where
  indices_eq : n.indices = indicesFrom w.1 w.2
  lawful : EverywhereAt (SplitLaw b all s) level n
  depth_le : n.depth ≤ bits.length + 1
  nodeCount_lt : n.nodeCount < 2 * (w.2 - w.1)

private theorem local_ramified (n : Node) : Local (Ramified b all bits level n) := by
  intro w s s' start stop hs hout h
  refine ⟨h.indices_eq, lawful_congr h.lawful fun i hi ↦ ?_, h.depth_le, h.nodeCount_lt⟩
  rw [h.indices_eq, mem_indicesFrom] at hi
  exact hs.outside i (by omega)

/-- Each bit is still to be tried on a window, or the rays of the window agree on it. -/
def Settled (all bits : List Nat) (w : Nat × Nat) (s : Store) : Prop :=
  ∀ bit ∈ all, bit ∈ bits ∨ s.Constant bit w

private theorem Settled.keep {w : Nat × Nat} (h : Settled all bits w s) (hs : Keeps w s s') :
    Settled all bits w s' :=
  fun bit hbit ↦ (h bit hbit).imp_right hs.constant

/-! ### Terminal nodes -/

private theorem isInternal_of_terminal (h : (b.terminal start stop).run.run s = (.ok n, s')) :
    n.isInternal = false := by
  rw [terminal] at h
  split at h
  · cases h
    rfl
  all_goals
    rw [run_bind] at h
    split at h <;> cases h
    rfl

private theorem ramified_terminal (h : start < stop) (hsize : stop ≤ s.size)
    (hsettled : 1 < stop - start → b.maxLeaf < stop - start →
      ∀ bit ∈ all, s.Constant bit (start, stop)) :
    Confined (b.terminal start stop) s start stop fun n s' ↦
      Ramified b all bits level n (start, stop) s' := by
  have hle : start ≤ stop := Nat.le_of_lt h
  refine (confined_terminal hle hsize).mono_run fun n s' hrun hs hgrown ↦ ?_
  have hterminal := isInternal_of_terminal hrun
  have hchildren := children_eq_nil hterminal
  refine ⟨hgrown.indices_eq, .of_terminal hterminal ?_, ?_, ?_⟩
  · refine ⟨hgrown.isEmpty_eq_false h, ?_, ?_, ?_⟩
    · rw [Separates, hchildren]
      exact .nil
    · rintro u children rfl
      cases hterminal
    · intro u low high hn hlarge bit hbit
      have hlength : high - low = stop - start := by
        have hindices := congrArg List.length hgrown.indices_eq
        simpa [hn, indices, indicesFrom] using hindices
      have hconstant : s'.Constant bit (start, stop) := by
        by_cases hone : 1 < stop - start
        · exact (hs.keeps hle hsize).constant (hsettled hone (hlength ▸ hlarge) bit hbit)
        · exact s'.constant_of_le bit (by omega)
      obtain ⟨value, hvalue⟩ := hconstant
      exact ⟨value, (shows_iff hgrown.indices_eq).mpr hvalue⟩
  · rw [depth_eq, hchildren, depths]
    omega
  · rw [nodeCount_eq, hchildren, nodeCounts]
    dsimp only
    omega

/-! ### Internal nodes -/

private theorem nodeCounts_lt {windows : List (Nat × Nat)} {ns : List Node}
    (h : Tiles start stop windows)
    (hns : List.Forall₂ (fun w n ↦ n.nodeCount < 2 * (w.2 - w.1)) windows ns) :
    nodeCounts ns + ns.length ≤ 2 * (stop - start) := by
  induction hns generalizing start with
  | nil =>
    rw [nodeCounts]
    exact Nat.zero_le _
  | cons hn _ ih =>
    obtain ⟨rfl, hlt, htail⟩ := h
    have hrest := ih htail
    have hstop := htail.le
    rw [nodeCounts, List.length_cons]
    omega

private theorem separates_of_sorted {tried : List Nat} {windows : List (Nat × Nat)}
    (hsorted : Sorted tried windows s) (htried : ∀ bit ∈ tried, bit ∈ all)
    (hns : List.Forall₂ (fun w c ↦ c.indices = indicesFrom w.1 w.2) windows n.children) :
    n.Separates s all := by
  have hlength := hns.length_eq
  have hagree : ∀ bit ∈ tried, ∀ c ∈ n.children, ∃ value, c.Shows s bit value := by
    intro bit hbit c hc
    obtain ⟨i, hi, rfl⟩ := List.getElem_of_mem hc
    have hw : i < windows.length := hlength ▸ hi
    obtain ⟨value, hvalue⟩ := hsorted.constant windows[i] (List.getElem_mem hw) bit hbit
    exact ⟨value, (shows_iff (hns.get hw hi)).mpr hvalue⟩
  refine List.pairwise_iff_getElem.mpr fun i j hi hj hij ↦ ?_
  have hwi : i < windows.length := hlength ▸ hi
  have hwj : j < windows.length := hlength ▸ hj
  obtain ⟨bit, hbit, hclear, hset⟩ :=
    List.pairwise_iff_getElem.mp hsorted.pairwise i j hwi hwj hij
  exact ⟨bit, htried bit hbit, hagree bit hbit, (shows_iff (hns.get hwi hi)).mpr hclear,
    (shows_iff (hns.get hwj hj)).mpr hset⟩

private theorem Ramified.of_children {tried rest : List Nat} {windows : List (Nat × Nat)}
    (hinternal : n.isInternal = true)
    (htiles : Tiles start stop windows) (htwo : 2 ≤ windows.length)
    (hsorted : Sorted tried windows s) (htried : ∀ bit ∈ tried, bit ∈ all)
    (hrest : rest.length < bits.length)
    (hwide : ∀ u children, n = .wide u children →
      ∃ wideBits, b.shape = .wide wideBits ∧ windows.length ≤ 2 ^ wideBitsAt wideBits level)
    (hns : List.Forall₂ (fun w c ↦ Ramified b all rest (level + 1) c w s) windows n.children) :
    Ramified b all bits level n (start, stop) s := by
  have hlength := hns.length_eq
  have hmem : ∀ c ∈ n.children, ∃ w, Ramified b all rest (level + 1) c w s := fun c hc ↦ by
    obtain ⟨i, hi, rfl⟩ := List.getElem_of_mem hc
    exact ⟨_, hns.get (hlength ▸ hi) hi⟩
  have hindices := hns.imp fun _ _ h ↦ h.indices_eq
  refine ⟨?_, .intro ⟨?_, separates_of_sorted hsorted htried hindices, ?_, ?_⟩ fun c hc ↦ ?_,
    ?_, ?_⟩
  · rw [indices_of_isInternal hinternal, indices_of_tiles htiles hindices]
  · cases n <;> first | rfl | cases hinternal
  · rintro u children rfl
    obtain ⟨wideBits, hshape, hle⟩ := hwide u children rfl
    rw [hlength] at htwo hle
    exact ⟨wideBits, hshape, htwo, hle⟩
  · rintro u low high rfl
    cases hinternal
  · obtain ⟨w, hc⟩ := hmem c hc
    exact hc.lawful
  · have hbelow : depths n.children ≤ rest.length + 1 := depths_le fun c hc ↦ by
      obtain ⟨w, hc⟩ := hmem c hc
      exact hc.depth_le
    rw [depth_eq]
    omega
  · have hbelow := nodeCounts_lt htiles (hns.imp fun _ _ h ↦ h.nodeCount_lt)
    rw [nodeCount_eq]
    dsimp only
    omega

/-! ### Growing -/

private theorem Sifts.settled {budget : Nat} {windows : List (Nat × Nat)} {rest : List Nat}
    (h : Sifts [] budget [(start, stop)] bits (windows, rest) s) (htiles : Tiles start stop windows)
    (hsettled : Settled all bits (start, stop) s) : ∀ w ∈ windows, Settled all rest w s := by
  intro w hw bit hbit
  obtain ⟨more, hbits, hsorted⟩ := h.sorted
  obtain ⟨hstart, -, hstop⟩ := htiles.mem hw
  rcases hsettled bit hbit with hleft | hconstant
  · rw [hbits] at hleft
    rcases List.mem_append.mp hleft with htried | hleft
    · exact .inr (hsorted.constant w hw bit htried)
    · exact .inl hleft
  · exact .inr (hconstant.part hstart hstop)

private theorem ramified_mapM {below : Nat → Nat → StoreM Node} {rest : List Nat}
    (hbelow : ∀ (low high : Nat) (s : Store), low < high → high ≤ s.size →
      Settled all rest (low, high) s → Confined (below low high) s low high fun n s' ↦
        Ramified b all rest level n (low, high) s')
    {windows : List (Nat × Nat)} (htiles : Tiles start stop windows)
    (hsettled : ∀ w ∈ windows, Settled all rest w s) (hsize : stop ≤ s.size) :
    Confined (windows.mapM fun w ↦ below w.1 w.2) s start stop fun ns s' ↦
      List.Forall₂ (fun w n ↦ Keeps w s s' ∧ Ramified b all rest level n w s') windows ns := by
  have hkeeps : Local fun w s' ↦ Keeps w s s' := fun w s₁ s₂ _ _ hs hout h ↦
    h.trans (hs.keeps_outside hout)
  have hpost : ∀ n, Local fun w s' ↦ Keeps w s s' ∧ Ramified b all rest level n w s' :=
    fun n w s₁ s₂ _ _ hs hout h ↦
      ⟨hkeeps w s₁ s₂ _ _ hs hout h.1, local_ramified n w s₁ s₂ _ _ hs hout h.2⟩
  refine confined_mapM hkeeps hpost (fun w hw s₁ hs₁ hkept ↦ ?_) htiles (fun w _ P hP ↦ hP) hsize
  obtain ⟨-, hlt, -⟩ := htiles.mem hw
  refine (hbelow w.1 w.2 s₁ hlt hs₁ ((hsettled w hw).keep hkept)).mono fun n s₂ hs₂ hn ↦ ?_
  exact ⟨hkept.trans (hs₂.keeps (Nat.le_of_lt hlt) hs₁), hn⟩

private theorem confined_separate_sorted (h : start < stop) (hsize : stop ≤ s.size) :
    Confined (separate start stop bits) s start stop fun found s' ↦
      Tiles start stop (windowsOf start stop found).1 ∧
      Sifts [] 1 [(start, stop)] bits (windowsOf start stop found) s' := by
  have hwindow : Tiles start stop [(start, stop)] := ⟨rfl, h, rfl⟩
  have hsorted : Sorted [] [(start, stop)] s := ⟨by simp, List.pairwise_singleton _ _⟩
  exact .of_map (((confined_refineAll 1 bits hwindow hsize).and
    (confined_refineAll_sorted 1 bits hwindow hsorted hsize)).congr
    (refineAll_one bits (Nat.le_of_lt h) hsize).symm)

variable {below : List Nat → Nat → Nat → StoreM Node}

variable (hbits : bits ⊆ all)
  (hbelow : ∀ rest : List Nat, rest.length < bits.length → rest ⊆ all →
    ∀ (low high : Nat) (s : Store), low < high → high ≤ s.size → Settled all rest (low, high) s →
      Confined (below rest low high) s low high fun n s' ↦
        Ramified b all rest (level + 1) n (low, high) s')

include hbits hbelow

private theorem ramified_assemble {budget : Nat} {windows : List (Nat × Nat)} {rest : List Nat}
    {assemble : List Node → StoreM Node} (htiles : Tiles start stop windows)
    (hsifts : Sifts [] budget [(start, stop)] bits (windows, rest) s) (htwo : 2 ≤ windows.length)
    (hsettled : ∀ w ∈ windows, Settled all rest w s) (hsize : stop ≤ s.size)
    (hassemble : ∀ ns : List Node, ns.length = windows.length →
      ∃ n, assemble ns = pure n ∧ n.isInternal = true ∧ n.children = ns ∧
        ∀ u children, n = .wide u children →
          ∃ wideBits, b.shape = .wide wideBits ∧ windows.length ≤ 2 ^ wideBitsAt wideBits level) :
    Confined ((windows.mapM fun w ↦ below rest w.1 w.2) >>= assemble) s start stop fun n s' ↦
      Ramified b all bits level n (start, stop) s' := by
  have hrest : rest.length < bits.length := hsifts.consumed htwo
  have hgrow := hbelow rest hrest (List.Subset.trans hsifts.subset hbits)
  refine (ramified_mapM hgrow htiles hsettled hsize).bind fun ns s₁ _ hns ↦ ?_
  obtain ⟨n, hn, hinternal, rfl, hwide⟩ := hassemble ns hns.length_eq.symm
  obtain ⟨tried, htried, hsorted⟩ := hsifts.sorted
  have hkept : ∀ w ∈ windows, Keeps w s s₁ := fun w hw ↦ by
    obtain ⟨i, hi, rfl⟩ := List.getElem_of_mem hw
    exact (hns.get hi (hns.length_eq ▸ hi)).1
  have hall : ∀ bit ∈ [] ++ tried, bit ∈ all := fun bit hbit ↦
    hbits (htried ▸ List.mem_append_left _ hbit)
  rw [hn]
  exact .pure (.of_children hinternal htiles htwo (hsorted.keep hkept) hall hrest hwide
    (hns.imp fun _ _ h ↦ h.2))

private theorem ramified_binary {border : Nat} {rest : List Nat}
    (htiles : Tiles start stop [(start, border), (border, stop)])
    (hsifts : Sifts [] 1 [(start, stop)] bits ([(start, border), (border, stop)], rest) s)
    (hsettled : ∀ w ∈ [(start, border), (border, stop)], Settled all rest w s)
    (hsize : stop ≤ s.size) :
    Confined (do
      let left ← below rest start border
      let right ← below rest border stop
      return join left right) s start stop fun n s' ↦
        Ramified b all bits level n (start, stop) s' := by
  have hassemble : ∀ ns : List Node, ns.length = 2 →
      ∃ n, (pure (join (ns.headD default) (ns.getLastD default)) : StoreM Node) = pure n ∧
        n.isInternal = true ∧ n.children = ns ∧ ∀ u children, n = .wide u children →
          ∃ wideBits, b.shape = .wide wideBits ∧ 2 ≤ 2 ^ wideBitsAt wideBits level := by
    intro ns hns
    obtain ⟨left, right, rfl⟩ := List.length_eq_two.mp hns
    exact ⟨_, rfl, rfl, rfl, fun _ _ h ↦ by cases h⟩
  have hnode := ramified_assemble hbits hbelow htiles hsifts (by simp) hsettled hsize hassemble
  simpa [List.mapM_cons, bind_assoc] using hnode

private theorem ramified_divide (h : start < stop) (hsettled : Settled all bits (start, stop) s)
    (hsize : stop ≤ s.size) :
    Confined (b.divide below bits level start stop) s start stop fun n s' ↦
      Ramified b all bits level n (start, stop) s' := by
  have hle : start ≤ stop := Nat.le_of_lt h
  rw [divide]
  split
  · refine (confined_separate_sorted h hsize).bind ?_
    rintro found s₁ hs₁ ⟨htiles, hsifts⟩
    have hsize₁ : stop ≤ s₁.size := hs₁.size_eq ▸ hsize
    have hsettled₁ := hsifts.settled htiles (hsettled.keep (hs₁.keeps hle hsize))
    rcases found with _ | ⟨border, rest⟩
    · refine ramified_terminal h hsize₁ fun _ _ bit hbit ↦ ?_
      exact (hsettled₁ _ (.head _) bit hbit).resolve_left List.not_mem_nil
    · exact ramified_binary hbits hbelow htiles hsifts hsettled₁ hsize₁
  · next wideBits hshape =>
    have hwindow : Tiles start stop [(start, stop)] := ⟨rfl, h, rfl⟩
    have hsorted : Sorted [] [(start, stop)] s := ⟨by simp, List.pairwise_singleton _ _⟩
    refine ((confined_refineAll _ bits hwindow hsize).and
      (confined_refineAll_sorted _ bits hwindow hsorted hsize)).bind ?_
    rintro ⟨windows, rest⟩ s₁ hs₁ ⟨htiles, hsifts⟩
    have hsize₁ : stop ≤ s₁.size := hs₁.size_eq ▸ hsize
    have hsettled₁ := hsifts.settled htiles (hsettled.keep (hs₁.keeps hle hsize))
    rcases windows with _ | ⟨w, _ | ⟨second, windows⟩⟩
    · exact absurd hsifts.le_length (by simp)
    · obtain ⟨rfl, -, rfl⟩ := htiles
      have hbudget : 0 < wideBitsAt wideBits level := Nat.le_max_left _ _
      have hnone : rest = [] := hsifts.exhausted hbudget rfl
      refine ramified_terminal h hsize₁ fun _ _ bit hbit ↦ ?_
      exact (hsettled₁ _ (.head _) bit hbit).resolve_left (hnone ▸ List.not_mem_nil)
    · refine ramified_assemble hbits hbelow htiles hsifts (by simp) hsettled₁ hsize₁ ?_
      intro ns hns
      rcases ns with _ | ⟨left, _ | ⟨right, ns⟩⟩
      · cases hns
      · cases hns
      · refine ⟨_, rfl, rfl, rfl, fun u children _ ↦ ⟨wideBits, hshape, ?_⟩⟩
        simpa using hsifts.length_le

omit hbits hbelow

/-- The tree over a window inside the store obeys the law if the fuel is at least the number of bits
to be tried. -/
theorem ramified_grow (fuel : Nat) (hfuel : bits.length ≤ fuel) (hbits : bits ⊆ all)
    (h : start < stop) (hsettled : Settled all bits (start, stop) s) (hsize : stop ≤ s.size) :
    Confined (b.grow fuel bits level start stop) s start stop fun n s' ↦
      Ramified b all bits level n (start, stop) s' := by
  have hle : start ≤ stop := Nat.le_of_lt h
  induction fuel generalizing bits level start stop s with
  | zero =>
    refine (confined_checkWindow hle hsize).bind ?_
    rintro _ _ _ rfl
    obtain rfl : bits = [] := List.eq_nil_of_length_eq_zero (Nat.le_zero.mp hfuel)
    refine ramified_terminal h hsize fun _ _ bit hbit ↦ ?_
    exact (hsettled bit hbit).resolve_left List.not_mem_nil
  | succ fuel ih =>
    refine (confined_checkWindow hle hsize).bind ?_
    rintro _ _ _ rfl
    split
    · next hsmall =>
      exact ramified_terminal h hsize fun hmany hlarge ↦ by omega
    · refine ramified_divide hbits ?_ h hsettled hsize
      intro rest hrest hsub low high s₁ hlt hhigh hsettled₁
      exact ih (by omega) hsub hlt hsettled₁ hhigh (Nat.le_of_lt hlt)

/-! ### Builds -/

/-- The law of splitting, of the tree over a window and the store as it is after the build. -/
structure Splits (shape : NodeShape) (maxLeaf : Nat) (order : BitOrder) (firstBit start stop : Nat)
    (s : Store) (n : Node) : Prop where
  /-- Every node obeys the law for the bits of the order from the first bit on. -/
  lawful : EverywhereAt
    (SplitLaw ⟨shape, maxLeaf, order.length⟩ (order.bits.drop firstBit) s) 0 n
  /-- If no bit has been left out, the rays of a leaf that is too large have the same pattern. -/
  equal_patterns : firstBit = 0 → n.Everywhere fun m ↦ ∀ u low high, m = .leaf u low high →
    maxLeaf < high - low → ∀ i ∈ m.indices, ∀ j ∈ m.indices, s.pattern? i = s.pattern? j
  depth_le : n.depth ≤ order.length + 1
  nodeCount_le : n.nodeCount ≤ 2 * (stop - start) - 1

private theorem equal_of_agrees {width : Nat} (hs : s.Uniform width) {i j : Nat}
    (hi : i ∈ n.indices) (hj : j ∈ n.indices) (hsize : ∀ k ∈ n.indices, k < s.size)
    (h : ∀ bit, bit < width → ∃ value, n.Shows s bit value) : s.pattern? i = s.pattern? j := by
  have hray : ∀ k ∈ n.indices, ∃ ray, s.rays[k]? = some ray := fun k hk ↦
    ⟨_, Array.getElem?_eq_getElem (hsize k hk)⟩
  obtain ⟨r, hr⟩ := hray i hi
  obtain ⟨r', hr'⟩ := hray j hj
  obtain ⟨hwf, hc⟩ := hs.pattern (show s.pattern? i = some r.pattern by rw [pattern?, hr]; rfl)
  obtain ⟨hwf', hc'⟩ := hs.pattern (show s.pattern? j = some r'.pattern by rw [pattern?, hr']; rfl)
  rw [pattern?, pattern?, hr, hr', Option.map_some, Option.map_some,
    hwf.eq_of_contains hwf' (hc.trans hc'.symm) fun bit hbit ↦ ?_]
  obtain ⟨value, hvalue⟩ := h bit (hc ▸ hbit)
  rw [hvalue i hi r hr, hvalue j hj r' hr']

/-- Patterns of one width are split by the law, whatever the shape, the size of a leaf and the bit
to start from; a store that refuses nothing gets its tree. -/
theorem splits_of_uniform (shape : NodeShape) (maxLeaf firstBit : Nat) {order : BitOrder}
    {width : Nat} (hs : s.Uniform width) (horder : order.bits.Perm (List.range width))
    (h : start < stop) (hsize : stop ≤ s.size) :
    (s.Answers → ∃ n s',
      (build shape maxLeaf order start stop firstBit).run.run s = (.ok n, s')) ∧
    ∀ n s', (build shape maxLeaf order start stop firstBit).run.run s = (.ok n, s') →
      Splits shape maxLeaf order firstBit start stop s' n := by
  have hsettled : Settled (order.bits.drop firstBit) (order.bits.drop firstBit) (start, stop) s :=
    fun bit hbit ↦ .inl hbit
  have hgrow := (@confined_grow ⟨shape, maxLeaf, order.length⟩ s start stop _ _ 0 (Nat.le_of_lt h)
    hsize).and (ramified_grow _ (Nat.le_refl _) (List.Subset.refl _) h hsettled hsize)
  refine ⟨fun hanswers ↦ ?_, fun n s' hrun ↦ ?_⟩
  · obtain ⟨n, s', hrun, -⟩ := hgrow.exists_ok hanswers
    exact ⟨n, s', hrun⟩
  · obtain ⟨hs', hgrown, hramified⟩ := Ends.of_ok hgrow hrun
    have hdepth : (order.bits.drop firstBit).length ≤ order.length :=
      List.length_drop ▸ Nat.sub_le _ _
    refine ⟨hramified.lawful, fun hfirst ↦ ?_, hramified.depth_le.trans (Nat.succ_le_succ hdepth),
      Nat.le_sub_one_of_lt hramified.nodeCount_lt⟩
    have hagrees := hramified.lawful.everywhere fun _ _ hm ↦ hm.leaf_agrees
    refine (hagrees.and hgrown.unites).imp ?_
    rintro m ⟨hm, hunites⟩ u low high hleaf hlarge i hi j hj
    refine equal_of_agrees (hs'.uniform hs) hi hj hunites.lt_size fun bit hbit ↦ ?_
    refine hm u low high hleaf hlarge bit ?_
    rw [hfirst, List.drop_zero]
    exact horder.mem_iff.mpr (List.mem_range.mpr hbit)

/-- Three rays split on three bits. -/
theorem splits_of_uniform_triple : triple.Uniform 4 ∧
    (BitOrder.natural 4).bits.Perm (List.range 4) ∧ 0 < 3 ∧ 3 ≤ triple.size ∧
    ∃ n s', (build (.wide 2) 1 (.natural 4) 0 3 0).run.run triple = (.ok n, s') ∧
      Splits (.wide 2) 1 (.natural 4) 0 0 3 s' n := by
  have hanswers : triple.Answers := ⟨fun _ _ _ ↦ rfl, fun _ ↦ rfl⟩
  obtain ⟨hbuilds, hsplits⟩ := splits_of_uniform (.wide 2) 1 0 uniform_triple
    (.refl (BitOrder.natural 4).bits) (show 0 < 3 by decide) (show 3 ≤ triple.size by decide)
  obtain ⟨n, s', hrun⟩ := hbuilds hanswers
  exact ⟨uniform_triple, .refl _, by decide, by decide, n, s', hrun, hsplits n s' hrun⟩

end TreeBuilder
end RayAdjacency
