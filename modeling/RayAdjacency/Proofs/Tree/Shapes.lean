import RayAdjacency.Proofs.Tree.Windows

/-!
# Binary trees as wide trees of one bit

A wide node that is split on one bit is split like a binary node. So for patterns of one width the
two builders call the store alike and get the same tree, but for the shape of its nodes;
`Node.asForks` changes that. The statements compare whole runs, so they hold of a run that a store
ends by a refusal as well.
-/

namespace RayAdjacency

namespace Node

mutual
/-- The tree with its wide nodes of two children replaced by binary ones. -/
def asForks : Node → Node
  | fork u left right => fork u (asForks left) (asForks right)
  | wide u children =>
    match asForksAll children with
    | [left, right] => fork u left right
    | children => wide u children
  | n => n

/-- Several trees with their wide nodes of two children replaced by binary ones. -/
def asForksAll : List Node → List Node
  | [] => []
  | n :: rest => asForks n :: asForksAll rest
end

/-- The shape of its nodes does not change the union of a tree. -/
@[simp] theorem union_asForks (n : Node) : n.asForks.union = n.union := by
  cases n with
  | wide u children =>
    rw [asForks]
    split <;> rfl
  | _ => rfl

/-- A wide node over two trees becomes the binary node over them if they are of one width. -/
theorem asForks_wide_pair {width : Nat} {left right : Node} (hl : left.HasWidth width)
    (hr : right.HasWidth width) :
    (wide (left.union.absorb right.union) [left, right]).asForks =
      join left.asForks right.asForks := by
  have hcap : left.union.capacity = right.union.capacity :=
    hl.capacity_eq.trans hr.capacity_eq.symm
  have hunion : left.union.absorb right.union = left.union.union right.union := by
    rw [Pattern.absorb, Pattern.union, hcap, ite_self, Nat.max_self]
  rw [hunion, join, union_asForks, union_asForks]
  rfl

end Node

/-! ### Runs -/

namespace Store

variable {α α' β : Type} {m : StoreM α} {m' : StoreM α'} {f : α → StoreM β} {f' : α' → StoreM β}
  {g : α → α'} {s : Store} {start stop : Nat} {post : α → Store → Prop}

/-- Two sequences agree if their first steps agree up to a map of the value and their second steps
agree wherever the first ones end. -/
theorem Confined.run_bind_congr (hm : Confined m s start stop post)
    (hsame : m'.run.run s = (g <$> m).run.run s)
    (hf : ∀ a s', Rearranged start stop s s' → post a s' →
      (f' (g a)).run.run s' = (f a).run.run s') :
    (m' >>= f').run.run s = (m >>= f).run.run s := by
  rw [run_bind, hsame, ← run_bind, bind_map_left, run_bind, run_bind]
  rcases hrun : m.run.run s with ⟨e | a, s'⟩
  · rfl
  · obtain ⟨hs', ha⟩ := Ends.of_ok hm hrun
    exact hf a s' hs' ha

end Store

namespace TreeBuilder

open Store Node

variable {s : Store} {start stop width maxLeaf : Nat}

/-- A wide node of one bit is split on one bit at every level. -/
theorem wideBitsAt_one (level : Nat) : wideBitsAt 1 level = 1 := by
  have hle : max 1 1 >>> min level 63 ≤ 1 := by
    rw [Nat.shiftRight_eq_div_pow]
    exact Nat.div_le_self _ _
  exact Nat.max_eq_left hle

/-- A terminal node has no shape. -/
theorem asForks_terminal (b : TreeBuilder) (start stop : Nat) :
    asForks <$> b.terminal start stop = b.terminal start stop := by
  rw [terminal]
  split
  · rfl
  · rw [map_bind]
    rfl
  · rw [map_bind]
    rfl

/-- The windows that a separation leaves. -/
def windowsOf (start stop : Nat) : Option (Nat × List Nat) → List (Nat × Nat) × List Nat
  | none => ([(start, stop)], [])
  | some (border, rest) => ([(start, border), (border, stop)], rest)

private theorem refineAll_zero (windows : List (Nat × Nat)) (bits : List Nat) :
    refineAll 0 windows bits = pure (windows, bits) := by
  cases bits <;> rfl

/-- Refining one window until one bit has separated it is separating it. -/
theorem refineAll_one (bits : List Nat) (h : start ≤ stop) (hsize : stop ≤ s.size) :
    (refineAll 1 [(start, stop)] bits).run.run s =
      (windowsOf start stop <$> separate start stop bits).run.run s := by
  induction bits generalizing s with
  | nil => rfl
  | cons bit bits ih =>
    rw [refineAll, separate, map_bind]
    simp only [refine, pure_bind, bind_assoc]
    refine (confined_partition bit h hsize).run_bind_congr (by rw [id_map])
      fun border s₁ hs₁ hparted ↦ ?_
    have hlow := hparted.le_border
    have hhigh := hparted.border_le
    by_cases hinside : border = start ∨ border = stop
    · have hnot : ¬(start < border ∧ border < stop) := by omega
      simpa [hinside, hnot] using ih (hs₁.size_eq ▸ hsize)
    · have hin : start < border ∧ border < stop := by omega
      simp [hinside, hin, refineAll_zero, windowsOf]

private theorem run_join_eq {lower upper lower' upper' : StoreM Node} {b : TreeBuilder}
    {border : Nat} (hs : s.Uniform b.width) (hsize : stop ≤ s.size)
    (hlower : Confined lower s start border (Grown b start border))
    (hupper : ∀ s₁ : Store, stop ≤ s₁.size → Confined upper s₁ border stop (Grown b border stop))
    (hsame : lower'.run.run s = (asForks <$> lower).run.run s)
    (hsame' : ∀ s₁ : Store, s₁.Uniform b.width → stop ≤ s₁.size →
      upper'.run.run s₁ = (asForks <$> upper).run.run s₁) :
    (do
      let left ← lower'
      let right ← upper'
      return join left right : StoreM Node).run.run s =
    (do
      let left ← lower
      let right ← upper
      asForks <$> liftExcept (joinAll [left, right]) : StoreM Node).run.run s := by
  refine hlower.run_bind_congr hsame fun left s₁ hs₁ hleft ↦ ?_
  have hsize₁ : stop ≤ s₁.size := hs₁.size_eq ▸ hsize
  have huniform : s₁.Uniform b.width := hs₁.uniform hs
  refine (hupper s₁ hsize₁).run_bind_congr (hsame' s₁ huniform hsize₁) fun right s₂ hs₂ hright ↦ ?_
  have hl := (hleft.hasWidth huniform).root
  have hr := (hright.hasWidth (hs₂.uniform huniform)).root
  change (pure (join left.asForks right.asForks) : StoreM Node).run.run s₂ =
    (pure (wide (left.union.absorb right.union) [left, right]).asForks : StoreM Node).run.run s₂
  rw [asForks_wide_pair hl hr]

variable {below below' : List Nat → Nat → Nat → StoreM Node} {b : TreeBuilder}

private theorem run_divide_eq {bits : List Nat} {level : Nat} (hs : s.Uniform width)
    (h : start ≤ stop) (hsize : stop ≤ s.size)
    (hbelow : ∀ (rest : List Nat) (low high : Nat) (s : Store), low ≤ high → high ≤ s.size →
      Confined (below rest low high) s low high (Grown ⟨.wide 1, maxLeaf, width⟩ low high))
    (hsame : ∀ (rest : List Nat) (low high : Nat) (s : Store), s.Uniform width → low ≤ high →
      high ≤ s.size →
        (below' rest low high).run.run s = (asForks <$> below rest low high).run.run s) :
    (divide ⟨.binary, maxLeaf, width⟩ below' bits level start stop).run.run s =
      (asForks <$> divide ⟨.wide 1, maxLeaf, width⟩ below bits level start stop).run.run s := by
  simp only [divide, wideBitsAt_one, map_bind]
  symm
  rw [run_bind, refineAll_one bits h hsize, ← run_bind, bind_map_left]
  symm
  refine (confined_separate bits h hsize).run_bind_congr (by rw [id_map])
    fun found s₁ hs₁ hfound ↦ ?_
  have hsize₁ : stop ≤ s₁.size := hs₁.size_eq ▸ hsize
  rcases found with _ | ⟨border, rest⟩
  · dsimp only [windowsOf, id]
    rw [asForks_terminal]
    rfl
  · obtain ⟨hlow, hhigh⟩ := hfound border rest rfl
    dsimp only [windowsOf, id]
    simp only [List.mapM_cons, List.mapM_nil, bind_assoc, pure_bind, map_bind]
    exact @run_join_eq s₁ start stop _ _ _ _ ⟨.wide 1, maxLeaf, width⟩ border (hs₁.uniform hs)
      hsize₁ (hbelow rest start border s₁ (Nat.le_of_lt hlow) (by omega))
      (fun s₂ hs₂ ↦ hbelow rest border stop s₂ (Nat.le_of_lt hhigh) hs₂)
      (hsame rest start border s₁ (hs₁.uniform hs) (Nat.le_of_lt hlow) (by omega))
      fun s₂ huniform hs₂ ↦ hsame rest border stop s₂ huniform (Nat.le_of_lt hhigh) hs₂

/-- The two builders agree on every window, whatever the bits and the fuel. -/
theorem run_grow_eq (fuel : Nat) (bits : List Nat) (level : Nat) (hs : s.Uniform width)
    (h : start ≤ stop) (hsize : stop ≤ s.size) :
    (grow ⟨.binary, maxLeaf, width⟩ fuel bits level start stop).run.run s =
      (asForks <$> grow ⟨.wide 1, maxLeaf, width⟩ fuel bits level start stop).run.run s := by
  induction fuel generalizing bits level start stop s with
  | zero =>
    rw [grow, grow, map_bind, asForks_terminal]
    rfl
  | succ fuel ih =>
    rw [grow, grow, map_bind]
    refine (confined_checkWindow h hsize).run_bind_congr (by rw [id_map]) fun _ s₁ _ hs₁ ↦ ?_
    subst hs₁
    split
    · rw [asForks_terminal]
      rfl
    · exact run_divide_eq hs h hsize
        (fun rest low high _ ↦ confined_grow fuel rest (level + 1))
        fun rest low high _ ↦ ih rest (level + 1)

/-- Trees of patterns of one width that are split on single bits differ in the shape of their nodes
alone. The store is called alike, and a run that it stops stops alike. -/
theorem build_binary_eq (maxLeaf firstBit : Nat) {order : BitOrder} (hs : s.Uniform width)
    (horder : order.length = width) (h : start ≤ stop) (hsize : stop ≤ s.size) :
    ∃ outcome s', (build (.wide 1) maxLeaf order start stop firstBit).run.run s = (outcome, s') ∧
      (build .binary maxLeaf order start stop firstBit).run.run s =
        (outcome.map asForks, s') := by
  subst horder
  refine ⟨_, _, rfl, ?_⟩
  rw [build, run_grow_eq _ _ 0 hs h hsize, run_map]
  rfl

/-- Three rays, in a store that refuses to exchange any a third time. -/
def reluctant : Store := { triple with
  refusals := { swap := fun k ↦ if k = 2 then some (.store "columns are locked") else none } }

/-- Both builders give up over the last two of the three rays. -/
theorem build_binary_eq_reluctant : reluctant.Uniform 4 ∧ (BitOrder.natural 4).length = 4 ∧
    0 ≤ 3 ∧ 3 ≤ reluctant.size ∧
    ∃ outcome s', (build (.wide 1) 1 (.natural 4) 0 3 0).run.run reluctant = (outcome, s') ∧
      (build .binary 1 (.natural 4) 0 3 0).run.run reluctant = (outcome.map asForks, s') := by
  have hs : reluctant.Uniform 4 := ⟨uniform_triple.wellFormed, uniform_triple.capacity_eq⟩
  exact ⟨hs, rfl, by decide, by decide, build_binary_eq 1 0 hs rfl (by decide) (by decide)⟩

example : ((build (.wide 1) 1 (.natural 4) 0 3 0).run.run reluctant).2.calls.reverse =
    [.partition 0 3 0, .read 0, .swap 0 2, .read 0, .swap 0 1, .read 0, .read 0,
      .partition 1 3 1, .read 1, .read 2, .swap 2 2] := by
  decide +kernel

end TreeBuilder
end RayAdjacency
