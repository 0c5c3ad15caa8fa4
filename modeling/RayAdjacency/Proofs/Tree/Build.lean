import RayAdjacency.Proofs.Store.Partition
import RayAdjacency.Proofs.Tree.Unions
import RayAdjacency.Tree.Build

/-!
# Trees over windows of a store

`TreeBuilder.Grown` is what a builder promises about the tree over a window: it holds exactly the
indices of the window, in order, the union of every node has the bits of the patterns below it and
what it can inherit from them, and no node is idle. The promise is kept for every shape, leaf size,
list of bits and amount of fuel, and whatever the store refuses; a store that refuses nothing gets
its tree.
-/

namespace RayAdjacency

namespace Node

/-- Two adjacent windows are one window. -/
theorem indicesFrom_append {a b c : Nat} (hab : a ≤ b) (hbc : b ≤ c) :
    indicesFrom a b ++ indicesFrom b c = indicesFrom a c := by
  have hb : b = a + 1 * (b - a) := by omega
  rw [indicesFrom, indicesFrom, indicesFrom, show c - a = (b - a) + (c - b) by omega,
    ← List.range'_append, ← hb]

/-- The indices of a window lie between its ends. -/
theorem mem_indicesFrom {start stop i : Nat} :
    i ∈ indicesFrom start stop ↔ start ≤ i ∧ i < stop := by
  rw [indicesFrom, List.mem_range'_1]
  omega

end Node

/-- Uniform patterns stay uniform. -/
theorem Store.Rearranged.uniform {s s' : Store} {start stop width : Nat}
    (h : Rearranged start stop s s') (hs : s.Uniform width) : s'.Uniform width :=
  ⟨h.forall_rays hs.wellFormed, h.forall_rays hs.capacity_eq⟩

/-- Sized patterns stay sized. -/
theorem Store.Rearranged.sized {s s' : Store} {start stop : Nat} (h : Rearranged start stop s s')
    (hs : s.Sized) : s'.Sized :=
  h.forall_rays hs

namespace TreeBuilder

open Store Node

variable {b : TreeBuilder} {s s' : Store} {start stop : Nat} {n : Node}

/-- The tree over a window of a store. -/
structure Grown (b : TreeBuilder) (start stop : Nat) (n : Node) (s : Store) : Prop where
  indices_eq : n.indices = indicesFrom start stop
  unites : Everywhere (Unites s) n
  solid : n.isEmpty = false → Everywhere Solid n
  inherits : ∀ {P : Pattern → Prop}, Pattern.Inherited b.width P →
    (∀ ray ∈ s.rays, P ray.pattern) → Everywhere (fun n ↦ P n.union) n

/-- The unions over sized patterns are sized. -/
theorem Grown.sized (h : Grown b start stop n s) (hs : s.Sized) :
    Everywhere (fun n ↦ n.union.Sized) n :=
  h.inherits (Pattern.inherited_sized b.width) hs

/-- The unions over uniform patterns are well formed and have their width. -/
theorem Grown.hasWidth (h : Grown b start stop n s) (hs : s.Uniform b.width) :
    Everywhere (HasWidth b.width) n :=
  (h.inherits (Pattern.inherited_uniform b.width) fun ray hray ↦
    ⟨hs.wellFormed ray hray, hs.capacity_eq ray hray⟩).imp fun _ hn ↦ ⟨hn.1, hn.2⟩

/-- The tree over a window with a ray in it is not empty. -/
theorem Grown.isEmpty_eq_false (h : Grown b start stop n s) (hlt : start < stop) :
    n.isEmpty = false := by
  cases n with
  | empty u =>
    have hindices := h.indices_eq
    rw [indices] at hindices
    have hmem : start ∈ indicesFrom start stop := mem_indicesFrom.mpr ⟨Nat.le_refl _, hlt⟩
    rw [← hindices] at hmem
    cases hmem
  | _ => rfl

/-- A tree does not depend on what happens outside its window. -/
theorem Grown.of_rearranged {start' stop' : Nat} (h : Grown b start stop n s)
    (hs : Rearranged start' stop' s s') (hout : stop ≤ start' ∨ stop' ≤ start) :
    Grown b start stop n s' where
  indices_eq := h.indices_eq
  unites := h.unites.unites_congr fun i hi ↦ by
    rw [h.indices_eq, mem_indicesFrom] at hi
    exact hs.outside i (by omega)
  solid := h.solid
  inherits hP hs' := h.inherits hP fun ray hray ↦ hs' ray
    (Array.mem_toList_iff.mp (hs.perm.mem_iff.mpr (Array.mem_toList_iff.mpr hray)))

/-! ### Terminal nodes -/

/-- What a union over the rays of a list of indices has been extended by. -/
private structure Absorbed (width : Nat) (s : Store) (is : List Nat) (u u' : Pattern) : Prop where
  bit_iff : ∀ k, u'.bit k = true ↔
    u.bit k = true ∨ ∃ i ∈ is, ∃ z, s.pattern? i = some z ∧ z.bit k = true
  inherits : ∀ {P : Pattern → Prop}, Pattern.Inherited width P →
    (∀ ray ∈ s.rays, P ray.pattern) → P u → P u'

private theorem confined_absorb (width : Nat) (is : List Nat) (u : Pattern)
    (h : ∀ i ∈ is, i < s.size) :
    Confined (is.foldlM (fun u i ↦ do return u.absorb (← Store.read i).pattern) u) s start stop
      fun u' s' ↦ s'.rays = s.rays ∧ Absorbed width s is u u' := by
  induction is generalizing u s with
  | nil => exact .pure ⟨rfl, fun k ↦ by simp, fun _ _ hu ↦ hu⟩
  | cons i is ih =>
    rw [List.foldlM_cons, bind_assoc]
    refine (confined_read (h i (.head is))).bind ?_
    rintro ray s₁ hs₁ ⟨hrays, hray⟩
    rw [pure_bind]
    have hz : s.pattern? i = some ray.pattern := by rw [pattern?, hray, Option.map_some]
    have hpattern : s₁.pattern? = s.pattern? := by funext j; rw [pattern?, pattern?, hrays]
    refine (ih (u.absorb ray.pattern) fun j hj ↦ ?_).mono ?_
    · rw [hs₁.size_eq]
      exact h j (.tail i hj)
    · rintro u' s₂ - ⟨hrays₂, hbit, hinherits⟩
      refine ⟨hrays₂.trans hrays, fun k ↦ ?_, fun hP hs hu ↦ ?_⟩
      · rw [hbit, Pattern.bit_absorb, Bool.or_eq_true, hpattern, or_assoc]
        refine or_congr_right ⟨?_, ?_⟩
        · rintro (hk | ⟨j, hj, hk⟩)
          · exact ⟨i, .head is, ray.pattern, hz, hk⟩
          · exact ⟨j, .tail i hj, hk⟩
        · rintro ⟨j, hj, z, hzj, hk⟩
          rcases List.mem_cons.mp hj with rfl | hj
          · rw [hz, Option.some.injEq] at hzj
            exact .inl (hzj ▸ hk)
          · exact .inr ⟨j, hj, z, hzj, hk⟩
      · exact hinherits hP (hrays ▸ hs) (hP.absorb hu (forall_pattern hs hz))

private theorem grown_ofNothing (start : Nat) : Grown b start start (.ofNothing b.width) s where
  indices_eq := by simp [ofNothing, indices, indicesFrom]
  unites := .of_terminal rfl ⟨fun i hi ↦ by simp [ofNothing, indices] at hi, fun k ↦ by
    simp [ofNothing, union, indices, Pattern.bit_zeros], fun u i hn ↦ by cases hn⟩
  solid h := absurd h Bool.noConfusion
  inherits hP _ := .of_terminal rfl hP.zeros

private theorem grown_single {i : Nat} {ray : Ray} (hray : s.rays[i]? = some ray) :
    Grown b i (i + 1) (.single ray.pattern i) s := by
  have hz : s.pattern? i = some ray.pattern := by rw [pattern?, hray, Option.map_some]
  refine ⟨?_, .of_terminal rfl ⟨fun j hj ↦ ?_, fun k ↦ ?_, ?_⟩, fun _ ↦ ?_, fun _ hs ↦ ?_⟩
  · rw [indices, indicesFrom, Nat.add_sub_cancel_left, List.range'_one]
  · rw [indices, List.mem_singleton] at hj
    exact hj ▸ Store.lt_size_of_pattern hz
  · simp [union, indices, hz]
  · rintro u j hn
    cases hn
    exact hz
  · exact .of_terminal rfl ⟨rfl, fun h ↦ absurd h Bool.false_ne_true⟩
  · exact .of_terminal rfl (forall_pattern hs hz)

private theorem grown_leaf {u : Pattern} (hsize : stop ≤ s.size)
    (hu : Absorbed b.width s (indicesFrom start stop) (Pattern.zeros b.width) u) :
    Grown b start stop (.leaf u start stop) s where
  indices_eq := by rw [indices]
  unites := .of_terminal rfl
    { lt_size := fun i hi ↦ by
        rw [indices, mem_indicesFrom] at hi
        omega
      bit_union := fun k ↦ by simpa [union, indices, Pattern.bit_zeros] using hu.bit_iff k
      single := fun _ _ hn ↦ by cases hn }
  solid _ := .of_terminal rfl ⟨rfl, fun h ↦ by cases h⟩
  inherits hP hs := .of_terminal rfl (hu.inherits hP hs hP.zeros)

private theorem Grown.congr (h : Grown b start stop n s) (hs : Rearranged start stop s s')
    (hrays : s'.rays = s.rays) : Grown b start stop n s' := by
  have hkeep : Rearranged stop stop s s' := ⟨hs.refusals, hs.perm, fun i _ ↦ by rw [hrays]⟩
  exact h.of_rearranged hkeep (.inl (Nat.le_refl _))

/-- A window inside the store gets a terminal node, however many rays it holds. -/
theorem confined_terminal (h : start ≤ stop) (hsize : stop ≤ s.size) :
    Confined (b.terminal start stop) s start stop (Grown b start stop) := by
  rw [terminal]
  split
  · next hlen =>
    obtain rfl : stop = start := by omega
    exact .pure (grown_ofNothing stop)
  · next hlen =>
    obtain rfl : stop = start + 1 := by omega
    refine (confined_read (by omega)).bind ?_
    rintro ray s₁ hs₁ ⟨hrays, hray⟩
    exact .pure ((grown_single hray).congr hs₁ hrays)
  · refine (confined_absorb b.width _ _ fun i hi ↦ ?_).bind ?_
    · rw [mem_indicesFrom] at hi
      omega
    · rintro u s₁ hs₁ ⟨hrays, hu⟩
      exact .pure ((grown_leaf hsize hu).congr hs₁ hrays)

/-! ### Separating bits -/

/-- The border at which a bit separates a window lies inside it. -/
theorem confined_separate (bits : List Nat) (h : start ≤ stop) (hsize : stop ≤ s.size) :
    Confined (separate start stop bits) s start stop fun found _ ↦
      ∀ border rest, found = some (border, rest) → start < border ∧ border < stop := by
  induction bits generalizing s with
  | nil => exact .pure fun _ _ h ↦ by cases h
  | cons bit bits ih =>
    refine (confined_partition bit h hsize).bind ?_
    intro border s₁ hs₁ hparted
    have hlow := hparted.le_border
    have hhigh := hparted.border_le
    split
    · next => exact ih (hs₁.size_eq ▸ hsize)
    · next hinside =>
      refine .pure ?_
      rintro border' rest ⟨⟩
      omega

/-- Non-empty windows that lie end to end. -/
def Tiles : Nat → Nat → List (Nat × Nat) → Prop
  | start, stop, [] => start = stop
  | start, stop, (low, high) :: windows => low = start ∧ low < high ∧ Tiles high stop windows

/-- A tiled range does not end before it starts. -/
theorem Tiles.le {windows : List (Nat × Nat)} (h : Tiles start stop windows) :
    start ≤ stop := by
  induction windows generalizing start with
  | nil => exact Nat.le_of_eq h
  | cons w windows ih =>
    obtain ⟨rfl, hlt, htail⟩ := h
    have := ih htail
    omega

/-- Each of the windows is not empty and lies inside. -/
theorem Tiles.mem {windows : List (Nat × Nat)} (h : Tiles start stop windows) {w : Nat × Nat}
    (hw : w ∈ windows) : start ≤ w.1 ∧ w.1 < w.2 ∧ w.2 ≤ stop := by
  induction windows generalizing start with
  | nil => cases hw
  | cons v windows ih =>
    obtain ⟨rfl, hlt, htail⟩ := h
    rcases List.mem_cons.mp hw with rfl | hw
    · exact ⟨Nat.le_refl _, hlt, htail.le⟩
    · obtain ⟨hstart, hw⟩ := ih htail hw
      exact ⟨Nat.le_trans (Nat.le_of_lt hlt) hstart, hw⟩

private theorem Tiles.append {windows : List (Nat × Nat)} {low border high : Nat}
    (hlow : low ≤ border) (hhigh : border ≤ high) (h : Tiles high stop windows) :
    Tiles low stop ((if low < border then [(low, border)] else [])
      ++ (if border < high then [(border, high)] else []) ++ windows) := by
  split <;> split
  · next h1 h2 => exact ⟨rfl, h1, rfl, h2, h⟩
  · next h1 h2 =>
    obtain rfl : border = high := by omega
    exact ⟨rfl, h1, h⟩
  · next h1 h2 =>
    obtain rfl : low = border := by omega
    exact ⟨rfl, h2, h⟩
  · next h1 h2 =>
    obtain rfl : low = high := by omega
    exact h

/-- Refining windows that tile a window leaves windows that tile it. -/
theorem confined_refine (bit : Nat) {windows : List (Nat × Nat)} (h : Tiles start stop windows)
    (hsize : stop ≤ s.size) :
    Confined (refine bit windows) s start stop fun found _ ↦ Tiles start stop found.1 := by
  induction windows generalizing start s with
  | nil => exact .pure h
  | cons w windows ih =>
    obtain ⟨low, high⟩ := w
    obtain ⟨rfl, hlt, htail⟩ := h
    have hhigh := htail.le
    refine ((confined_partition bit (Nat.le_of_lt hlt) (Nat.le_trans hhigh hsize)).widen
      (Nat.le_refl _) hhigh).bind ?_
    intro border s₁ hs₁ hparted
    refine ((ih htail (hs₁.size_eq ▸ hsize)).widen (Nat.le_of_lt hlt) (Nat.le_refl _)).bind ?_
    intro found s₂ _ htiles
    exact .pure (Tiles.append hparted.le_border hparted.border_le htiles)

/-- Refining windows on several bits keeps tiling the window. -/
theorem confined_refineAll (budget : Nat) (bits : List Nat) {windows : List (Nat × Nat)}
    (h : Tiles start stop windows) (hsize : stop ≤ s.size) :
    Confined (refineAll budget windows bits) s start stop fun found _ ↦
      Tiles start stop found.1 := by
  induction bits generalizing budget windows s with
  | nil => cases budget <;> exact .pure h
  | cons bit bits ih =>
    cases budget with
    | zero => exact .pure h
    | succ budget =>
      refine (confined_refine bit h hsize).bind ?_
      rintro ⟨parts, separated⟩ s₁ hs₁ htiles
      have hsize₁ : stop ≤ s₁.size := hs₁.size_eq ▸ hsize
      change Confined (if separated then _ else _) s₁ start stop _
      split
      · next => exact ih budget htiles hsize₁
      · next => exact ih (budget + 1) h hsize₁

/-! ### Internal nodes -/

private theorem unites_of_children (hn : n.isInternal = true)
    (hbit : ∀ k, n.union.bit k = true ↔ ∃ c ∈ n.children, c.union.bit k = true)
    (hchildren : ∀ c ∈ n.children, Everywhere (Unites s) c) : Everywhere (Unites s) n := by
  have hmem : ∀ i, i ∈ n.indices ↔ ∃ c ∈ n.children, i ∈ c.indices := fun i ↦ by
    rw [indices_of_isInternal hn, List.mem_flatMap]
  refine .intro ⟨fun i hi ↦ ?_, fun k ↦ ?_, ?_⟩ hchildren
  · obtain ⟨c, hc, hi⟩ := (hmem i).mp hi
    exact (hchildren c hc).root.lt_size i hi
  · rw [hbit]
    constructor
    · rintro ⟨c, hc, hk⟩
      obtain ⟨i, hi, hz⟩ := ((hchildren c hc).root.bit_union k).mp hk
      exact ⟨i, (hmem i).mpr ⟨c, hc, hi⟩, hz⟩
    · rintro ⟨i, hi, hz⟩
      obtain ⟨c, hc, hi⟩ := (hmem i).mp hi
      exact ⟨c, hc, ((hchildren c hc).root.bit_union k).mpr ⟨i, hi, hz⟩⟩
  · rintro u i rfl
    cases hn

private theorem Grown.join {left right : Node} {border : Nat} (hlow : start < border)
    (hhigh : border < stop) (hl : Grown b start border left s) (hr : Grown b border stop right s) :
    Grown b start stop (.join left right) s := by
  have hchildren {P : Node → Prop} (hl : P left) (hr : P right) :
      ∀ c ∈ (Node.join left right).children, P c := by
    simpa [Node.join, children] using ⟨hl, hr⟩
  refine ⟨?_, unites_of_children rfl (fun k ↦ ?_) (hchildren hl.unites hr.unites), fun _ ↦
    .intro ⟨rfl, fun _ ↦ Nat.le_refl _⟩ (hchildren (hl.solid (hl.isEmpty_eq_false hlow))
      (hr.solid (hr.isEmpty_eq_false hhigh))), fun hP hs ↦ ?_⟩
  · rw [Node.join, indices, hl.indices_eq, hr.indices_eq,
      indicesFrom_append (Nat.le_of_lt hlow) (Nat.le_of_lt hhigh)]
  · simp [Node.join, union, children, Pattern.bit_union]
  · have hleft := hl.inherits hP hs
    have hright := hr.inherits hP hs
    exact .intro (hP.union hleft.root hright.root) (hchildren hleft hright)

private theorem bit_foldl_absorb (ns : List Node) (u : Pattern) (k : Nat) :
    (ns.foldl (fun u n ↦ u.absorb n.union) u).bit k = true ↔
      u.bit k = true ∨ ∃ n ∈ ns, n.union.bit k = true := by
  induction ns generalizing u with
  | nil => simp
  | cons n ns ih => simp [ih, Pattern.bit_absorb, or_assoc]

private theorem inherits_foldl_absorb {width : Nat} {P : Pattern → Prop}
    (hP : Pattern.Inherited width P) {ns : List Node} (h : ∀ n ∈ ns, P n.union) {u : Pattern}
    (hu : P u) : P (ns.foldl (fun u n ↦ u.absorb n.union) u) := by
  induction ns generalizing u with
  | nil => exact hu
  | cons n ns ih => exact ih (fun m hm ↦ h m (.tail n hm)) (hP.absorb hu (h n (.head ns)))

/-- Trees over windows that tile a window hold its indices. -/
theorem indices_of_tiles {windows : List (Nat × Nat)} {ns : List Node}
    (h : Tiles start stop windows)
    (hns : List.Forall₂ (fun w n ↦ n.indices = indicesFrom w.1 w.2) windows ns) :
    ns.flatMap indices = indicesFrom start stop := by
  induction hns generalizing start with
  | nil =>
    obtain rfl : start = stop := h
    simp [indicesFrom]
  | @cons w n windows ns hn _ ih =>
    obtain ⟨rfl, hlt, htail⟩ := h
    rw [List.flatMap_cons, hn, ih htail, indicesFrom_append (Nat.le_of_lt hlt) htail.le]

private theorem Grown.joinAll {windows : List (Nat × Nat)} {first second : Node} {rest : List Node}
    (h : Tiles start stop windows)
    (hns : List.Forall₂ (fun w n ↦ Grown b w.1 w.2 n s) windows (first :: second :: rest)) :
    ∃ n, Node.joinAll (first :: second :: rest) = .ok n ∧ Grown b start stop n s := by
  have hmem : ∀ c ∈ first :: second :: rest, ∃ w ∈ windows, Grown b w.1 w.2 c s := fun c hc ↦ by
    obtain ⟨i, hi, rfl⟩ := List.getElem_of_mem hc
    have hi' : i < windows.length := hns.length_eq ▸ hi
    exact ⟨windows[i], List.getElem_mem hi', hns.get hi' hi⟩
  refine ⟨_, rfl, ?_, unites_of_children rfl (fun k ↦ ?_) fun c hc ↦ ?_, fun _ ↦
    .intro ⟨rfl, fun _ ↦ ?_⟩ fun c hc ↦ ?_, fun {P} hP hs ↦ ?_⟩
  · rw [indices, indicesAll_eq, indices_of_tiles h (hns.imp fun _ _ hn ↦ hn.indices_eq)]
  · change ((second :: rest).foldl (fun u n ↦ u.absorb n.union) first.union).bit k = true ↔ _
    rw [bit_foldl_absorb]
    simp only [children, List.mem_cons, exists_eq_or_imp]
  · obtain ⟨w, -, hg⟩ := hmem c hc
    exact hg.unites
  · simp [children]
  · obtain ⟨w, hw, hg⟩ := hmem c hc
    exact hg.solid (hg.isEmpty_eq_false (h.mem hw).2.1)
  · have hchildren : ∀ c ∈ first :: second :: rest, Everywhere (fun n ↦ P n.union) c := by
      intro c hc
      obtain ⟨w, -, hg⟩ := hmem c hc
      exact hg.inherits hP hs
    have hunion := inherits_foldl_absorb hP (fun c hc ↦ (hchildren c (.tail first hc)).root)
      (hchildren first (.head _)).root
    exact .intro hunion hchildren

/-- A statement about a window that does not depend on what happens outside it. -/
def Local (P : Nat × Nat → Store → Prop) : Prop :=
  ∀ w s s' start stop, Rearranged start stop s s' → w.2 ≤ start ∨ stop ≤ w.1 → P w s → P w s'

/-- Working on each of several windows that tile a window. -/
theorem confined_mapM {α : Type} {f : Nat × Nat → StoreM α} {pre : Nat × Nat → Store → Prop}
    {post : α → Nat × Nat → Store → Prop} (hpre : Local pre) (hpost : ∀ a, Local (post a))
    {windows : List (Nat × Nat)}
    (hf : ∀ w ∈ windows, ∀ s : Store, w.2 ≤ s.size → pre w s →
      Confined (f w) s w.1 w.2 fun a s' ↦ post a w s')
    (h : Tiles start stop windows) (hready : ∀ w ∈ windows, pre w s) (hsize : stop ≤ s.size) :
    Confined (windows.mapM f) s start stop fun as s' ↦
      List.Forall₂ (fun w a ↦ post a w s') windows as := by
  induction windows generalizing start s with
  | nil => exact .pure .nil
  | cons w windows ih =>
    obtain ⟨rfl, hlt, htail⟩ := h
    rw [List.mapM_cons]
    have hhigh := htail.le
    refine ((hf w (.head _) s (Nat.le_trans hhigh hsize) (hready w (.head _))).within
      (Nat.le_refl _) hhigh).bind ?_
    rintro a s₁ - ⟨hs₁, ha⟩
    have hready₁ : ∀ v ∈ windows, pre v s₁ := fun v hv ↦
      hpre v s s₁ _ _ hs₁ (.inr (htail.mem hv).1) (hready v (.tail w hv))
    -- The first window lies outside the windows that are still to be worked on.
    refine Confined.widen ?_ (Nat.le_of_lt hlt) (Nat.le_refl _)
    refine (ih (fun v hv ↦ hf v (.tail w hv)) htail hready₁ (hs₁.size_eq ▸ hsize)).bind ?_
    intro as s₂ hs₂ has
    exact .pure (.cons (hpost a w s₁ s₂ _ _ hs₂ (.inl (Nat.le_refl _)) ha) has)

private theorem confined_joinAll {windows : List (Nat × Nat)} {ns : List Node}
    (h : Tiles start stop windows) (htwo : 2 ≤ windows.length)
    (hns : List.Forall₂ (fun w n ↦ Grown b w.1 w.2 n s) windows ns) :
    Confined (liftExcept (Node.joinAll ns)) s start stop (Grown b start stop) := by
  rw [hns.length_eq] at htwo
  match ns, htwo with
  | first :: second :: rest, _ =>
    obtain ⟨n, hn, hgrown⟩ := Grown.joinAll h hns
    rw [hn]
    exact .pure hgrown

/-- A window inside the store passes its check. -/
theorem confined_checkWindow (h : start ≤ stop) (hsize : stop ≤ s.size) :
    Confined (checkWindow start stop) s start stop fun _ s' ↦ s' = s := by
  rw [checkWindow, if_neg (by omega)]
  refine .get_bind ?_
  rw [if_neg (by omega)]
  exact .pure rfl

private theorem confined_divide {below : List Nat → Nat → Nat → StoreM Node}
    (hbelow : ∀ (rest : List Nat) (low high : Nat) (s : Store), low ≤ high → high ≤ s.size →
      Confined (below rest low high) s low high (Grown b low high))
    (bits : List Nat) (level : Nat) (h : start < stop) (hsize : stop ≤ s.size) :
    Confined (b.divide below bits level start stop) s start stop (Grown b start stop) := by
  have hle : start ≤ stop := Nat.le_of_lt h
  rw [divide]
  split
  · refine (confined_separate bits hle hsize).bind ?_
    intro found s₁ hs₁ hfound
    have hsize₁ : stop ≤ s₁.size := hs₁.size_eq ▸ hsize
    match found, hfound with
    | none, _ => exact confined_terminal hle hsize₁
    | some (border, rest), hfound =>
      obtain ⟨hlow, hhigh⟩ := hfound border rest rfl
      refine ((hbelow rest start border s₁ (by omega) (by omega)).widen (Nat.le_refl _)
        (Nat.le_of_lt hhigh)).bind ?_
      intro left s₂ hs₂ hleft
      have hsize₂ : stop ≤ s₂.size := hs₂.size_eq ▸ hsize₁
      refine Confined.widen ?_ (Nat.le_of_lt hlow) (Nat.le_refl _)
      refine (hbelow rest border stop s₂ (by omega) hsize₂).bind ?_
      intro right s₃ hs₃ hright
      exact .pure (.join hlow hhigh (hleft.of_rearranged hs₃ (.inl (Nat.le_refl _))) hright)
  · have hwindow : Tiles start stop [(start, stop)] := ⟨rfl, h, rfl⟩
    refine (confined_refineAll _ bits hwindow hsize).bind ?_
    rintro ⟨windows, rest⟩ s₁ hs₁ htiles
    have hsize₁ : stop ≤ s₁.size := hs₁.size_eq ▸ hsize
    match windows, htiles with
    | [], _ | [_], _ => exact confined_terminal hle hsize₁
    | first :: second :: windows, htiles =>
      have htrees : ∀ n, Local fun w s ↦ Grown b w.1 w.2 n s :=
        fun n w s s' _ _ hs hout hn ↦ hn.of_rearranged hs hout
      have hwindows : ∀ w ∈ first :: second :: windows, ∀ s : Store, w.2 ≤ s.size → True →
          Confined (below rest w.1 w.2) s w.1 w.2 (Grown b w.1 w.2) :=
        fun w hw s hw₂ _ ↦ hbelow rest w.1 w.2 s (Nat.le_of_lt (htiles.mem hw).2.1) hw₂
      refine (confined_mapM (fun _ _ _ _ _ _ _ _ ↦ trivial) htrees hwindows htiles
        (fun _ _ ↦ trivial) hsize₁).bind ?_
      intro children s₂ _ hchildren
      exact confined_joinAll htiles (by simp) hchildren

/-- A window inside the store gets its tree, whatever the bits and the fuel. -/
theorem confined_grow (fuel : Nat) (bits : List Nat) (level : Nat) (h : start ≤ stop)
    (hsize : stop ≤ s.size) :
    Confined (b.grow fuel bits level start stop) s start stop (Grown b start stop) := by
  induction fuel generalizing bits level start stop s with
  | zero =>
    refine (confined_checkWindow h hsize).bind ?_
    rintro _ _ _ rfl
    exact confined_terminal h hsize
  | succ fuel ih =>
    refine (confined_checkWindow h hsize).bind ?_
    rintro _ _ _ rfl
    split
    · exact confined_terminal h hsize
    · exact confined_divide (fun rest _ _ _ ↦ ih rest (level + 1)) bits level (by omega) hsize

/-- The tree over all rays of a store. -/
theorem confined_buildAll (shape : NodeShape) (maxLeaf : Nat) (order : BitOrder) :
    Confined (buildAll shape maxLeaf order) s 0 s.size fun built s' ↦
      Grown ⟨shape, maxLeaf, order.length⟩ 0 s.size built.1 s' := by
  refine .get_bind ?_
  refine (confined_grow _ _ 0 (Nat.zero_le _) (Nat.le_refl _)).bind ?_
  exact fun _ _ _ h ↦ .pure h

end TreeBuilder
end RayAdjacency
