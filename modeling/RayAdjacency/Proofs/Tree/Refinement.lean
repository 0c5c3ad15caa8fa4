import RayAdjacency.Proofs.Tree.Shapes

/-!
# Windows refined on several bits

A wide node is split by refining its window on bit after bit. `Sorted` is the invariant: on each bit
that has been tried the rays of every window agree, and of two windows the first one has a tried bit
clear that the second one has set. Later work on the parts of a window only exchanges rays inside
them, which `Store.Keeps` states in the form that is needed: whatever holds of all rays of a window
keeps holding of them.
-/

namespace RayAdjacency

namespace Store

variable {s s' s'' : Store} {start stop bit : Nat} {w v : Nat × Nat} {P : Ray → Prop}

/-- A property of all rays of a window. -/
def HoldsOn (s : Store) (P : Ray → Prop) (w : Nat × Nat) : Prop :=
  ∀ i ray, w.1 ≤ i → i < w.2 → s.rays[i]? = some ray → P ray

/-- All rays of a window have a bit set, or all have it clear. -/
def Shows (s : Store) (bit : Nat) (value : Bool) (w : Nat × Nat) : Prop :=
  s.HoldsOn (fun ray ↦ ray.pattern.contains bit = value) w

/-- The rays of a window agree on a bit. -/
def Constant (s : Store) (bit : Nat) (w : Nat × Nat) : Prop := ∃ value, s.Shows bit value w

/-- What holds of the rays of a window keeps holding. -/
def Keeps (w : Nat × Nat) (s s' : Store) : Prop := ∀ P, s.HoldsOn P w → s'.HoldsOn P w

/-- What holds on a window holds on a part of it. -/
theorem HoldsOn.part (h : s.HoldsOn P w) (hstart : w.1 ≤ v.1) (hstop : v.2 ≤ w.2) :
    s.HoldsOn P v :=
  fun i ray hi hlt hray ↦ h i ray (Nat.le_trans hstart hi) (Nat.lt_of_lt_of_le hlt hstop) hray

/-- A bit that is constant on a window is so on every part of it. -/
theorem Constant.part (h : s.Constant bit w) (hstart : w.1 ≤ v.1) (hstop : v.2 ≤ w.2) :
    s.Constant bit v := by
  obtain ⟨value, hvalue⟩ := h
  exact ⟨value, hvalue.part hstart hstop⟩

/-- One ray agrees with itself. -/
theorem constant_of_le (s : Store) (bit : Nat) (h : stop ≤ start + 1) :
    s.Constant bit (start, stop) := by
  cases hstart : s.rays[start]? with
  | none =>
    refine ⟨true, fun i ray hi hlt hray ↦ ?_⟩
    obtain rfl : i = start := by dsimp only at hi hlt; omega
    rw [hstart] at hray
    cases hray
  | some r =>
    refine ⟨r.pattern.contains bit, fun i ray hi hlt hray ↦ ?_⟩
    obtain rfl : i = start := by dsimp only at hi hlt; omega
    rw [hstart, Option.some.injEq] at hray
    rw [hray]

namespace Keeps

/-- What is kept twice in a row is kept. -/
theorem trans (h : Keeps w s s') (h' : Keeps w s' s'') : Keeps w s s'' := fun P hP ↦ h' P (h P hP)

/-- A bit that is constant on a window stays so as long as the window is kept. -/
theorem constant (h : Keeps w s s') (hc : s.Constant bit w) : s'.Constant bit w := by
  obtain ⟨value, hvalue⟩ := hc
  exact ⟨value, h _ hvalue⟩

end Keeps

namespace Rearranged

/-- A window keeps what holds of its rays when they are rearranged. -/
theorem keeps (h : Rearranged start stop s s') (hstart : start ≤ stop) (hstop : stop ≤ s.size) :
    Keeps (start, stop) s s' := by
  intro P hP i ray hi hlt hray
  have hmem : ray ∈ s'.rays.extract start stop := by
    refine Array.mem_iff_getElem?.mpr ⟨i - start, ?_⟩
    have hsize : i < s'.rays.size := (Array.getElem?_eq_some_iff.mp hray).1
    rw [Array.getElem?_extract, if_pos (by omega), Nat.add_sub_cancel' hi, hray]
  rw [(h.window_perm hstart hstop).mem_iff] at hmem
  obtain ⟨k, hk⟩ := Array.mem_iff_getElem?.mp hmem
  rw [Array.getElem?_extract] at hk
  split at hk
  · next hlen => exact hP (start + k) ray (by omega) (by omega) hk
  · cases hk

/-- A window keeps what holds of its rays when others are rearranged. -/
theorem keeps_outside (h : Rearranged start stop s s') (hout : w.2 ≤ start ∨ stop ≤ w.1) :
    Keeps w s s' := by
  intro P hP i ray hi hlt hray
  rw [h.outside i (by omega)] at hray
  exact hP i ray hi hlt hray

end Rearranged

/-- A window that is parted on a bit without being separated agrees on it. -/
theorem Parted.constant {border : Nat} (h : Parted bit start stop border s)
    (hborder : border = start ∨ border = stop) : s.Constant bit (start, stop) := by
  rcases hborder with rfl | rfl
  · exact ⟨true, h.set⟩
  · exact ⟨false, h.clear⟩

end Store

namespace TreeBuilder

open Store

variable {s s' : Store} {start stop bit : Nat} {tried : List Nat} {w : Nat × Nat}
  {windows : List (Nat × Nat)}

/-- Windows whose rays agree on each tried bit, and of which each one has a tried bit clear that any
later one has set. -/
structure Sorted (tried : List Nat) (windows : List (Nat × Nat)) (s : Store) : Prop where
  constant : ∀ w ∈ windows, ∀ bit ∈ tried, s.Constant bit w
  pairwise : windows.Pairwise fun v w ↦ ∃ bit ∈ tried, s.Shows bit false v ∧ s.Shows bit true w

/-- Windows that keep their rays stay sorted. -/
theorem Sorted.keep (h : Sorted tried windows s) (hs : ∀ w ∈ windows, Keeps w s s') :
    Sorted tried windows s' where
  constant w hw bit hbit := (hs w hw).constant (h.constant w hw bit hbit)
  pairwise := h.pairwise.imp_of_mem fun hv hw ⟨bit, hbit, hclear, hset⟩ ↦
    ⟨bit, hbit, hs _ hv _ hclear, hs _ hw _ hset⟩

/-- What refining windows on a bit does to them. -/
structure Refines (bit : Nat) (tried : List Nat) (windows : List (Nat × Nat)) (s s' : Store)
    (found : List (Nat × Nat) × Bool) : Prop where
  keeps : ∀ w ∈ windows, Keeps w s s'
  inside : ∀ v ∈ found.1, ∃ w ∈ windows, w.1 ≤ v.1 ∧ v.2 ≤ w.2
  sorted : Sorted (tried ++ [bit]) found.1 s'
  length_le : found.1.length ≤ 2 * windows.length
  lt_length : found.2 = true → windows.length < found.1.length
  unchanged : found.2 = false → found.1 = windows

/-- Refining loses no window. -/
theorem Refines.le_length {found : List (Nat × Nat) × Bool}
    (h : Refines bit tried windows s s' found) : windows.length ≤ found.1.length := by
  cases hfound : found.2 with
  | false => rw [h.unchanged hfound]
  | true => exact Nat.le_of_lt (h.lt_length hfound)

private theorem Refines.of_parted {low high border : Nat} (hlt : low < high) (hsize : high ≤ s.size)
    (hs : Rearranged low high s s') (h : Parted bit low high border s') :
    Refines bit [] [(low, high)] s s'
      ((if low < border then [(low, border)] else []) ++
        (if border < high then [(border, high)] else []), low < border && border < high) := by
  have hlow := h.le_border
  have hhigh := h.border_le
  have hkeeps : ∀ w ∈ [(low, high)], Keeps w s s' := by
    simpa using hs.keeps (Nat.le_of_lt hlt) hsize
  by_cases hborder : border = low ∨ border = high
  · have hparts : ((if low < border then [(low, border)] else []) ++
        (if border < high then [(border, high)] else [])) = [(low, high)] := by
      rcases hborder with rfl | rfl <;> simp [hlt]
    have hnot : (decide (low < border) && decide (border < high)) = false := by
      rcases hborder with rfl | rfl <;> simp
    rw [hparts, hnot]
    refine ⟨hkeeps, by simp, ⟨?_, List.pairwise_singleton _ _⟩, by simp, by simp, fun _ ↦ rfl⟩
    simpa using h.constant hborder
  · have hinside : low < border ∧ border < high := by omega
    simp only [hinside, if_true, decide_true, Bool.and_self, List.cons_append, List.nil_append]
    refine ⟨hkeeps, ?_, ⟨?_, ?_⟩, by simp, by simp, by simp⟩
    · simp only [List.mem_cons, List.not_mem_nil, or_false, exists_eq_left]
      rintro v (rfl | rfl)
      · exact ⟨Nat.le_refl _, hhigh⟩
      · exact ⟨hlow, Nat.le_refl _⟩
    · simp only [List.mem_cons, List.not_mem_nil, or_false, List.nil_append, forall_eq]
      rintro v (rfl | rfl)
      · exact ⟨false, h.clear⟩
      · exact ⟨true, h.set⟩
    · simp only [List.nil_append, List.mem_singleton, exists_eq_left, List.pairwise_cons, forall_eq,
        List.not_mem_nil, false_implies, implies_true, List.Pairwise.nil, and_true]
      exact ⟨h.clear, h.set⟩

private theorem Refines.cons {s₁ : Store} {own parts : List (Nat × Nat)}
    {ownSeparated separated : Bool} (hsorted : Sorted tried (w :: windows) s)
    (htail : Tiles w.2 stop windows) (hs : Rearranged w.1 w.2 s s₁)
    (hs' : Rearranged w.2 stop s₁ s') (hown : Refines bit [] [w] s s₁ (own, ownSeparated))
    (hparts : Refines bit tried windows s₁ s' (parts, separated)) :
    Refines bit tried (w :: windows) s s' (own ++ parts, separated || ownSeparated) := by
  have hinside : ∀ v ∈ own, w.1 ≤ v.1 ∧ v.2 ≤ w.2 := fun v hv ↦ by
    simpa using hown.inside v hv
  -- The parts of the first window are finished when the others are begun.
  have hfinished : ∀ v, v.2 ≤ w.2 → Keeps v s₁ s' := fun v hv ↦ hs'.keeps_outside (.inl hv)
  have hkeeps : Keeps w s s' :=
    (hown.keeps w (.head _)).trans (hfinished w (Nat.le_refl _))
  have hkeeps' : ∀ v ∈ windows, Keeps v s s' := fun v hv ↦
    (hs.keeps_outside (.inr (htail.mem hv).1)).trans (hparts.keeps v hv)
  refine ⟨?_, ?_, ⟨?_, ?_⟩, ?_, ?_, ?_⟩
  · simpa using ⟨hkeeps, fun a b hv ↦ hkeeps' (a, b) hv⟩
  · intro v hv
    rcases List.mem_append.mp hv with hv | hv
    · exact ⟨w, .head _, hinside v hv⟩
    · obtain ⟨w', hw', hin⟩ := hparts.inside v hv
      exact ⟨w', .tail _ hw', hin⟩
  · intro v hv bit' hbit
    rcases List.mem_append.mp hv with hv | hv
    · rcases List.mem_append.mp hbit with hold | hnew
      · exact (hkeeps.constant (hsorted.constant w (.head _) bit' hold)).part (hinside v hv).1
          (hinside v hv).2
      · exact (hfinished v (hinside v hv).2).constant (hown.sorted.constant v hv bit' hnew)
    · exact hparts.sorted.constant v hv bit' hbit
  · refine List.pairwise_append.mpr ⟨?_, hparts.sorted.pairwise, fun v hv p hp ↦ ?_⟩
    · refine hown.sorted.pairwise.imp_of_mem ?_
      rintro v v' hv hv' ⟨bit', hbit, hclear, hset⟩
      exact ⟨bit', List.mem_append_right tried hbit, hfinished v (hinside v hv).2 _ hclear,
        hfinished v' (hinside v' hv').2 _ hset⟩
    · obtain ⟨w', hw', hin⟩ := hparts.inside p hp
      obtain ⟨bit', hbit, hclear, hset⟩ := (List.pairwise_cons.mp hsorted.pairwise).1 w' hw'
      exact ⟨bit', List.mem_append_left _ hbit,
        (hkeeps _ hclear).part (hinside v hv).1 (hinside v hv).2,
        (hkeeps' w' hw' _ hset).part hin.1 hin.2⟩
  · have := hown.length_le
    have := hparts.length_le
    simp only [List.length_append, List.length_cons, List.length_nil] at *
    omega
  · intro hsome
    have hle : 1 ≤ own.length := hown.le_length
    have hle' : windows.length ≤ parts.length := hparts.le_length
    simp only [List.length_append, List.length_cons]
    rcases Bool.or_eq_true_iff.mp hsome with hrest | hfirst
    · have hmore : windows.length < parts.length := hparts.lt_length hrest
      omega
    · have hmore : 1 < own.length := hown.lt_length hfirst
      omega
  · intro hnone
    obtain ⟨hrest, hfirst⟩ : separated = false ∧ ownSeparated = false := by simpa using hnone
    have h₁ := hown.unchanged hfirst
    have h₂ := hparts.unchanged hrest
    dsimp only at h₁ h₂ ⊢
    rw [h₁, h₂, List.singleton_append]

/-- Refining sorted windows on a bit leaves windows that are sorted on one bit more. -/
theorem confined_refine_sorted (bit : Nat) (h : Tiles start stop windows)
    (hsorted : Sorted tried windows s) (hsize : stop ≤ s.size) :
    Confined (refine bit windows) s start stop fun found s' ↦
      Refines bit tried windows s s' found := by
  induction windows generalizing start s with
  | nil => exact .pure ⟨by simp, by simp, ⟨by simp, .nil⟩, by simp, by simp, fun _ ↦ rfl⟩
  | cons w windows ih =>
    obtain ⟨rfl, hlt, htail⟩ := h
    have hhigh := htail.le
    have hlast : w.2 ≤ s.size := Nat.le_trans hhigh hsize
    refine ((confined_partition bit (Nat.le_of_lt hlt) hlast).within (Nat.le_refl _) hhigh).bind ?_
    rintro border s₁ - ⟨hs₁, hparted⟩
    have hsorted₁ : Sorted tried windows s₁ :=
      Sorted.keep ⟨fun v hv ↦ hsorted.constant v (.tail _ hv), hsorted.pairwise.tail⟩ fun v hv ↦
        hs₁.keeps_outside (.inr (htail.mem hv).1)
    refine ((ih htail hsorted₁ (hs₁.size_eq ▸ hsize)).within (Nat.le_of_lt hlt)
      (Nat.le_refl _)).bind ?_
    rintro ⟨parts, separated⟩ s₂ - ⟨hs₂, hparts⟩
    exact .pure (.cons hsorted htail hs₁ hs₂ (.of_parted hlt hlast hs₁ hparted) hparts)

/-- What refining windows on several bits does to them. -/
structure Sifts (tried : List Nat) (budget : Nat) (windows : List (Nat × Nat)) (bits : List Nat)
    (found : List (Nat × Nat) × List Nat) (s : Store) : Prop where
  sorted : ∃ more, bits = more ++ found.2 ∧ Sorted (tried ++ more) found.1 s
  le_length : windows.length ≤ found.1.length
  length_le : found.1.length ≤ windows.length * 2 ^ budget
  /-- The bits are used up if none has separated a window. -/
  exhausted : 0 < budget → found.1.length = windows.length → found.2 = []
  /-- A separation takes a bit. -/
  consumed : windows.length < found.1.length → found.2.length < bits.length

/-- The bits left are some of the bits. -/
theorem Sifts.subset {budget : Nat} {bits : List Nat} {found : List (Nat × Nat) × List Nat}
    (h : Sifts tried budget windows bits found s) : found.2 ⊆ bits := by
  obtain ⟨more, hbits, -⟩ := h.sorted
  exact hbits ▸ List.subset_append_right more found.2

private theorem Sifts.refl (hsorted : Sorted tried windows s) {budget : Nat} {bits : List Nat}
    (hdone : 0 < budget → bits = []) : Sifts tried budget windows bits (windows, bits) s where
  sorted := ⟨[], rfl, by rwa [List.append_nil]⟩
  le_length := Nat.le_refl _
  length_le := Nat.le_mul_of_pos_right _ (Nat.two_pow_pos _)
  exhausted hbudget _ := hdone hbudget
  consumed h := absurd h (Nat.lt_irrefl _)

/-- Refining sorted windows on several bits leaves windows that are sorted on all bits tried. -/
theorem confined_refineAll_sorted (budget : Nat) (bits : List Nat) (h : Tiles start stop windows)
    (hsorted : Sorted tried windows s) (hsize : stop ≤ s.size) :
    Confined (refineAll budget windows bits) s start stop fun found s' ↦
      Sifts tried budget windows bits found s' := by
  induction bits generalizing budget windows tried s with
  | nil => cases budget <;> exact .pure (.refl hsorted fun _ ↦ rfl)
  | cons bit bits ih =>
    cases budget with
    | zero => exact .pure (.refl hsorted fun hpos ↦ absurd hpos (Nat.lt_irrefl _))
    | succ budget =>
      refine ((confined_refine bit h hsize).and
        (confined_refine_sorted bit h hsorted hsize)).bind ?_
      rintro ⟨parts, separated⟩ s₁ hs₁ ⟨htiles, hrefines⟩
      have hsize₁ : stop ≤ s₁.size := hs₁.size_eq ▸ hsize
      change Confined (if separated then _ else _) s₁ start stop _
      cases separated with
      | true =>
        have hmore := hrefines.lt_length rfl
        have htwice := hrefines.length_le
        refine (ih budget htiles hrefines.sorted hsize₁).mono ?_
        rintro ⟨found, rest⟩ s₂ - ⟨⟨more, rfl, hmoreSorted⟩, hle, hlength, -, -⟩
        have hgrown : windows.length < found.length := Nat.lt_of_lt_of_le hmore hle
        refine ⟨⟨bit :: more, rfl, ?_⟩, Nat.le_of_lt hgrown, ?_, fun _ heq ↦ ?_, fun _ ↦ ?_⟩
        · rwa [List.append_assoc, List.singleton_append] at hmoreSorted
        · calc found.length ≤ parts.length * 2 ^ budget := hlength
            _ ≤ 2 * windows.length * 2 ^ budget := Nat.mul_le_mul_right _ htwice
            _ = windows.length * 2 ^ (budget + 1) := by
              rw [Nat.pow_succ', Nat.mul_comm 2, Nat.mul_assoc]
        · exact absurd heq (Nat.ne_of_gt hgrown)
        · simp only [List.length_cons, List.length_append]
          omega
      | false =>
        obtain rfl : parts = windows := hrefines.unchanged rfl
        refine (ih (budget + 1) h hrefines.sorted hsize₁).mono ?_
        rintro ⟨found, rest⟩ s₂ - ⟨⟨more, rfl, hmoreSorted⟩, hle, hlength, hexhausted, hconsumed⟩
        refine ⟨⟨bit :: more, rfl, ?_⟩, hle, hlength, hexhausted, fun hlt ↦ ?_⟩
        · rwa [List.append_assoc, List.singleton_append] at hmoreSorted
        · exact Nat.lt_succ_of_lt (hconsumed hlt)

end TreeBuilder
end RayAdjacency
