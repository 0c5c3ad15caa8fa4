import Mathlib.Data.List.Perm.Basic
import RayAdjacency.Proofs.Computation
import RayAdjacency.Store

/-!
# Rearranging a window of a store

Whatever a tree builder does to a store, it only exchanges rays of the window that it works on.
`Store.Rearranged` says so of two states of a store, and `Store.Confined` of a computation: however
it ends, the rays of the window are rearranged and all others are where they were, and it stops
only where the store has refused a call. The statements hold for every pattern of refusals.
-/

namespace RayAdjacency.Store

variable {α β : Type} {s s' s'' : Store} {start stop : Nat}

/-- A store that refuses no call. -/
structure Answers (s : Store) : Prop where
  read : ∀ k i ray, s.refusals.read k i ray = none
  swap : ∀ k, s.refusals.swap k = none

/-- A store whose rays can all be read, however often. -/
def Readable (s : Store) : Prop :=
  ∀ k i ray, s.rays[i]? = some ray → s.refusals.read k i ray = none

/-- Where no call is refused, the rays can be read. -/
theorem Answers.readable (h : s.Answers) : s.Readable := fun k i ray _ ↦ h.read k i ray

/-- A stop that a store causes by a refusal. -/
def Refused (s : Store) (e : Stop) : Prop := ¬s.Answers ∧ ∃ failure, e = .failed failure

/-- A store after a computation that has exchanged rays of a window only. -/
structure Rearranged (start stop : Nat) (s s' : Store) : Prop where
  refusals : s'.refusals = s.refusals
  perm : s'.rays.toList.Perm s.rays.toList
  outside : ∀ i, i < start ∨ stop ≤ i → s'.rays[i]? = s.rays[i]?

namespace Rearranged

/-- A store that only counts its calls keeps its rays. -/
theorem of_rays_eq (hr : s'.refusals = s.refusals) (h : s'.rays = s.rays) :
    Rearranged start stop s s' :=
  ⟨hr, h ▸ .refl _, fun _ _ ↦ by rw [h]⟩

/-- Nothing has happened. -/
theorem refl (s : Store) : Rearranged start stop s s := of_rays_eq rfl rfl

/-- One rearrangement after the other. -/
theorem trans (h : Rearranged start stop s s') (h' : Rearranged start stop s' s'') :
    Rearranged start stop s s'' :=
  ⟨h'.refusals.trans h.refusals, h'.perm.trans h.perm,
    fun i hi ↦ (h'.outside i hi).trans (h.outside i hi)⟩

/-- A rearrangement of a window is one of a larger window. -/
theorem mono {start' stop' : Nat} (h : Rearranged start stop s s') (hstart : start' ≤ start)
    (hstop : stop ≤ stop') : Rearranged start' stop' s s' :=
  ⟨h.refusals, h.perm, fun i hi ↦ h.outside i (by omega)⟩

/-- The number of rays stays. -/
theorem size_eq (h : Rearranged start stop s s') : s'.size = s.size := by
  have := h.perm.length_eq
  simpa [size] using this

/-- Which calls are refused stays. -/
theorem answers_iff (h : Rearranged start stop s s') : s'.Answers ↔ s.Answers := by
  constructor
  · rintro ⟨hr, hs⟩
    exact ⟨h.refusals ▸ hr, h.refusals ▸ hs⟩
  · rintro ⟨hr, hs⟩
    exact ⟨h.refusals ▸ hr, h.refusals ▸ hs⟩

/-- What causes a stop stays. -/
theorem refused_iff (h : Rearranged start stop s s') {e : Stop} : s'.Refused e ↔ s.Refused e := by
  rw [Refused, Refused, h.answers_iff]

/-- What holds of all rays keeps holding of all rays. -/
theorem forall_rays (h : Rearranged start stop s s') {P : Ray → Prop}
    (hP : ∀ ray ∈ s.rays, P ray) : ∀ ray ∈ s'.rays, P ray := by
  intro ray hray
  exact hP ray (Array.mem_toList_iff.mp (h.perm.mem_iff.mp (Array.mem_toList_iff.mpr hray)))

end Rearranged

private theorem extract_eq (low high : Nat)
    (h : ∀ i, low ≤ i → i < high → s'.rays[i]? = s.rays[i]?)
    (hsize : s'.rays.size = s.rays.size) : s'.rays.extract low high = s.rays.extract low high := by
  refine Array.ext_getElem? fun i ↦ ?_
  rw [Array.getElem?_extract, Array.getElem?_extract, hsize]
  split
  · next hi => exact h (low + i) (by omega) (by omega)
  · rfl

private theorem toList_eq_windows (rays : Array Ray) (hstart : start ≤ stop)
    (hstop : stop ≤ rays.size) : rays.toList = (rays.extract 0 start).toList ++
      ((rays.extract start stop).toList ++ (rays.extract stop rays.size).toList) := by
  rw [← Array.toList_append, ← Array.toList_append, Array.extract_append_extract,
    Nat.min_eq_left hstart, Nat.max_eq_right hstop, Array.extract_append_extract, Nat.zero_min,
    Nat.max_eq_right (Nat.le_trans hstart hstop), Array.extract_size]

/-- What is rearranged is the window itself. -/
theorem Rearranged.window_perm (h : Rearranged start stop s s') (hstart : start ≤ stop)
    (hstop : stop ≤ s.size) : (s'.rays.extract start stop).Perm (s.rays.extract start stop) := by
  have hsize : s'.rays.size = s.rays.size := h.size_eq
  have hbefore := extract_eq 0 start (fun i _ hi ↦ h.outside i (.inl hi)) hsize
  have hafter := extract_eq stop s.rays.size (fun i hi _ ↦ h.outside i (.inr hi)) hsize
  have hperm := h.perm
  -- What precedes and what follows the window is the same on both sides, and cancels.
  rw [toList_eq_windows s.rays hstart hstop, toList_eq_windows s'.rays hstart (hsize ▸ hstop),
    hsize, hbefore, hafter, List.perm_append_left_iff, List.perm_append_right_iff] at hperm
  exact Array.perm_iff_toList_perm.mpr hperm

/-- What holds after a computation that works on a window: the rays of the window are rearranged,
`post` holds of the value, and a stop is a refusal. -/
def Confined (m : StoreM α) (s : Store) (start stop : Nat) (post : α → Store → Prop) : Prop :=
  Ends m s (fun a s' ↦ Rearranged start stop s s' ∧ post a s')
    fun e s' ↦ Rearranged start stop s s' ∧ s.Refused e

namespace Confined

variable {m : StoreM α} {f : α → StoreM β} {post : α → Store → Prop} {post' : β → Store → Prop}

/-- A value leaves the store as it is. -/
theorem pure {a : α} (h : post a s) : Confined (Pure.pure a) s start stop post :=
  ⟨.refl s, h⟩

/-- Looking at the store leaves it as it is. -/
theorem get_bind {f : Store → StoreM β} (h : Confined (f s) s start stop post') :
    Confined (get >>= f) s start stop post' := h

/-- A sequence, step by step. -/
theorem bind (hm : Confined m s start stop post)
    (hf : ∀ a s', Rearranged start stop s s' → post a s' → Confined (f a) s' start stop post') :
    Confined (m >>= f) s start stop post' := by
  refine ends_bind.mpr (Ends.mono hm ?_ fun _ _ h ↦ h)
  rintro a s' ⟨hs, ha⟩
  refine (hf a s' hs ha).mono ?_ ?_
  · rintro b s'' ⟨hs', hb⟩
    exact ⟨hs.trans hs', hb⟩
  · rintro e s'' ⟨hs', he⟩
    exact ⟨hs.trans hs', hs.refused_iff.mp he⟩

/-- A store that is set to one with its window rearranged goes on from there. -/
theorem set_bind {f : PUnit → StoreM β} (hs : Rearranged start stop s s')
    (h : Confined (f ⟨⟩) s' start stop post') :
    Confined (set s' >>= f) s start stop post' := by
  have hset : Confined (set s') s start stop fun _ s₁ ↦ s₁ = s' := ⟨hs, rfl⟩
  refine hset.bind ?_
  rintro ⟨⟩ s₁ - rfl
  exact h

/-- A weaker statement about the value. -/
theorem mono {post₂ : α → Store → Prop} (hm : Confined m s start stop post)
    (h : ∀ a s', Rearranged start stop s s' → post a s' → post₂ a s') :
    Confined m s start stop post₂ :=
  Ends.mono hm (fun a s' ha ↦ ⟨ha.1, h a s' ha.1 ha.2⟩) fun _ _ he ↦ he

/-- A computation on a window is one on a larger window. -/
theorem widen {start' stop' : Nat} (hm : Confined m s start stop post) (hstart : start' ≤ start)
    (hstop : stop ≤ stop') : Confined m s start' stop' post :=
  Ends.mono hm (fun _ _ h ↦ ⟨h.1.mono hstart hstop, h.2⟩) fun _ _ h ↦
    ⟨h.1.mono hstart hstop, h.2⟩

/-- A computation on a window rearranges no more of a larger window. -/
theorem within {start' stop' : Nat} (hm : Confined m s start stop post) (hstart : start' ≤ start)
    (hstop : stop ≤ stop') :
    Confined m s start' stop' fun a s' ↦ Rearranged start stop s s' ∧ post a s' :=
  (hm.mono fun _ _ hs h ↦ ⟨hs, h⟩).widen hstart hstop

/-- A statement about the value that its run shows. -/
theorem mono_run {post₂ : α → Store → Prop} (hm : Confined m s start stop post)
    (h : ∀ a s', m.run.run s = (.ok a, s') → Rearranged start stop s s' → post a s' →
      post₂ a s') : Confined m s start stop post₂ :=
  (Ends.with_run hm).mono (fun a s' ha ↦ ⟨ha.2.1, h a s' ha.1 ha.2.1 ha.2.2⟩) fun _ _ he ↦ he

/-- A computation on a window is one with a map of its value. -/
theorem of_map {f : α → β} (hm : Confined (f <$> m) s start stop post') :
    Confined m s start stop fun a s' ↦ post' (f a) s' := by
  unfold Confined Ends at hm ⊢
  rw [run_map] at hm
  rcases hrun : m.run.run s with ⟨e | a, s'⟩ <;> (rw [hrun] at hm; exact hm)

/-- Computations that run alike are confined alike. -/
theorem congr {m' : StoreM α} (hm : Confined m s start stop post)
    (hrun : m'.run.run s = m.run.run s) : Confined m' s start stop post := by
  unfold Confined Ends at hm ⊢
  rwa [hrun]

/-- Two statements about one computation hold together. -/
theorem and {post₂ : α → Store → Prop} (hm : Confined m s start stop post)
    (hm₂ : Confined m s start stop post₂) :
    Confined m s start stop fun a s' ↦ post a s' ∧ post₂ a s' :=
  Ends.mono (Ends.and hm hm₂) (fun _ _ h ↦ ⟨h.1.1, h.1.2, h.2.2⟩) fun _ _ h ↦ h.1

/-- A computation on a store that refuses nothing gives a value. -/
theorem exists_ok (hm : Confined m s start stop post) (hs : s.Answers) :
    ∃ a s', m.run.run s = (.ok a, s') ∧ Rearranged start stop s s' ∧ post a s' := by
  obtain ⟨a, s', hrun, ha, hpost⟩ := Ends.exists_ok (Ends.mono hm (fun _ _ h ↦ h)
    fun _ _ he ↦ he.2.1 hs)
  exact ⟨a, s', hrun, ha, hpost⟩

end Confined

/-! ### Calls -/

/-- Reading a ray inside the store gives it and keeps the rays. -/
theorem confined_read {i : Nat} (hi : i < s.size) :
    Confined (read i) s start stop fun ray s' ↦ s'.rays = s.rays ∧ s.rays[i]? = some ray := by
  have hget : s.rays[i]? = some s.rays[i] := Array.getElem?_eq_getElem hi
  simp only [Confined, read, ends_bind, ends_get, ends_set, answer, hget]
  cases h : s.refusals.read s.reads i s.rays[i] with
  | none =>
    have hkeep : Rearranged start stop s
        { s with reads := s.reads + 1, calls := .read i :: s.calls } := .of_rays_eq rfl rfl
    exact ⟨hkeep, rfl, rfl⟩
  | some failure =>
    refine ⟨.of_rays_eq rfl rfl, fun ha ↦ ?_, failure, rfl⟩
    rw [ha.read] at h
    cases h

private theorem swapIfInBounds_eq {rays : Array Ray} {a b : Nat} (ha : a < rays.size)
    (hb : b < rays.size) : rays.swapIfInBounds a b = rays.swap a b ha hb := by
  rw [Array.swapIfInBounds_def, dif_pos ha, dif_pos hb]

/-- Exchanging two items gives each of them the place of the other. -/
theorem getElem?_swapIfInBounds {rays : Array Ray} {a b : Nat} (ha : a < rays.size)
    (hb : b < rays.size) (i : Nat) : (rays.swapIfInBounds a b)[i]? =
      if b = i then rays[a]? else if a = i then rays[b]? else rays[i]? := by
  rw [swapIfInBounds_eq ha hb, Array.getElem?_swap, Array.getElem?_eq_getElem ha,
    Array.getElem?_eq_getElem hb]

private theorem rearranged_swap {a b swaps : Nat} {calls : List StoreCall} (hstart : start ≤ a)
    (hab : a ≤ b) (hstop : b < stop) (hb : b < s.size) :
    Rearranged start stop s { s with swaps, calls, rays := s.rays.swapIfInBounds a b } where
  refusals := rfl
  perm := by
    change (s.rays.swapIfInBounds a b).toList.Perm s.rays.toList
    rw [swapIfInBounds_eq (Nat.lt_of_le_of_lt hab hb) hb]
    exact (Array.swap_perm _ _).toList
  outside i hi := by
    change (s.rays.swapIfInBounds a b)[i]? = s.rays[i]?
    rw [getElem?_swapIfInBounds (Nat.lt_of_le_of_lt hab hb) hb, if_neg (by omega),
      if_neg (by omega)]

/-- Exchanging two rays of a window rearranges the window. -/
theorem confined_swap {a b : Nat} (hstart : start ≤ a) (hab : a ≤ b) (hstop : b < stop)
    (hb : b < s.size) :
    Confined (swap a b) s start stop fun _ s' ↦
      ∀ i, s'.rays[i]? = if b = i then s.rays[a]? else if a = i then s.rays[b]? else s.rays[i]? := by
  have ha : a < s.size := Nat.lt_of_le_of_lt hab hb
  simp only [Confined, swap, ends_bind, ends_get, ends_set]
  cases h : s.refusals.swap s.swaps with
  | none =>
    have hin : a < s.size ∧ b < s.size := ⟨ha, hb⟩
    exact (if_pos hin).symm ▸ ⟨rearranged_swap hstart hab hstop hb, getElem?_swapIfInBounds ha hb⟩
  | some failure =>
    refine ⟨.of_rays_eq rfl rfl, fun ha ↦ ?_, failure, rfl⟩
    rw [ha.swap] at h
    cases h

end RayAdjacency.Store
