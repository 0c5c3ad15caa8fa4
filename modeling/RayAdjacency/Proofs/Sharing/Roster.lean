import Mathlib.Data.List.Basic

/-!
# Rosters

A roster lists what each of several participants is doing. Whoever takes a step changes its own entry
and no other.
-/

namespace RayAdjacency.Roster

variable {α : Type} {l : List α} {i j : Nat} {x y : α}

/-- An entry after a change is the new one or another one that was there before. -/
theorem of_getElem?_set (h : (l.set i y)[j]? = some x) :
    (j = i ∧ x = y) ∨ (j ≠ i ∧ l[j]? = some x) := by
  rw [List.getElem?_set] at h
  split at h
  · next heq =>
    split at h
    · exact .inl ⟨heq.symm, (Option.some.inj h).symm⟩
    · cases h
  · next hne => exact .inr ⟨Ne.symm hne, h⟩

/-- The entries with a property after one entry has changed. -/
theorem countP_set_add (h : l[i]? = some x) (p : α → Bool) (y : α) :
    (l.set i y).countP p + (if p x then 1 else 0) = l.countP p + if p y then 1 else 0 := by
  obtain ⟨hi, rfl⟩ := List.getElem?_eq_some_iff.mp h
  have hle : (if p l[i] then 1 else 0) ≤ l.countP p := by
    split
    · next hp => exact List.countP_pos_iff.mpr ⟨_, List.getElem_mem hi, hp⟩
    · exact Nat.zero_le _
  rw [List.countP_set hi]
  omega

/-- If a property implies another one, which no more entries have, it follows from it. -/
theorem of_countP_le {p q : α → Bool}
    (hpq : ∀ x, p x = true → q x = true) (h : l.countP q ≤ l.countP p) :
    ∀ x ∈ l, q x = true → p x = true := by
  induction l with
  | nil => exact fun x hx ↦ absurd hx List.not_mem_nil
  | cons y l ih =>
    have hle : l.countP p ≤ l.countP q := List.countP_mono_left fun x _ ↦ hpq x
    have hy := hpq y
    rw [List.countP_cons, List.countP_cons] at h
    intro x hx hqx
    rcases List.mem_cons.mp hx with rfl | hx
    · rw [if_pos hqx] at h
      by_contra hpx
      rw [if_neg hpx] at h
      omega
    · refine ih ?_ x hx hqx
      split at h <;> split at h <;> first | omega | exact absurd (hy ‹_›) ‹_›

/-- Whoever is among those with a property has an entry, and if that changes, the others stay. -/
theorem exists_set_filter {p : α → Bool} {rest : List α} (h : (l.filter p).Perm (x :: rest)) :
    ∃ i, l[i]? = some x ∧ ∀ y, ((l.set i y).filter p).Perm ([y].filter p ++ rest) := by
  obtain ⟨hx, hp⟩ := List.mem_filter.mp (h.mem_iff.mpr (.head rest))
  obtain ⟨before, after, rfl⟩ := List.append_of_mem hx
  refine ⟨before.length, by simp, fun y ↦ ?_⟩
  have hrest : (before.filter p ++ after.filter p).Perm rest := by
    rw [List.filter_append, List.filter_cons_of_pos hp] at h
    exact (List.perm_middle.symm.trans h).cons_inv
  have hset : (before ++ x :: after).set before.length y = before ++ [y] ++ after := by simp
  rw [hset, List.filter_append, List.filter_append]
  exact (List.perm_append_comm.append_right _).trans
    (List.append_assoc _ _ _ ▸ hrest.append_left _)

end RayAdjacency.Roster
