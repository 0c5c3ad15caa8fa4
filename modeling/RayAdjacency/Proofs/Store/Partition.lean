import RayAdjacency.Proofs.Store.Rearranged

/-!
# Partitioning a window of a store

`Store.split` keeps three zones: rays known to be without the bit, rays that have not been looked
at, and rays known to have it. A ray without the bit extends the first zone; one with the bit
changes places with the last ray that has not been looked at. When the middle zone is used up, the
two others meet at the border, which `Store.Parted` describes.
-/

namespace RayAdjacency.Store

variable {s : Store}

/-- A window whose rays without a bit precede its rays with the bit, which start at `border`. -/
structure Parted (bit start stop border : Nat) (s : Store) : Prop where
  le_border : start ≤ border
  border_le : border ≤ stop
  clear : ∀ i ray, start ≤ i → i < border → s.rays[i]? = some ray → ray.pattern.contains bit = false
  set : ∀ i ray, border ≤ i → i < stop → s.rays[i]? = some ray → ray.pattern.contains bit = true

/-- Splitting a window inside the store parts it on the bit. -/
theorem confined_split (bit : Nat) {gap low : Nat} (h : low + gap ≤ s.size) :
    Confined (split bit gap low) s low (low + gap) (Parted bit low (low + gap)) := by
  induction gap generalizing low s with
  | zero =>
    exact .pure ⟨Nat.le_refl _, Nat.le_refl _, fun _ _ _ _ ↦ by omega, fun _ _ _ _ ↦ by omega⟩
  | succ gap ih =>
    rw [split]
    refine (confined_read (by omega)).bind ?_
    rintro ray s₁ hs₁ ⟨hrays, hray⟩
    have hsize : s₁.size = s.size := hs₁.size_eq
    split
    · next hbit =>
      -- The ray with the bit goes to the end of the unseen zone, which shrinks from above.
      refine (confined_swap (Nat.le_refl low) (by omega) (by omega) (by omega)).bind ?_
      intro _ s₂ hs₂ hswap
      have hlast : s₂.rays[low + gap]? = some ray := by
        rw [hswap, if_pos rfl, hrays, hray]
      have hsize₂ : s₂.size = s₁.size := hs₂.size_eq
      refine ((ih (by omega)).mono ?_).widen (Nat.le_refl low) (by omega)
      intro border s₃ hs₃ hparted
      have hborder := hparted.border_le
      refine ⟨hparted.le_border, by omega, hparted.clear, fun i r hi hstop hr ↦ ?_⟩
      rcases Nat.lt_or_eq_of_le (show i ≤ low + gap by omega) with hlt | rfl
      · exact hparted.set i r hi hlt hr
      · rw [hs₃.outside _ (.inr (Nat.le_refl _)), hlast, Option.some.injEq] at hr
        rw [← hr, hbit]
    · next hbit =>
      -- The ray without the bit stays, and the unseen zone shrinks from below.
      have hfirst : s₁.rays[low]? = some ray := by rw [hrays, hray]
      have hrest : low + 1 + gap ≤ s₁.size := by omega
      refine ((ih hrest).mono ?_).widen (by omega) (by omega)
      intro border s₂ hs₂ hparted
      have hborder := hparted.le_border
      have hstop := hparted.border_le
      refine ⟨by omega, by omega, fun i r hi hlt hr ↦ ?_, fun i r hi hlt hr ↦
        hparted.set i r hi (by omega) hr⟩
      rcases Nat.lt_or_eq_of_le hi with hlow | rfl
      · exact hparted.clear i r hlow hlt hr
      · rw [hs₂.outside _ (.inl (Nat.lt_succ_self _)), hfirst, Option.some.injEq] at hr
        rw [← hr]
        exact Bool.eq_false_iff.mpr hbit

/-- Partitioning a window inside the store parts it on the bit. -/
theorem confined_partition {start stop : Nat} (bit : Nat) (hstart : start ≤ stop)
    (hstop : stop ≤ s.size) :
    Confined (partition start stop bit) s start stop (Parted bit start stop) := by
  have hend : start + (stop - start) = stop := by omega
  have hinside : start + (stop - start) ≤
      Store.size { s with calls := .partition start stop bit :: s.calls } := by
    rw [hend]
    exact hstop
  have hsplit := confined_split bit hinside
  rw [hend] at hsplit
  refine .get_bind (.set_bind (.of_rays_eq rfl rfl) ?_)
  rw [if_pos ⟨hstart, hstop⟩]
  exact hsplit

end RayAdjacency.Store
