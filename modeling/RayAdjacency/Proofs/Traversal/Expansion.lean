import RayAdjacency.Proofs.Traversal.Duties
import RayAdjacency.Traversal.Step

/-!
# Expansion into the job queue

Expanding levels asks for admission and leaves again at once; the duties that remain are those of the
pairs that take the place of the expanded ones. The expansion does not look whether a pair holds
rays, so this needs trees in which every node does.
-/

namespace RayAdjacency

/-- A pair of trees in which every node holds a ray. -/
structure NodePair.Solid (p : NodePair) : Prop where
  positive : p.positive.Everywhere Node.Solid
  negative : p.negative.Everywhere Node.Solid

namespace NodePair

variable {p c : NodePair}

/-- A solid pair has no empty side. -/
theorem Solid.isEmpty_eq_false (h : p.Solid) : p.isEmpty = false := by
  rw [isEmpty, h.positive.root.not_empty, h.negative.root.not_empty]
  rfl

/-- The children of a solid pair are solid. -/
theorem Solid.child (h : p.Solid) (hc : c ∈ p.children) : c.Solid := by
  obtain ⟨-, hp, hn⟩ := mem_children.mp hc
  exact ⟨h.positive.part hp, h.negative.part hn⟩

end NodePair

/-- Whether a duty belongs to the gate. -/
def Duty.isOfGate : Duty → Bool
  | .ask _ | .leave _ => true
  | _ => false

/-- The gate never stops a search. -/
theorem Duty.canEnd_of_isOfGate {site : SearchSite} {d : Duty} (h : d.isOfGate = true) :
    d.CanEnd site := by
  cases d <;> trivial

namespace SearchSite

/-- The gate appends nothing. -/
theorem pairsOf_eq_zero {ds : Multiset Duty} (h : ∀ d ∈ ds, d.isOfGate = true) :
    pairsOf ds = 0 := by
  apply Multiset.eq_zero_of_forall_notMem
  intro x hx
  obtain ⟨d, hd, hx⟩ := Multiset.mem_bind.mp hx
  have hgate := h d hd
  cases d with
  | emit pairs => cases hgate
  | _ => exact absurd hx List.not_mem_nil

variable {site : SearchSite} {ps qs qs' ps' : List NodePair} {p : NodePair} {t t' t'' : Tally}

/-- The gate asks the delegate nothing. -/
theorem questionsOf_eq_zero {ds : Multiset Duty} (h : ∀ d ∈ ds, d.isOfGate = true) :
    site.questionsOf ds = 0 := by
  apply Multiset.eq_zero_of_forall_notMem
  intro x hx
  obtain ⟨d, hd, hx⟩ := Multiset.mem_bind.mp hx
  have hgate := h d hd
  cases d with
  | compare pair => cases hgate
  | _ => exact absurd hx List.not_mem_nil

/-- Pairs take the place of others, after duties of the gate have been done. -/
def Expands (site : SearchSite) (ps qs : List NodePair) (t t' : Tally) : Prop :=
  (∀ q ∈ qs, q.Solid) ∧ ∃ done : Multiset Duty, site.dutiesOf ps = done + site.dutiesOf qs ∧
    (∀ d ∈ done, d.isOfGate = true) ∧ t' = t + site.tallyOf done

namespace Expands

/-- Solid pairs stand for themselves. -/
theorem refl (h : ∀ p ∈ ps, p.Solid) : site.Expands ps ps t t :=
  ⟨h, 0, (zero_add _).symm, fun d hd ↦ absurd hd (Multiset.notMem_zero d), (add_zero t).symm⟩

/-- What is expanded twice in a row is expanded. -/
theorem trans (h : site.Expands ps qs t t') (h' : site.Expands qs qs' t' t'') :
    site.Expands ps qs' t t'' := by
  obtain ⟨-, done, hdone, hgate, rfl⟩ := h
  obtain ⟨hsolid, more, hmore, hgate', rfl⟩ := h'
  refine ⟨hsolid, done + more, ?_, fun d hd ↦ ?_, ?_⟩
  · rw [hdone, hmore, add_assoc]
  · exact (Multiset.mem_add.mp hd).elim (hgate d) (hgate' d)
  · rw [tallyOf_add, add_assoc]

/-- Pairs are expanded one after the other. -/
theorem append (h : site.Expands ps qs t t') (h' : site.Expands ps' qs' t' t'') :
    site.Expands (ps ++ ps') (qs ++ qs') t t'' := by
  obtain ⟨hsolid, done, hdone, hgate, rfl⟩ := h
  obtain ⟨hsolid', more, hmore, hgate', rfl⟩ := h'
  refine ⟨fun q hq ↦ ?_, done + more, ?_, fun d hd ↦ ?_, ?_⟩
  · exact (List.mem_append.mp hq).elim (hsolid q) (hsolid' q)
  · rw [dutiesOf_append, dutiesOf_append, hdone, hmore, add_add_add_comm]
  · exact (Multiset.mem_add.mp hd).elim (hgate d) (hgate' d)
  · rw [tallyOf_add, add_assoc]

end Expands

private theorem expands_expandPair (hp : p.Solid) : ∃ qs divided t',
    site.root.expandPair p t = .ok (qs, divided, t') ∧ site.Expands [p] qs t t' := by
  rw [Root.expandPair]
  by_cases hinternal : p.isInternal = true
  · rw [if_pos hinternal]
    have henter : site.root.enter p t
        = (site.root.admits p, t + Duty.tally site (.ask p)) :=
      Prod.ext (site.root.enter_fst p t) (site.root.enter_snd p t)
    rw [henter]
    by_cases hadmits : site.root.admits p = true
    · rw [hadmits]
      dsimp only
      rw [Root.leave, if_pos hadmits]
      refine ⟨p.children, true, _, rfl, fun q hq ↦ hp.child hq, {.ask p} + {.leave p}, ?_, ?_, ?_⟩
      · rw [dutiesOf_cons, dutiesOf_nil, add_zero,
          duties_of_isInternal hadmits hp.isEmpty_eq_false hinternal]
      · simp [Duty.isOfGate]
      · rw [tallyOf_add, tallyOf_singleton, tallyOf_singleton, ← add_assoc]
        exact Tally.add_eq_plus _ .leaves 1
    · rw [Bool.not_eq_true] at hadmits
      rw [hadmits]
      refine ⟨[], false, _, rfl, by simp, {.ask p}, ?_, ?_, ?_⟩
      · simp [duties_of_not_admits hadmits]
      · simp [Duty.isOfGate]
      · rw [tallyOf_singleton]
  · rw [if_neg hinternal]
    exact ⟨[p], false, t, rfl, .refl (by simpa using hp)⟩

private theorem expands_expandLevel (hps : ∀ p ∈ ps, p.Solid) (t : Tally) : ∃ qs divided t',
    site.root.expandLevel ps t = .ok (qs, divided, t') ∧ site.Expands ps qs t t' := by
  induction ps generalizing t with
  | nil => exact ⟨[], false, t, rfl, .refl hps⟩
  | cons p ps ih =>
    obtain ⟨qs, divided, t₁, hpair, hexpands⟩ :=
      @expands_expandPair site p t (hps p (.head ps))
    obtain ⟨qs', divided', t₂, hlevel, hexpands'⟩ := ih (fun q hq ↦ hps q (.tail p hq)) t₁
    refine ⟨qs ++ qs', divided || divided', t₂, ?_, hexpands.append hexpands'⟩
    rw [Root.expandLevel, hpair, Outcome.ok_bind]
    dsimp only
    rw [hlevel]
    rfl

/-- Expanding levels never fails, and the pairs that take the place of the expanded ones owe the
rest of their duties. -/
theorem expands_expandLevels (levels : Nat) (hps : ∀ p ∈ ps, p.Solid) (t : Tally) : ∃ qs t',
    site.root.expandLevels levels ps t = .ok (qs, t') ∧ site.Expands ps qs t t' := by
  induction levels generalizing ps t with
  | zero => exact ⟨ps, t, rfl, .refl hps⟩
  | succ levels ih =>
    obtain ⟨qs, divided, t₁, hlevel, hexpands⟩ := @expands_expandLevel site ps hps t
    rw [Root.expandLevels, hlevel, Outcome.ok_bind]
    dsimp only
    split
    · obtain ⟨qs', t₂, hlevels, hexpands'⟩ := ih hexpands.1 t₁
      exact ⟨qs', t₂, hlevels, hexpands.trans hexpands'⟩
    · exact ⟨qs, t₁, rfl, hexpands⟩

end SearchSite
end RayAdjacency
