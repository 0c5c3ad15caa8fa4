import RayAdjacency.Proofs.Traversal.Lone

/-!
# Frontiers

Expanding levels replaces pairs by the pairs below them. Read from left to right, the frontier
always cuts the order of one thread: below it lie the comparisons that lay below the pairs that it
has replaced, in the same order. Pairs that are not admitted are dropped, and terminal pairs are
carried along. This asks nothing of the trees.

A thread on its own that drains a queue makes the comparisons below the queued pairs, in order and
up to the first that fails.
-/

namespace RayAdjacency

namespace NodePair

variable {p c : NodePair}

/-- A pair without rays on one side has only such pairs below it. -/
theorem isEmpty_of_mem_children (h : p.isEmpty = true) (hc : c ∈ p.children) :
    c.isEmpty = true := by
  have hpart {n m : Node} (hn : n.isEmpty = true) (hm : m ∈ n.parts) : m = n := by
    cases n <;> first | exact List.mem_singleton.mp hm | cases hn
  obtain ⟨-, hp, hn⟩ := mem_children.mp hc
  rw [isEmpty, Bool.or_eq_true] at h ⊢
  exact h.imp (fun h ↦ hpart h hp ▸ h) fun h ↦ hpart h hn ▸ h

end NodePair

namespace Root

variable {r : Root} {p : NodePair} {ps qs qs' ps' : List NodePair} {t t' t'' : Tally}

/-- Below an admitted pair with children lie the comparisons that lie below its children, also where
the pair is empty. -/
theorem flatMap_comparisons_children (hadmits : r.admits p = true)
    (hinternal : p.isInternal = true) : p.children.flatMap r.comparisons = r.comparisons p := by
  by_cases hempty : p.isEmpty = true
  · rw [comparisons_of_isEmpty hempty, List.flatMap_eq_nil_iff]
    exact fun c hc ↦ comparisons_of_isEmpty (NodePair.isEmpty_of_mem_children hempty hc)
  · rw [comparisons_of_isInternal hadmits (Bool.eq_false_iff.mpr hempty) hinternal]

/-- Pairs take the place of others: the same comparisons lie below them, in the same order. What has
asked to be entered meanwhile is made up for by what is left to search. -/
structure Replaces (r : Root) (ps qs : List NodePair) (t t' : Tally) : Prop where
  comparisons_eq : qs.flatMap r.comparisons = ps.flatMap r.comparisons
  calls_le : t'.enterCalls + (qs.map NodePair.weight).sum ≤
    t.enterCalls + (ps.map NodePair.weight).sum

namespace Replaces

/-- Pairs take their own place. -/
theorem refl (ps : List NodePair) (t : Tally) : r.Replaces ps ps t t := ⟨rfl, Nat.le_refl _⟩

/-- What takes the place of a replacement takes the place of the pairs. -/
theorem trans (h : r.Replaces ps qs t t') (h' : r.Replaces qs qs' t' t'') :
    r.Replaces ps qs' t t'' :=
  ⟨h'.comparisons_eq.trans h.comparisons_eq, Nat.le_trans h'.calls_le h.calls_le⟩

/-- Pairs are replaced one after the other. -/
theorem append (h : r.Replaces ps qs t t') (h' : r.Replaces ps' qs' t' t'') :
    r.Replaces (ps ++ ps') (qs ++ qs') t t'' where
  comparisons_eq := by
    rw [List.flatMap_append, List.flatMap_append, h.comparisons_eq, h'.comparisons_eq]
  calls_le := by
    have := h.calls_le
    have := h'.calls_le
    rw [List.map_append, List.map_append, List.sum_append, List.sum_append]
    omega

end Replaces

private theorem exists_expandPair (r : Root) (p : NodePair) (t : Tally) : ∃ qs divided t',
    r.expandPair p t = .ok (qs, divided, t') ∧ r.Replaces [p] qs t t' := by
  rw [expandPair]
  split
  · next hinternal =>
    have hweight := p.weight_pos
    have hbelow := p.sum_weight_children_lt
    by_cases hadmits : r.admits p = true
    · have henter : r.enter p t = (true, t.bump .enterCalls) := if_pos hadmits
      rw [henter]
      dsimp only
      rw [leave, if_pos hadmits]
      refine ⟨p.children, true, _, rfl, ?_, ?_⟩
      · rw [flatMap_comparisons_children hadmits hinternal, List.flatMap_singleton]
      · change t.enterCalls + 1 + _ ≤ _
        rw [List.map_singleton, List.sum_singleton]
        omega
    · have henter : r.enter p t = (false, (t.bump .enterCalls).bump .pruned) := if_neg hadmits
      rw [henter]
      rw [Bool.not_eq_true] at hadmits
      refine ⟨[], false, _, rfl, ?_, ?_⟩
      · rw [List.flatMap_singleton, comparisons_of_not_admits hadmits, List.flatMap_nil]
      · change t.enterCalls + 1 + 0 ≤ _
        rw [List.map_singleton, List.sum_singleton]
        omega
  · exact ⟨[p], false, t, rfl, .refl [p] t⟩

private theorem exists_expandLevel (r : Root) (ps : List NodePair) (t : Tally) : ∃ qs divided t',
    r.expandLevel ps t = .ok (qs, divided, t') ∧ r.Replaces ps qs t t' := by
  induction ps generalizing t with
  | nil => exact ⟨[], false, t, rfl, .refl [] t⟩
  | cons p ps ih =>
    obtain ⟨qs, divided, t₁, hpair, hqs⟩ := r.exists_expandPair p t
    obtain ⟨qs', divided', t₂, hlevel, hqs'⟩ := ih t₁
    refine ⟨qs ++ qs', divided || divided', t₂, ?_, hqs.append hqs'⟩
    rw [expandLevel, hpair, Outcome.ok_bind]
    dsimp only
    rw [hlevel]
    rfl

/-- Expanding levels never fails, and replaces the pairs. -/
theorem exists_expandLevels (r : Root) (levels : Nat) (ps : List NodePair) (t : Tally) :
    ∃ qs t', r.expandLevels levels ps t = .ok (qs, t') ∧ r.Replaces ps qs t t' := by
  induction levels generalizing ps t with
  | zero => exact ⟨ps, t, rfl, .refl ps t⟩
  | succ levels ih =>
    obtain ⟨qs, divided, t₁, hlevel, hqs⟩ := r.exists_expandLevel ps t
    rw [expandLevels, hlevel, Outcome.ok_bind]
    dsimp only
    split
    · obtain ⟨qs', t₂, hlevels, hqs'⟩ := ih qs t₁
      exact ⟨qs', t₂, hlevels, hqs.trans hqs'⟩
    · exact ⟨qs, t₁, rfl, hqs⟩

end Root

/-! ### Draining -/

/-- What draining leaves as it is. -/
def Standing.held (s : Standing) : Permits × Children × Cohort := (s.permits, s.children, s.cohort)

variable {plan : Plan} {script : Script} {label : String} {frames : List Frame} {a : Setting}
  {q : NodePair} {qs : List NodePair}

private theorem forced_drain (haborted : a.shared.aborted = false) :
    Forced plan script ⟨label, frames, .drain⟩ a ⟨label, frames, .take⟩ a := by
  refine ⟨fun _ ↦ rfl, fun _ _ ↦ ?_, rfl⟩
  rw [Thread.advance]
  dsimp only
  rw [haborted]
  rfl

private theorem forced_take_nil (hqueue : a.shared.queue.toList = []) :
    Forced plan script ⟨label, frames, .take⟩ a ⟨label, frames, .ret (.ok ())⟩ a := by
  refine ⟨fun _ ↦ rfl, fun _ _ ↦ ?_, rfl⟩
  rw [Thread.advance]
  dsimp only
  rw [(Fifo.pop?_eq_none_iff _).mpr hqueue]
  rfl

private theorem exists_take_cons (hqueue : a.shared.queue.toList = q :: qs) :
    ∃ queue, queue.toList = qs ∧ Forced plan script ⟨label, frames, .take⟩ a
      ⟨label, .drained :: frames, .enter q⟩
      { a with shared := { a.shared.bump .jobsRun with queue } } := by
  rcases hpop : a.shared.queue.pop? with _ | ⟨q', queue⟩
  · rw [(Fifo.pop?_eq_none_iff _).mp hpop] at hqueue
    cases hqueue
  · rw [Fifo.toList_of_pop? hpop] at hqueue
    cases hqueue
    refine ⟨queue, rfl, fun _ ↦ rfl, fun _ _ ↦ ?_, rfl⟩
    rw [Thread.advance]
    dsimp only
    rw [hpop]
    rfl

/-- What follows a job: the next one, unless the job has failed. -/
private def afterJob : Outcome Unit → Task
  | .ok () => .drain
  | .error stop => .ret (.error stop)

private theorem exists_drained (o : Outcome Unit) (a : Setting) : ∃ a',
    Forced plan script ⟨label, .drained :: frames, .ret o⟩ a ⟨label, frames, afterJob o⟩ a' ∧
      Compared plan.site script (·.standing.held) [] 0 a (.ok ()) a' ∧ (o = .ok () → a' = a) := by
  -- A job that has failed aborts the search; after a panic nobody is left to be told.
  cases o with
  | ok u => exact ⟨a, ⟨fun _ ↦ rfl, fun _ _ ↦ rfl, rfl⟩, .refl a, fun _ ↦ rfl⟩
  | error stop =>
    cases stop with
    | failed failure =>
      exact ⟨{ a with shared := { a.shared with aborted := true } },
        ⟨fun _ ↦ rfl, fun _ _ ↦ rfl, rfl⟩, .of_findings_eq rfl (Nat.le_refl _) rfl,
        fun h ↦ by cases h⟩
    | panicked message =>
      exact ⟨a, ⟨fun _ ↦ rfl, fun _ _ ↦ rfl, rfl⟩, .refl a, fun h ↦ by cases h⟩

private theorem exists_job (halone : plan.Solitary a.shared.token.permits)
    (hqueue : a.shared.queue.toList = q :: qs) (haborted : a.shared.aborted = false) :
    ∃ o a', ∃ k ≤ 6 * (plan.site.root.visits q).length + 1,
      Takes plan script k ⟨label, frames, .drain⟩ a ⟨label, frames, afterJob o⟩ a' ∧
      Compared plan.site script (·.standing.held) (plan.site.root.comparisons q)
        (plan.site.root.visits q).length a o a' ∧
      (o = .ok () → a'.shared.queue.toList = qs ∧ a'.shared.aborted = false) := by
  obtain ⟨queue, hrest, htake⟩ := @exists_take_cons plan script label frames a q qs hqueue
  have htaken : Compared plan.site script (·.standing.held) [] 0 a (.ok ())
      { a with shared := { a.shared.bump .jobsRun with queue } } :=
    .of_findings_eq rfl (Nat.le_refl _) rfl
  obtain ⟨o, a₁, k, hk, hsearch, hfound⟩ := does_enter plan script q label (.drained :: frames) _
    (show plan.Solitary { a with shared := { a.shared.bump .jobsRun with queue }
      }.shared.token.permits from halone)
  obtain ⟨a₂, hback, hleft, hsame⟩ := @exists_drained plan script label frames o a₁
  have hvisits := plan.site.root.length_visits_pos q
  refine ⟨o, a₂, 1 + 1 + k + 1, by omega,
    (((forced_drain haborted).takes.trans htake.takes).trans hsearch).trans hback.takes,
    ((htaken.append (hfound.coarsen Standing.held)).idle hleft).mono (by omega), fun ho ↦ ?_⟩
  obtain rfl := hsame ho
  exact ⟨(congrArg (·.queue.toList) hfound.view_eq).trans hrest,
    (congrArg Standing.aborted hfound.view_eq).trans haborted⟩

/-- A thread on its own drains the queue: it makes the comparisons below the queued pairs, in order
and up to the first that fails. -/
theorem exists_drain (halone : plan.Solitary a.shared.token.permits)
    (hqueue : a.shared.queue.toList = qs) (haborted : a.shared.aborted = false) :
    ∃ o a', ∃ k ≤ 7 * (qs.flatMap plan.site.root.visits).length + 2,
      Takes plan script k ⟨label, frames, .drain⟩ a ⟨label, frames, .ret o⟩ a' ∧
      Compared plan.site script (·.standing.held) (qs.flatMap plan.site.root.comparisons)
        (qs.flatMap plan.site.root.visits).length a o a' := by
  induction qs generalizing a with
  | nil =>
    exact ⟨.ok (), a, 1 + 1, by omega,
      (forced_drain haborted).takes.trans (forced_take_nil hqueue).takes, .refl a⟩
  | cons q qs ih =>
    have hvisits := plan.site.root.length_visits_pos q
    obtain ⟨o, a₁, k, hk, hjob, hfound, hrest⟩ :=
      @exists_job plan script label frames a q qs halone hqueue haborted
    rw [List.flatMap_cons, List.flatMap_cons, List.length_append]
    cases o with
    | error stop =>
      exact ⟨.error stop, a₁, k, by omega, hjob, (hfound.append_error _).mono (by omega)⟩
    | ok u =>
      obtain ⟨hqueue₁, haborted₁⟩ := hrest rfl
      have hpermits : a₁.shared.token.permits = a.shared.token.permits :=
        congrArg Prod.fst hfound.view_eq
      obtain ⟨o, a₂, k', hk', hmore, hfound'⟩ := ih (hpermits ▸ halone) hqueue₁ haborted₁
      exact ⟨o, a₂, k + k', by omega, hjob.trans hmore, hfound.append hfound'⟩

end RayAdjacency
