import RayAdjacency.Proofs.Traversal.Gate
import RayAdjacency.Proofs.Traversal.Script

/-!
# Searches of a thread on its own

A thread on its own that starts no other searches a node pair by making the comparisons below it, in
the order of one thread and up to the first that fails. It then comes back to the frames below with
what the comparisons have come to, whatever script they follow. Neither the trees nor the stores
have to be those of a build.
-/

namespace RayAdjacency

/-- What searching a pair does not change as long as only one thread does it. -/
structure Standing where
  permits : Permits
  children : Children
  queue : Fifo NodePair
  cohort : Cohort
  aborted : Bool

/-- The part of what is shared that a thread on its own leaves as it is. -/
def Shared.standing (s : Shared) : Standing :=
  ⟨s.token.permits, s.token.children, s.queue, s.cohort, s.aborted⟩

/-- Where no permit is free, none is taken. -/
theorem Token.tryAcquire_of_available_eq {token : Token} (h : token.permits.available = 0)
    (n : Nat) : token.tryAcquire n = (0, token) := by
  rw [tryAcquire, Permits.tryAcquire, h, Nat.zero_min, Nat.sub_zero, ← h]

/-- A thread on its own starts no other: it takes part in no pool, and no permit is free where it
would fork. -/
structure Plan.Solitary (plan : Plan) (permits : Permits) : Prop where
  pools : plan.config.strategy.pools = false
  available : plan.config.strategy.forks = true → permits.available = 0

/-- Between two settings, comparisons are made in order, up to the first that fails, and at most so
many pairs ask to be entered. A view of what is shared does not change. -/
structure Compared {τ : Type} (site : SearchSite) (script : Script) (view : Shared → τ)
    (ps : List NodePair) (calls : Nat) (a : Setting) (o : Outcome Unit) (a' : Setting) : Prop where
  run_eq : (site.compareAll script ps).run.run a.findings = (o, a'.findings)
  calls_le : a'.shared.token.tally.enterCalls ≤ a.shared.token.tally.enterCalls + calls
  view_eq : view a'.shared = view a.shared

namespace Compared

variable {τ υ : Type} {site : SearchSite} {script : Script} {view : Shared → τ}
  {ps qs : List NodePair} {c c' : Nat} {a a' a'' : Setting} {o : Outcome Unit}

/-- To compare no pairs asks for none and changes nothing. -/
theorem refl (a : Setting) : Compared site script view [] 0 a (.ok ()) a :=
  ⟨rfl, Nat.le_refl _, rfl⟩

/-- A bound on the asked pairs may be raised. -/
theorem mono (h : Compared site script view ps c a o a') (hc : c ≤ c') :
    Compared site script view ps c' a o a' :=
  ⟨h.run_eq, Nat.le_trans h.calls_le (Nat.add_le_add_left hc _), h.view_eq⟩

/-- Less may be looked at. -/
theorem coarsen (h : Compared site script view ps c a o a') (f : τ → υ) :
    Compared site script (fun s ↦ f (view s)) ps c a o a' :=
  ⟨h.run_eq, h.calls_le, congrArg f h.view_eq⟩

/-- A thread that has searched on its own still starts no other. -/
theorem solitary {plan : Plan} (h : Compared site script Shared.standing ps c a o a')
    (halone : plan.Solitary a.shared.token.permits) : plan.Solitary a'.shared.token.permits := by
  have hpermits : a'.shared.token.permits = a.shared.token.permits :=
    congrArg Standing.permits h.view_eq
  rwa [hpermits]

/-- Nothing is compared between two settings with the same findings. -/
theorem of_findings_eq (hfindings : a'.findings = a.findings)
    (hcalls : a'.shared.token.tally.enterCalls ≤ a.shared.token.tally.enterCalls + c)
    (hview : view a'.shared = view a.shared) : Compared site script view [] c a (.ok ()) a' :=
  ⟨congrArg (Prod.mk (Except.ok ())) hfindings.symm, hcalls, hview⟩

private theorem findings_eq (h : Compared site script view [] c a (.ok ()) a') :
    a'.findings = a.findings := (congrArg Prod.snd h.run_eq).symm

/-- What comparisons come to does not change where nothing more is compared. -/
theorem idle (h : Compared site script view ps c a o a')
    (h' : Compared site script view [] c' a' (.ok ()) a'') :
    Compared site script view ps (c + c') a o a'' where
  run_eq := by rw [h.run_eq, h'.findings_eq]
  calls_le := by
    have := h.calls_le
    have := h'.calls_le
    omega
  view_eq := h'.view_eq.trans h.view_eq

/-- Comparisons follow others that have not failed. -/
theorem append (h : Compared site script view ps c a (.ok ()) a')
    (h' : Compared site script view qs c' a' o a'') :
    Compared site script view (ps ++ qs) (c + c') a o a'' where
  run_eq := by
    rw [SearchSite.compareAll_append, run_bind, h.run_eq]
    exact h'.run_eq
  calls_le := by
    have := h.calls_le
    have := h'.calls_le
    omega
  view_eq := h'.view_eq.trans h.view_eq

/-- After a failure nothing more is compared. -/
theorem append_error {stop : Stop} (h : Compared site script view ps c a (.error stop) a')
    (qs : List NodePair) : Compared site script view (ps ++ qs) c a (.error stop) a' where
  run_eq := by
    rw [SearchSite.compareAll_append, run_bind, h.run_eq]
  calls_le := h.calls_le
  view_eq := h.view_eq

end Compared

/-- A task that a thread on its own does by making comparisons: it comes back to the frames below
with what they have come to, in at most `n` steps, and after at most so many pairs have asked to be
entered. -/
def Does (plan : Plan) (script : Script) (task : Task) (ps : List NodePair) (n calls : Nat) :
    Prop :=
  ∀ (label : String) (frames : List Frame) (a : Setting), plan.Solitary a.shared.token.permits →
    ∃ o a', ∃ k ≤ n, Takes plan script k ⟨label, frames, task⟩ a ⟨label, frames, .ret o⟩ a' ∧
      Compared plan.site script Shared.standing ps calls a o a'

variable {plan : Plan} {script : Script} {p : NodePair} {label : String} {frames : List Frame}
  {a : Setting} {s : Shared}

/-! ### One pair -/

/-- What a thread does once a comparison has come to an outcome. -/
private def comparedTask (accepted : Array IndexPair) : Outcome Unit → Task
  | .error stop => .ret (.error stop)
  | .ok () => if accepted.isEmpty then .ret (.ok ()) else .emit accepted

private theorem comparePair_eq {env : Interference} {o : Outcome Unit} {batch : Batch}
    (h : (Batch.compare plan.site env p).run.run {} = (o, batch)) :
    Thread.comparePair plan env ⟨label, frames, .compare p⟩ s p =
      ⟨some ⟨label, frames, comparedTask batch.accepted o⟩,
        { s with
          token := { s.token with tally := s.token.tally + batch.tally }
          asked := s.asked ++ batch.asked }, none⟩ := by
  rw [Thread.comparePair, h]
  cases o with
  | error stop => rfl
  | ok u =>
    rw [comparedTask]
    dsimp only
    split <;> rfl

private theorem does_compare (p : NodePair) : Does plan script (.compare p) [p] 2 0 := by
  intro label frames a _
  rcases hrun : (Batch.compare (plan.during (script a.begun)).site (script a.begun).interference
    p).run.run {} with ⟨o, batch⟩
  let s₁ : Shared := { a.shared with
    token := { a.shared.token with tally := a.shared.token.tally + batch.tally }
    asked := a.shared.asked ++ batch.asked }
  have hmove := @comparePair_eq _ p label frames a.shared _ o batch hrun
  have hcompare : Forced plan script ⟨label, frames, .compare p⟩ a
      ⟨label, frames, comparedTask batch.accepted o⟩ ⟨s₁, a.begun + 1⟩ := by
    refine ⟨fun _ ↦ rfl, fun chance hscript ↦ ?_, rfl⟩
    change Thread.comparePair _ chance.interference _ a.shared p = _
    rw [hscript, hmove]
  have hcalls : s₁.token.tally.get .enterCalls = a.shared.token.tally.get .enterCalls := by
    have hkept := congrArg (fun move : Move ↦ move.shared.token.tally.get .enterCalls) hmove
    exact hkept.symm.trans (Thread.get_comparePair _ p rfl)
  have hfound := @SearchSite.run_compareAll_singleton plan.site script p a.findings o batch hrun
  cases o with
  | error stop =>
    exact ⟨.error stop, _, 1, by omega, hcompare.takes, hfound, Nat.le_of_eq hcalls, rfl⟩
  | ok u =>
    rw [comparedTask] at hcompare
    by_cases hempty : batch.accepted.isEmpty = true
    · rw [if_pos hempty] at hcompare
      rw [Array.isEmpty_iff.mp hempty] at hfound
      refine ⟨.ok (), _, 1, by omega, hcompare.takes, ?_, Nat.le_of_eq hcalls, rfl⟩
      rw [hfound]
      simp [Setting.findings, s₁]
    · rw [if_neg hempty] at hcompare
      let a₂ : Setting :=
        { shared := { s₁.add .pairsEmitted batch.accepted.size with
            sink := s₁.sink ++ batch.accepted }
          begun := a.begun + 1 }
      have hemit : Forced plan script ⟨label, frames, .emit batch.accepted⟩ ⟨s₁, a.begun + 1⟩
          ⟨label, frames, .ret (.ok ())⟩ a₂ := ⟨fun _ ↦ rfl, fun _ _ ↦ rfl, rfl⟩
      exact ⟨.ok (), a₂, 2, Nat.le_refl 2, hcompare.takes.trans hemit.takes, hfound,
        Nat.le_of_eq hcalls, rfl⟩

private theorem enterCalls_enter (p : NodePair) (t : Tally) :
    (plan.site.root.enter p t).2.enterCalls = t.enterCalls + 1 := by
  rw [Root.enter]
  split <;> rfl

private theorem exists_leave (h : plan.site.root.admits p = true) (o : Outcome Unit) (a : Setting) :
    ∃ a', Forced plan script ⟨label, .leave p :: frames, .ret o⟩ a ⟨label, frames, .ret o⟩ a' ∧
      Compared plan.site script Shared.standing [] 0 a (.ok ()) a' := by
  refine ⟨{ a with shared := { a.shared with
    token := { a.shared.token with tally := a.shared.token.tally.bump .leaves } } }, ?_, ?_⟩
  · refine ⟨fun _ ↦ rfl, fun _ _ ↦ ?_, rfl⟩
    change Thread.resume _ true ⟨label, frames, _⟩ a.shared (.leave p) o = _
    have hadmits : (plan.during (script a.begun)).site.root.admits p = true := h
    rw [Thread.resume, Root.leave, if_pos hadmits]
    rfl
  · exact .of_findings_eq rfl (Nat.le_refl _) rfl

private theorem does_inline {ps : List NodePair} (h : ∀ c ∈ ps, Does plan script (.enter c)
      (plan.site.root.comparisons c) (6 * (plan.site.root.visits c).length - 2)
      (plan.site.root.visits c).length) :
    Does plan script (.inline ps) (ps.flatMap plan.site.root.comparisons)
      (6 * (ps.flatMap plan.site.root.visits).length + 1)
      (ps.flatMap plan.site.root.visits).length := by
  induction ps with
  | nil =>
    intro label frames a _
    have hdone : Forced plan script ⟨label, frames, .inline []⟩ a
        ⟨label, frames, .ret (.ok ())⟩ a := ⟨fun _ ↦ rfl, fun _ _ ↦ rfl, rfl⟩
    exact ⟨.ok (), a, 1, by simp, hdone.takes, .refl a⟩
  | cons c ps ih =>
    intro label frames a halone
    have hvisits := plan.site.root.length_visits_pos c
    have hfirst : Forced plan script ⟨label, frames, .inline (c :: ps)⟩ a
        ⟨label, .rest ps :: frames, .enter c⟩ a := ⟨fun _ ↦ rfl, fun _ _ ↦ rfl, rfl⟩
    obtain ⟨o, a₁, k, hk, hsearch, hfound⟩ := h c (.head ps) label (.rest ps :: frames) a halone
    rw [List.flatMap_cons, List.flatMap_cons, List.length_append]
    cases o with
    | error stop =>
      have hback : Forced plan script ⟨label, .rest ps :: frames, .ret (.error stop)⟩ a₁
          ⟨label, frames, .ret (.error stop)⟩ a₁ := ⟨fun _ ↦ rfl, fun _ _ ↦ rfl, rfl⟩
      refine ⟨.error stop, a₁, 1 + k + 1, by omega,
        (hfirst.takes.trans hsearch).trans hback.takes, ?_⟩
      exact (hfound.append_error _).mono (by omega)
    | ok u =>
      have hback : Forced plan script ⟨label, .rest ps :: frames, .ret (.ok u)⟩ a₁
          ⟨label, frames, .inline ps⟩ a₁ := ⟨fun _ ↦ rfl, fun _ _ ↦ rfl, rfl⟩
      obtain ⟨o, a₂, k', hk', hrest, hfound'⟩ := ih (fun d hd ↦ h d (.tail c hd)) label frames a₁
        (hfound.solitary halone)
      exact ⟨o, a₂, 1 + k + 1 + k', by omega,
        ((hfirst.takes.trans hsearch).trans hback.takes).trans hrest, hfound.append hfound'⟩

private theorem exists_enter {task : Task} {ps : List NodePair} {n n' calls calls' : Nat}
    (hn : n + 2 ≤ n') (hc : calls + 1 ≤ calls') (halone : plan.Solitary a.shared.token.permits)
    (hadmits : plan.site.root.admits p = true)
    (henter : Thread.enterPair plan ⟨label, frames, .enter p⟩ a.shared p =
      ⟨some ⟨label, .leave p :: frames, task⟩, { a.shared with token := { a.shared.token with
        tally := (plan.site.root.enter p a.shared.token.tally).2 } }, none⟩)
    (h : Does plan script task ps n calls) : ∃ o a', ∃ k ≤ n',
      Takes plan script k ⟨label, frames, .enter p⟩ a ⟨label, frames, .ret o⟩ a' ∧
      Compared plan.site script Shared.standing ps calls' a o a' := by
  let a₁ : Setting := { a with shared := { a.shared with token := { a.shared.token with
    tally := (plan.site.root.enter p a.shared.token.tally).2 } } }
  have hfirst : Forced plan script ⟨label, frames, .enter p⟩ a
      ⟨label, .leave p :: frames, task⟩ a₁ := ⟨fun _ ↦ rfl, fun _ _ ↦ henter, rfl⟩
  have hasked : Compared plan.site script Shared.standing [] 1 a (.ok ()) a₁ :=
    .of_findings_eq rfl (Nat.le_of_eq (enterCalls_enter p _)) rfl
  obtain ⟨o, a₂, k, hk, htask, hfound⟩ := h label (.leave p :: frames) a₁ halone
  obtain ⟨a₃, hleave, hleft⟩ := @exists_leave plan script p label frames hadmits o a₂
  refine ⟨o, a₃, 1 + k + 1, by omega, (hfirst.takes.trans htask).trans hleave.takes, ?_⟩
  exact ((hasked.append hfound).idle hleft).mono (by omega)

private theorem does_fork {first : NodePair} {rest ps : List NodePair} {n calls : Nat}
    (hforks : plan.config.strategy.forks = true)
    (h : Does plan script (.inline (first :: rest)) ps n calls) :
    Does plan script (.fork first rest) ps (n + 1) calls := by
  -- Where no permit is free, the pairs below are searched in order as well.
  intro label frames a halone
  have hnone := Token.tryAcquire_of_available_eq (halone.available hforks) 1
  have hfirst : Forced plan script ⟨label, frames, .fork first rest⟩ a
      ⟨label, frames, .inline (first :: rest)⟩ a := by
    refine ⟨fun _ ↦ rfl, fun _ _ ↦ ?_, rfl⟩
    rw [Thread.advance]
    dsimp only
    rw [hnone]
    rfl
  obtain ⟨o, a₁, k, hk, hinline, hfound⟩ := h label frames a halone
  exact ⟨o, a₁, 1 + k, by omega, hfirst.takes.trans hinline, hfound⟩

/-! ### All pairs below -/

/-- A thread on its own that enters a pair makes the comparisons below it. -/
theorem does_enter (plan : Plan) (script : Script) (p : NodePair) :
    Does plan script (.enter p) (plan.site.root.comparisons p)
      (6 * (plan.site.root.visits p).length - 2) (plan.site.root.visits p).length := by
  induction p using Root.pairs_induction with
  | step p ih =>
    intro label frames a halone
    have hvisits := plan.site.root.length_visits_pos p
    rcases Thread.enterPair_eq plan ⟨label, frames, .enter p⟩ a.shared p with
      ⟨hadmits, henter⟩ | ⟨hadmits, task, htask, henter⟩
    · rw [Root.comparisons_of_not_admits hadmits]
      refine ⟨.ok (), { a with shared := _ }, 1, by omega,
        Forced.takes ⟨fun _ ↦ rfl, fun _ _ ↦ henter, rfl⟩, ?_⟩
      exact Compared.mono (.of_findings_eq rfl (Nat.le_of_eq (enterCalls_enter p _)) rfl) hvisits
    · have hinline := does_inline ih
      have hbelow (hempty : p.isEmpty = false) : (plan.site.root.visits p).length =
          (p.children.flatMap plan.site.root.visits).length + 1 := by
        rw [Root.visits_of_admits hadmits hempty, List.length_cons]
      cases htask with
      | empty hempty =>
        have hdone : Does plan script (.ret (.ok ())) [] 0 0 :=
          fun label frames a _ ↦ ⟨.ok (), a, 0, Nat.le_refl 0, .refl _ a, .refl a⟩
        rw [Root.comparisons_of_isEmpty hempty]
        exact exists_enter (by omega) hvisits halone hadmits henter hdone
      | inline hempty hinternal hpools =>
        rw [Root.comparisons_of_isInternal hadmits hempty hinternal, hbelow hempty]
        exact exists_enter (by omega) (Nat.le_refl _) halone hadmits henter hinline
      | fork hempty hinternal hforks hchildren =>
        rw [Root.comparisons_of_isInternal hadmits hempty hinternal, hbelow hempty]
        rw [hchildren] at hinline ⊢
        exact exists_enter (by omega) (Nat.le_refl _) halone hadmits henter
          (does_fork hforks hinline)
      | consider hempty hinternal hpools =>
        rw [halone.pools] at hpools
        cases hpools
      | compare hempty hterminal =>
        rw [Root.comparisons_of_terminal hadmits hempty hterminal]
        exact exists_enter (by omega) hvisits halone hadmits henter (does_compare p)

end RayAdjacency
