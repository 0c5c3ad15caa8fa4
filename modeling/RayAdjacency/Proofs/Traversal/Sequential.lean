import RayAdjacency.Proofs.Traversal.Duties
import RayAdjacency.Search

/-!
# Searches of one thread

A sequential search is a machine of one thread that does the duties of its pairs in order. The
thread that enters a pair comes back to the frames below with a good outcome, once it has done the
duties of the pair; so the whole machine comes to rest, and the fuel of `Search.run` is enough.
-/

namespace RayAdjacency

/-- The calling thread takes one permit of a budget. -/
theorem Permits.acquireInitial_ofBudget {budget : Nat} (h : 1 ≤ budget) :
    (ofBudget budget).acquireInitial = .ok ⟨budget, budget - 1⟩ := by
  have hone : min budget 1 = 1 := Nat.min_eq_right h
  rw [acquireInitial, tryAcquire, ofBudget]
  simp only [hone]

namespace Token

variable {token : Token} {budget : Nat}

/-- The calling thread gives its permit back. -/
theorem release_of_permits_eq (h : 1 ≤ budget) (hpermits : token.permits = ⟨budget, budget - 1⟩) :
    token.release 1 = .ok { token with permits := ⟨budget, budget⟩ } := by
  have hheld : ¬(⟨budget, budget - 1⟩ : Permits).held < 1 := by
    change ¬budget - (budget - 1) < 1
    omega
  rw [release, hpermits, Permits.release, if_neg hheld, Nat.sub_add_cancel h]
  rfl

/-- A token without children has no failure to hand out. -/
theorem join_of_children_eq (h : token.children = {}) : token.join = (.ok (), token) := by
  cases token
  cases h
  rfl

end Token

namespace Machine

variable {plan : Plan} {limit : Option Nat} {now : Duration}

/-- A machine that the fixed order takes to another one in at most `n` steps. -/
def Reaches (plan : Plan) (limit : Option Nat) (now : Duration) (n : Nat) (m m' : Machine) : Prop :=
  ∃ k, k ≤ n ∧ ∀ fuel, run plan limit now (k + fuel) m = run plan limit now fuel m'

namespace Reaches

variable {n n' : Nat} {m m' m'' : Machine}

/-- A machine is where it is without a step. -/
theorem refl (m : Machine) : Reaches plan limit now 0 m m :=
  ⟨0, Nat.le_refl 0, fun fuel ↦ by rw [Nat.zero_add]⟩

/-- Runs in the fixed order can be put together. -/
theorem trans (h : Reaches plan limit now n m m') (h' : Reaches plan limit now n' m' m'') :
    Reaches plan limit now (n + n') m m'' := by
  obtain ⟨k, hk, hrun⟩ := h
  obtain ⟨k', hk', hrun'⟩ := h'
  refine ⟨k + k', by omega, fun fuel ↦ ?_⟩
  rw [Nat.add_assoc, hrun, hrun']

/-- A bound on the steps may be raised. -/
theorem mono (h : Reaches plan limit now n m m') (hn : n ≤ n') :
    Reaches plan limit now n' m m' := by
  obtain ⟨k, hk, hrun⟩ := h
  exact ⟨k, Nat.le_trans hk hn, hrun⟩

/-- Where the machine has come to rest, more fuel changes nothing. -/
theorem run_eq (h : Reaches plan limit now n m m') (hrest : m'.next? plan limit now = none)
    {fuel : Nat} (hfuel : n ≤ fuel) : run plan limit now fuel m = m' := by
  obtain ⟨k, hk, hrun⟩ := h
  obtain ⟨more, rfl⟩ := Nat.exists_eq_add_of_le (Nat.le_trans hk hfuel)
  rw [hrun]
  cases more with
  | zero => rfl
  | succ more => rw [run, hrest]

end Reaches

/-- What the environment decides in a step of the fixed order. -/
def chance (limit : Option Nat) (now : Duration) (s : Shared) : Chance where
  refused := limit.any (· ≤ s.launched)
  now
  expired := true

/-- A calling thread on its own takes its step if it is not blocked. -/
theorem reaches_step {t t' : Thread} {s s' : Shared}
    (hready : t.isBlocked plan (chance limit now s) true s = false)
    (hstep : t.advance plan (chance limit now s) true s = ⟨some t', s', none⟩) :
    Reaches plan limit now 1 ⟨t, [], s⟩ ⟨t', [], s'⟩ := by
  refine ⟨1, Nat.le_refl 1, fun fuel ↦ ?_⟩
  have hisReady : (⟨t, [], s⟩ : Machine).isReady plan (chance limit now s) t = true := by
    simp [isReady, hready]
  have hnext : (⟨t, [], s⟩ : Machine).next? plan limit now
      = some { chance limit now s with worker := none } := if_pos hisReady
  have hmove : (⟨t, [], s⟩ : Machine).step plan { chance limit now s with worker := none }
      = some ⟨t', [], s'⟩ := by
    change stepCaller plan (chance limit now s) ⟨t, [], s⟩ = _
    rw [stepCaller, if_pos hisReady]
    simp [hstep]
  rw [Nat.add_comm, run, hnext]
  simp only [hmove]

/-! ### Doing duties -/

/-- What the threads share after some duties have been done, and pairs appended. -/
structure Advanced (site : SearchSite) (ds : Multiset Duty) (pairs : List IndexPair)
    (s s' : Shared) : Prop where
  tally_eq : s'.token.tally = s.token.tally + site.tallyOf ds
  sink_eq : s'.sink.toList = s.sink.toList ++ pairs
  permits_eq : s'.token.permits = s.token.permits
  children_eq : s'.token.children = s.token.children

variable {site : SearchSite} {p : NodePair} {label : String} {frames : List Frame}
  {s s' s'' : Shared}

/-- No duties are done in no steps. -/
theorem Advanced.refl (s : Shared) : Advanced site 0 [] s s := by
  constructor <;> simp

/-- Duties are done one after the other. -/
theorem Advanced.trans {ds es : Multiset Duty} {pairs more : List IndexPair}
    (h : Advanced site ds pairs s s') (h' : Advanced site es more s' s'') :
    Advanced site (ds + es) (pairs ++ more) s s'' := by
  constructor
  · rw [h'.tally_eq, h.tally_eq, SearchSite.tallyOf_add, add_assoc]
  · rw [h'.sink_eq, h.sink_eq, List.append_assoc]
  · rw [h'.permits_eq, h.permits_eq]
  · rw [h'.children_eq, h.children_eq]

private theorem reaches_compare (h : (plan.site.compared p).1 = .ok ()) :
    ∃ s', Reaches plan limit now 2 ⟨⟨label, frames, .compare p⟩, [], s⟩
      ⟨⟨label, frames, .ret (.ok ())⟩, [], s'⟩ ∧
      Advanced plan.site (plan.site.compareDuties p) (plan.site.accepted p).toList s s' := by
  obtain ⟨outcome, batch, hcompared⟩ : ∃ o b, plan.site.compared p = (o, b) := ⟨_, _, rfl⟩
  rw [hcompared] at h
  obtain rfl : outcome = .ok () := h
  have haccepted : plan.site.accepted p = batch.accepted := by rw [SearchSite.accepted, hcompared]
  have hrun : (Batch.compare plan.site {} p).run.run {} = (.ok (), batch) := hcompared
  rw [SearchSite.compareDuties, haccepted]
  let s₁ : Shared := { s with
    token := { s.token with tally := s.token.tally + batch.tally }
    asked := s.asked ++ batch.asked }
  have hstep (c : Chance) (hc : c.interference = {}) :
      Thread.advance plan c true ⟨label, frames, .compare p⟩ s =
        if batch.accepted.isEmpty then ⟨some ⟨label, frames, .ret (.ok ())⟩, s₁, none⟩
        else ⟨some ⟨label, frames, .emit batch.accepted⟩, s₁, none⟩ := by
    change Thread.comparePair plan c.interference _ s p = _
    rw [hc, Thread.comparePair, hrun]
    rfl
  have htally : (Duty.compare p).tally plan.site = batch.tally := by rw [Duty.tally, hcompared]
  by_cases hempty : batch.accepted.isEmpty = true
  · refine ⟨s₁, (reaches_step rfl ?_).mono (by omega), ?_⟩
    · rw [hstep _ rfl, if_pos hempty]
    · rw [if_pos hempty, Array.isEmpty_iff.mp hempty]
      constructor
      · simp [htally, s₁]
      · simp [s₁]
      · rfl
      · rfl
  · let s₂ : Shared := { s₁.add .pairsEmitted batch.accepted.size with
      sink := s₁.sink ++ batch.accepted }
    have hfirst : Reaches plan limit now 1 ⟨⟨label, frames, .compare p⟩, [], s⟩
        ⟨⟨label, frames, .emit batch.accepted⟩, [], s₁⟩ := by
      apply reaches_step rfl
      rw [hstep _ rfl, if_neg hempty]
    have hsecond : Reaches plan limit now 1 ⟨⟨label, frames, .emit batch.accepted⟩, [], s₁⟩
        ⟨⟨label, frames, .ret (.ok ())⟩, [], s₂⟩ := reaches_step rfl rfl
    refine ⟨s₂, hfirst.trans hsecond, ?_⟩
    rw [if_neg hempty]
    constructor
    · change (s.token.tally + batch.tally).add .pairsEmitted batch.accepted.size = _
      rw [Tally.add_eq_plus, add_assoc]
      simp [SearchSite.tallyOf, Duty.tally, hcompared]
    · simp [s₂, s₁]
    · rfl
    · rfl

/-- What the threads share after a pair has been asked for. -/
private def askedFor (plan : Plan) (p : NodePair) (s : Shared) : Shared :=
  { s with token := { s.token with tally := (plan.site.root.enter p s.token.tally).2 } }

private theorem advanced_askedFor : Advanced plan.site {.ask p} [] s (askedFor plan p s) := by
  constructor
  · rw [SearchSite.tallyOf_singleton]
    exact Root.enter_snd _ _ _
  · simp [askedFor]
  · rfl
  · rfl

private theorem reaches_refused (h : plan.site.root.admits p = false) :
    Reaches plan limit now 1 ⟨⟨label, frames, .enter p⟩, [], s⟩
      ⟨⟨label, frames, .ret (.ok ())⟩, [], askedFor plan p s⟩ := by
  refine reaches_step rfl ?_
  change Thread.enterPair plan _ s p = _
  have hfst := plan.site.root.enter_fst p s.token.tally
  rw [Thread.enterPair]
  simp only [hfst, h]
  rfl

private theorem reaches_enter (h : plan.site.root.admits p = true) :
    Reaches plan limit now 1 ⟨⟨label, frames, .enter p⟩, [], s⟩
      ⟨⟨label, .leave p :: frames, if p.isEmpty then .ret (.ok ())
        else if p.isInternal then Thread.branchTask plan.config.strategy p else .compare p⟩, [],
        askedFor plan p s⟩ := by
  refine reaches_step rfl ?_
  change Thread.enterPair plan _ s p = _
  have hfst := plan.site.root.enter_fst p s.token.tally
  rw [Thread.enterPair]
  simp only [hfst, h]
  rfl

private theorem reaches_leave (h : plan.site.root.admits p = true) :
    ∃ s', Reaches plan limit now 1 ⟨⟨label, .leave p :: frames, .ret (.ok ())⟩, [], s⟩
      ⟨⟨label, frames, .ret (.ok ())⟩, [], s'⟩ ∧ Advanced plan.site {.leave p} [] s s' := by
  refine ⟨{ s with token := { s.token with tally := s.token.tally.bump .leaves } },
    reaches_step rfl ?_, ?_⟩
  · change Thread.resume plan true ⟨label, frames, _⟩ s (.leave p) (.ok ()) = _
    rw [Thread.resume, Root.leave, if_pos h]
    rfl
  · constructor
    · rw [SearchSite.tallyOf_singleton]
      exact Tally.add_eq_plus s.token.tally .leaves 1
    · simp
    · rfl
    · rfl

private theorem reaches_between (hadmits : plan.site.root.admits p = true) {task : Task} {n : Nat}
    {ds : Multiset Duty} {pairs : List IndexPair}
    (htask : task = if p.isEmpty then .ret (.ok ())
      else if p.isInternal then Thread.branchTask plan.config.strategy p else .compare p)
    (hsearch : Reaches plan limit now n ⟨⟨label, .leave p :: frames, task⟩, [], askedFor plan p s⟩
      ⟨⟨label, .leave p :: frames, .ret (.ok ())⟩, [], s'⟩)
    (h : Advanced plan.site ds pairs (askedFor plan p s) s') :
    ∃ s'', Reaches plan limit now (1 + n + 1) ⟨⟨label, frames, .enter p⟩, [], s⟩
        ⟨⟨label, frames, .ret (.ok ())⟩, [], s''⟩ ∧
      Advanced plan.site ({.ask p} + {.leave p} + ds) pairs s s'' := by
  obtain ⟨s'', hleave, h'⟩ := @reaches_leave plan limit now p label frames s' hadmits
  subst htask
  refine ⟨s'', ((reaches_enter hadmits).trans hsearch).trans hleave, ?_⟩
  have hdone := (advanced_askedFor.trans h).trans h'
  rw [List.nil_append, List.append_nil] at hdone
  rwa [add_assoc, add_comm {Duty.leave p}, ← add_assoc]

private theorem reaches_inline {ps : List NodePair}
    (h : ∀ c ∈ ps, ∀ frames s, ∃ s' n, n + 2 ≤ 6 * (plan.site.root.visits c).length ∧
      Reaches plan limit now n ⟨⟨label, frames, .enter c⟩, [], s⟩
        ⟨⟨label, frames, .ret (.ok ())⟩, [], s'⟩ ∧
      Advanced plan.site (plan.site.duties c) (plan.site.found c) s s')
    (frames : List Frame) (s : Shared) :
    ∃ s' n, n ≤ 6 * (ps.flatMap plan.site.root.visits).length + 1 ∧
      Reaches plan limit now n ⟨⟨label, frames, .inline ps⟩, [], s⟩
        ⟨⟨label, frames, .ret (.ok ())⟩, [], s'⟩ ∧
      Advanced plan.site (plan.site.dutiesOf ps) (ps.flatMap plan.site.found) s s' := by
  induction ps generalizing s with
  | nil => exact ⟨s, 1, Nat.le_refl 1, reaches_step rfl rfl, .refl s⟩
  | cons c ps ih =>
    obtain ⟨s₁, n₁, hn₁, hreaches₁, h₁⟩ := h c (.head ps) (.rest ps :: frames) s
    obtain ⟨s₂, n₂, hn₂, hreaches₂, h₂⟩ := ih (fun d hd ↦ h d (.tail c hd)) s₁
    have hfirst : Reaches plan limit now 1 ⟨⟨label, frames, .inline (c :: ps)⟩, [], s⟩
        ⟨⟨label, .rest ps :: frames, .enter c⟩, [], s⟩ := reaches_step rfl rfl
    have hback : Reaches plan limit now 1 ⟨⟨label, .rest ps :: frames, .ret (.ok ())⟩, [], s₁⟩
        ⟨⟨label, frames, .inline ps⟩, [], s₁⟩ := reaches_step rfl rfl
    refine ⟨s₂, 1 + n₁ + 1 + n₂, ?_, ((hfirst.trans hreaches₁).trans hback).trans hreaches₂, ?_⟩
    · rw [List.flatMap_cons, List.length_append]
      omega
    · rw [SearchSite.dutiesOf_cons, List.flatMap_cons]
      exact h₁.trans h₂

/-- A thread that enters a pair comes back once it has done the duties of the pair. -/
theorem reaches_search (hseq : plan.config.strategy = .sequential) (p : NodePair)
    (hcan : ∀ d ∈ plan.site.duties p, d.CanEnd plan.site) (label : String) (frames : List Frame)
    (s : Shared) : ∃ s' n, n + 2 ≤ 6 * (plan.site.root.visits p).length ∧
      Reaches plan limit now n ⟨⟨label, frames, .enter p⟩, [], s⟩
        ⟨⟨label, frames, .ret (.ok ())⟩, [], s'⟩ ∧
      Advanced plan.site (plan.site.duties p) (plan.site.found p) s s' := by
  induction p using Root.pairs_induction generalizing frames s with
  | step p ih =>
    rw [Root.visits_eq, List.length_cons]
    cases hadmits : plan.site.root.admits p with
    | false =>
      refine ⟨askedFor plan p s, 1, by omega, reaches_refused hadmits, ?_⟩
      rw [SearchSite.duties_of_not_admits hadmits, SearchSite.found_of_not_admits hadmits]
      exact advanced_askedFor
    | true =>
      cases hempty : p.isEmpty with
      | true =>
        obtain ⟨s', hreaches, h⟩ := @reaches_between plan limit now p label frames s
          (askedFor plan p s) hadmits _ 0 0 [] (if_pos hempty).symm (.refl _) (.refl _)
        rw [add_zero] at h
        refine ⟨s', _, by omega, hreaches, ?_⟩
        rwa [SearchSite.duties_of_isEmpty hadmits hempty, SearchSite.found_of_isEmpty hempty]
      | false =>
        cases hinternal : p.isInternal with
        | true =>
          have hduties := SearchSite.duties_of_isInternal hadmits hempty hinternal
          have hbelow : ∀ c ∈ p.children, ∀ d ∈ plan.site.duties c, d.CanEnd plan.site := by
            intro c hc d hd
            apply hcan
            rw [hduties]
            exact Multiset.mem_add.mpr (.inr (SearchSite.mem_dutiesOf hc hd))
          obtain ⟨s₁, n, hn, hinline, h₁⟩ := @reaches_inline plan limit now label p.children
            (fun c hc frames s ↦ ih c hc (hbelow c hc) frames s) (.leave p :: frames)
            (askedFor plan p s)
          obtain ⟨s', hreaches, h⟩ := reaches_between hadmits
            (by rw [hempty, hinternal, hseq]; rfl) hinline h₁
          refine ⟨s', _, ?_, hreaches, ?_⟩
          · simp only [Bool.not_false, Bool.and_self, if_true]
            omega
          · rwa [hduties, SearchSite.found_of_isInternal hadmits hempty hinternal]
        | false =>
          have hduties := SearchSite.duties_of_terminal hadmits hempty hinternal
          have hends : (plan.site.compared p).1 = .ok () := by
            apply hcan (.compare p)
            rw [hduties]
            exact Multiset.mem_add.mpr (.inr SearchSite.compare_mem_compareDuties)
          obtain ⟨s₁, hcompare, h₁⟩ := @reaches_compare plan limit now p label (.leave p :: frames)
            (askedFor plan p s) hends
          obtain ⟨s', hreaches, h⟩ := reaches_between hadmits
            (by rw [hempty, hinternal]; rfl) hcompare h₁
          refine ⟨s', _, by omega, hreaches, ?_⟩
          rwa [hduties, SearchSite.found_of_terminal hadmits hempty hinternal]

/-! ### The whole search -/

/-- A sequential machine comes to rest with a good outcome, and has done all duties, if all of them
can be done. -/
theorem reaches_end (hseq : plan.config.strategy = .sequential) (hthreads : 1 ≤ plan.config.threads)
    (hcan : ∀ d ∈ plan.site.duties plan.site.root.start, d.CanEnd plan.site) :
    ∃ s n, n ≤ Search.effort plan ∧
      Reaches plan limit now n (ofBudget plan.config.threads) ⟨⟨"main", [], .ret (.ok ())⟩, [], s⟩ ∧
      s.token.tally = plan.site.tallyOf (plan.site.duties plan.site.root.start) ∧
      s.sink.toList = plan.site.found plan.site.root.start := by
  let budget := plan.config.threads
  have hbudget : 1 ≤ budget := hthreads
  let s₀ : Shared := { token := { Token.ofBudget budget with permits := ⟨budget, budget - 1⟩ } }
  have hacquire : Reaches plan limit now 1 (ofBudget budget)
      ⟨⟨"main", [.close], .schedule⟩, [], s₀⟩ := by
    apply reaches_step rfl
    rw [Thread.caller, Thread.advance]
    simp only [Token.ofBudget]
    rw [Permits.acquireInitial_ofBudget hbudget]
    rfl
  have hschedule : Reaches plan limit now 1 ⟨⟨"main", [.close], .schedule⟩, [], s₀⟩
      ⟨⟨"main", [.close], .enter plan.site.root.start⟩, [], s₀⟩ := by
    apply reaches_step rfl
    change (⟨some ⟨"main", [.close], Thread.openingTask plan⟩, s₀, none⟩ : Move) = _
    rw [Thread.openingTask, hseq]
  obtain ⟨s₁, n, hn, hsearch, h₁⟩ :=
    reaches_search hseq plan.site.root.start hcan "main" [.close] s₀
  let s₂ : Shared := { s₁ with token := { s₁.token with permits := ⟨budget, budget⟩ } }
  have hclose : Reaches plan limit now 1 ⟨⟨"main", [.close], .ret (.ok ())⟩, [], s₁⟩
      ⟨⟨"main", [], .giveBack (.ok ())⟩, [], s₁⟩ := reaches_step rfl rfl
  have hgiveBack : Reaches plan limit now 1 ⟨⟨"main", [], .giveBack (.ok ())⟩, [], s₁⟩
      ⟨⟨"main", [], .joinAll (.ok ())⟩, [], s₂⟩ := by
    apply reaches_step rfl
    have hrelease : s₁.token.release 1 = .ok s₂.token :=
      Token.release_of_permits_eq hbudget h₁.permits_eq
    rw [Thread.advance]
    simp only [hrelease]
    rfl
  have hchildren : s₂.token.children = {} := h₁.children_eq
  have hjoin : Reaches plan limit now 1 ⟨⟨"main", [], .joinAll (.ok ())⟩, [], s₂⟩
      ⟨⟨"main", [], .ret (.ok ())⟩, [], s₂⟩ := by
    apply reaches_step
    · change decide (0 < s₂.token.children.active) = false
      rw [hchildren]
      rfl
    · rw [Thread.advance]
      simp only [Token.join_of_children_eq hchildren]
      rfl
  refine ⟨s₂, 1 + 1 + n + 1 + 1 + 1, ?_,
    ((((hacquire.trans hschedule).trans hsearch).trans hclose).trans hgiveBack).trans hjoin, ?_, ?_⟩
  · have hvisits := plan.site.root.length_visits_le plan.site.root.start
    have hthreads' : 1 ≤ plan.config.threads + 2 := by omega
    have heffort := Nat.mul_le_mul_left (64 * (plan.site.root.positive.nodeCount
      * plan.site.root.negative.nodeCount + 2)) hthreads'
    rw [Nat.mul_one] at heffort
    change _ ≤ plan.site.root.positive.nodeCount * plan.site.root.negative.nodeCount at hvisits
    apply Nat.le_trans _ heffort
    omega
  · change s₁.token.tally = _
    rw [h₁.tally_eq]
    exact zero_add _
  · change s₁.sink.toList = _
    rw [h₁.sink_eq]
    rfl

end Machine
end RayAdjacency
