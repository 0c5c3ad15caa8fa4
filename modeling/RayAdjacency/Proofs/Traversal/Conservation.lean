import RayAdjacency.Proofs.Root.Build
import RayAdjacency.Proofs.Search.Exact
import RayAdjacency.Proofs.Traversal.Permits

/-!
# Conservation of permits

Whoever does search work holds a permit: it stands on the frame of a permit that it has brought along
or taken. So a search never works with more threads than its budget allows, every permit can be given
back, and a search that ends without a panic has given all of them back.
-/

namespace RayAdjacency

/-- Whether a part of a search is search work, and not the beginning or the end of a thread. -/
def Place.isWork : Place → Bool
  | parting | main | gone => false
  | _ => true

/-- Whether a thread does search work, or goes on to do so. -/
def Thread.works (t : Thread) : Bool := t.task.place.isWork || t.frames.any (·.place.isWork)

/-- How many permits a thread gives back in its next step, if that is what it does. -/
def Thread.gives (t : Thread) : Option Nat :=
  match t.task, t.frames with
  | .giveBack _, _ | .retract _, _ | .surrender _, _ | .ret _, .permit :: _ => some 1
  | .refund unstarted _, _ => some (unstarted - 1)
  | _, _ => none

section Stack

variable {strategy : Strategy} {caller : Bool} {frames : List Frame} {p : Place}

/-- Search work stands on a permit. -/
theorem permits_pos_of_stands (h : Stands strategy caller frames p) (hp : p.isWork = true) :
    0 < (frames.map Frame.permits).sum := by
  induction frames generalizing p with
  | nil =>
    cases h
    cases caller <;> cases hp
  | cons f frames ih =>
    obtain ⟨hhosts, -, hbelow⟩ := h
    rw [List.map_cons, List.sum_cons]
    by_cases hf : f.place.isWork = true
    · exact Nat.add_pos_right _ (ih hbelow hf)
    · cases f <;> first
        | exact absurd rfl hf
        | exact Nat.add_pos_left Nat.one_pos _
        | skip
      obtain rfl : p = .parting := by simpa [Frame.hosts] using hhosts
      cases hp

private theorem permits_pos_of_any (h : Stands strategy caller frames p)
    (hany : frames.any (·.place.isWork) = true) : 0 < (frames.map Frame.permits).sum := by
  induction frames generalizing p with
  | nil => cases hany
  | cons f frames ih =>
    obtain ⟨-, -, hbelow⟩ := h
    rw [List.map_cons, List.sum_cons]
    rw [List.any_cons, Bool.or_eq_true] at hany
    rcases hany with hf | hany
    · exact Nat.add_pos_right _ (permits_pos_of_stands hbelow hf)
    · exact Nat.add_pos_right _ (ih hbelow hany)

end Stack

namespace Thread

variable {plan : Plan} {chance : Chance} {caller : Bool} {t : Thread} {s : Shared} {k n : Nat}

/-- Whoever does search work holds a permit. -/
theorem permits_pos_of_works {strategy : Strategy} (htyped : t.Typed strategy caller)
    (h : t.works = true) : 0 < t.permits := by
  rw [works, Bool.or_eq_true] at h
  rw [permits]
  by_cases hret : ∃ o, t.task = .ret o
  · obtain ⟨o, htask⟩ := hret
    have hreturns := htyped.returns htask
    rw [htask] at h
    replace h := h.resolve_left Bool.false_ne_true
    cases hframes : t.frames with
    | nil => simp [hframes] at h
    | cons f frames =>
      rw [hframes] at h hreturns
      obtain ⟨-, -, hbelow⟩ := hreturns
      rw [List.any_cons, Bool.or_eq_true] at h
      rw [List.map_cons, List.sum_cons]
      rcases h with hf | hany
      · have := permits_pos_of_stands hbelow hf
        omega
      · have := permits_pos_of_any hbelow hany
        omega
  · have hstands := (htyped.stands rfl fun o ho ↦ hret ⟨o, ho⟩).2
    rcases h with hp | hany
    · have := permits_pos_of_stands hstands hp
      omega
    · have := permits_pos_of_any hstands hany
      omega

/-- A thread holds the permits that it gives back. -/
theorem gives_le_permits (h : t.gives = some n) : n ≤ t.permits := by
  rw [gives] at h
  split at h <;> cases h <;> simp [permits, *, Task.permits, Frame.permits]

/-- Permits that are held are taken back. -/
theorem release_of_gives (hbalances : s.token.permits.Balances k) (hn : n ≤ k)
    (h : t.gives = some n) : ∃ token, s.token.release n = .ok token ∧
      (t.advance plan chance caller s).shared.token.permits = token.permits := by
  obtain ⟨token, hrelease⟩ := Token.exists_release hbalances hn
  have hdrop (hone : n = 1) : (s.token.dropGuard 1).1 = token := by
    rw [Token.dropGuard, if_neg Nat.one_ne_zero, ← hone, hrelease]
  refine ⟨token, hrelease, ?_⟩
  rw [gives] at h
  split at h <;> cases h
  · next htask => simp only [advance, htask, hrelease]
  · next htask => simp only [advance, htask, Shared.token_dropPermit, hdrop rfl]
  · next htask => simp only [advance, htask, Shared.token_dropPermit, hdrop rfl]
  · next htask hframes =>
    simp only [advance, htask, hframes]
    exact congrArg Token.permits ((Shared.token_dropPermit s caller).trans (hdrop rfl))
  · next htask => simp only [advance, htask, hrelease]

end Thread

namespace Machine

variable {plan : Plan} {m : Machine}

private theorem countP_works_le {strategy : Strategy} {ts : List Thread}
    (h : ∀ t ∈ ts, ∃ caller, t.Typed strategy caller) :
    ts.countP Thread.works ≤ weigh Thread.permits ts := by
  induction ts with
  | nil => exact Nat.le_refl 0
  | cons t ts ih =>
    have hts := ih fun u hu ↦ h u (.tail t hu)
    rw [weigh]
    by_cases hworks : t.works = true
    · obtain ⟨caller, htyped⟩ := h t (.head ts)
      have := Thread.permits_pos_of_works htyped hworks
      rw [List.countP_cons_of_pos hworks]
      omega
    · rw [List.countP_cons_of_neg hworks]
      omega

/-- A search whose permits are conserved. -/
structure Conserves (plan : Plan) : Prop where
  /-- The permit of the calling thread is never refused. -/
  acquires : ∀ {m t}, Reachable plan m → t ∈ m.threads → t.task = .acquire →
    ∃ permits, m.shared.token.permits.acquireInitial = .ok permits
  /-- Whoever does search work holds a permit, so there are never more of them than the budget
  allows. -/
  works : ∀ {m}, Reachable plan m →
    m.threads.countP Thread.works ≤ m.shared.token.permits.held ∧
      m.shared.token.permits.held ≤ plan.config.threads
  /-- No permit that is given back is refused. -/
  gives : ∀ {m t n}, Reachable plan m → t ∈ m.threads → t.gives = some n →
    ∃ token, m.shared.token.release n = .ok token ∧ ∀ chance caller,
      (t.advance plan chance caller m.shared).shared.token.permits = token.permits
  /-- A search that ends without a panic has given all permits back, and no child is active. -/
  ends : ∀ {m o}, Reachable plan m → m.outcome? = some o →
    (∀ message, o ≠ .error (.panicked message)) →
    m.shared.token.permits.available = plan.config.threads ∧
      m.shared.token.permits.held = 0 ∧ m.shared.token.children.active = 0

private theorem exists_acquire {t : Thread} (hthreads : 1 ≤ plan.config.threads)
    (h : Reachable plan m) (ht : t ∈ m.threads) (htask : t.task = .acquire) :
    ∃ permits, m.shared.token.permits.acquireInitial = .ok permits := by
  have htyped := typed_of_reachable h
  rcases List.mem_cons.mp ht with rfl | ht
  · rw [eq_of_acquire h htask]
    exact Permits.exists_acquireInitial hthreads
  · cases (stands_main ((htyped.workers t ht).stands htask (by simp)).2).2

/-- Under every strategy and schedule, and whatever fails, a search conserves its permits. -/
theorem conserves_of_validate (hvalid : plan.config.validate = .ok ()) : Conserves plan := by
  have hended {m : Machine} {o : Outcome Unit} (h : Reachable plan m) (ho : m.outcome? = some o) :
      m.threads = [m.caller] ∧ m.caller.frames = [] ∧ m.caller.task = .ret o := by
    obtain ⟨hframes, htask⟩ := Thread.outcome?_eq_some ho
    exact ⟨by rw [threads, (alone_of_outcome h ho).1], hframes, htask⟩
  constructor
  · exact exists_acquire (Config.threads_pos_of_validate hvalid)
  · intro m h
    have hbudget := budget_of_reachable h
    refine ⟨?_, hbudget ▸ Nat.sub_le _ _⟩
    rcases balances_of_reachable h with hbalances | ⟨message, ho⟩
    · have hle := countP_works_le fun t ht ↦ (typed_of_reachable h).exists_typed ht
      rw [Permits.Balances] at hbalances
      rw [Permits.held]
      omega
    · obtain ⟨hthreads, hframes, htask⟩ := hended h ho
      rw [hthreads, List.countP_cons_of_neg (by
        rw [Thread.works, htask, hframes]
        exact Bool.false_ne_true)]
      exact Nat.zero_le _
  · intro m t n h ht hgives
    rcases balances_of_reachable h with hbalances | ⟨message, ho⟩
    · have hn := (Thread.gives_le_permits hgives).trans (le_weigh ht)
      obtain ⟨token, hrelease, -⟩ :=
        @Thread.release_of_gives plan {} true t m.shared _ n hbalances hn hgives
      refine ⟨token, hrelease, fun chance caller ↦ ?_⟩
      obtain ⟨token', hrelease', hpermits⟩ :=
        @Thread.release_of_gives plan chance caller t m.shared _ n hbalances hn hgives
      obtain rfl := Except.ok.inj (hrelease.symm.trans hrelease')
      exact hpermits
    · obtain ⟨hthreads, hframes, htask⟩ := hended h ho
      rw [hthreads, List.mem_singleton] at ht
      rw [Thread.gives, ht, htask, hframes] at hgives
      cases hgives
  · intro m o h ho hcalm
    obtain ⟨hthreads, hframes, htask⟩ := hended h ho
    have hbudget := budget_of_reachable h
    have hheads := heads_threads h
    rw [hthreads, weigh, Thread.heads, htask, weigh] at hheads
    change 1 + 0 = _ at hheads
    rcases balances_of_reachable h with hbalances | ⟨message, ho'⟩
    · rw [Permits.Balances, hthreads, weigh, Thread.permits, htask, hframes] at hbalances
      simp only [Task.permits, List.map_nil, List.sum_nil, weigh, Nat.zero_add] at hbalances
      rw [Permits.held]
      omega
    · exact absurd (Option.some.inj (ho.symm.trans ho')) (hcalm message)

/-- Four rays searched by a job queue of two threads. -/
theorem conserves_of_validate_crossing : ∃ r built,
    (Root.build { order := .natural } ⟨1⟩).run.run { stores := Stores.crossing } = (.ok r, built) ∧
    ∃ m o, Reachable ⟨⟨r, built.stores, .combinatorial⟩, .jobQueue 2 1 .waitHalfDone, 0⟩ m ∧
      m.outcome? = some o ∧
      Conserves ⟨⟨r, built.stores, .combinatorial⟩, .jobQueue 2 1 .waitHalfDone, 0⟩ := by
  have hpasses : Root.crossingPasses (fun r stores ↦ ((ofBudget 2).run
      ⟨⟨r, stores, .combinatorial⟩, .jobQueue 2 1 .waitHalfDone, 0⟩ none .zero
        400).outcome?.isSome) = true := by
    decide +kernel
  obtain ⟨r, built, hbuild, hrun⟩ := Root.exists_build_crossing hpasses
  obtain ⟨o, ho⟩ := Option.isSome_iff_exists.mp hrun
  have hreachable := @leads_run ⟨⟨r, built.stores, .combinatorial⟩, .jobQueue 2 1 .waitHalfDone, 0⟩
    none .zero 400 (ofBudget 2)
  exact ⟨r, built, hbuild, _, o, hreachable, ho,
    conserves_of_validate (show (Config.jobQueue 2 1 .waitHalfDone).validate = .ok () by decide)⟩

end Machine
end RayAdjacency
