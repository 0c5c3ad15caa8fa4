import RayAdjacency.Proofs.Traversal.Accounts
import RayAdjacency.Proofs.Traversal.Conservation
import RayAdjacency.Proofs.Traversal.Gate

/-!
# Smooth runs

In a *smooth* run the environment refuses nothing: every thread that is asked for starts, every read
and every question is answered, and no worker begins to wait after a given moment. Then nothing else
can go wrong. Permits that are given back are held, pairs that are left have been entered, what is
compared is a duty of the search, and the only other step that may panic is the wait of a worker
past the last moment of the clock. So a smooth run never comes into trouble.
-/

namespace RayAdjacency

/-- A step in which the environment refuses nothing, and the clock shows no later moment than
`latest`. It may still let the time of a wait run out. -/
structure Chance.Grants (chance : Chance) (latest : Duration) : Prop where
  refused_eq : chance.refused = false
  now_le : chance.now.toNanos ≤ latest.toNanos
  interference_eq : chance.interference = {}

/-- If the clock can show the end of a wait, it can show that of a wait that begins earlier. -/
theorem ReleasePolicy.passesClock_of_le {policy : ReleasePolicy} {now latest : Duration}
    (hnow : now.toNanos ≤ latest.toNanos) (h : policy.passesClock latest = false) :
    policy.passesClock now = false := by
  cases policy with
  | timeout limit =>
    rw [passesClock, decide_eq_false_iff_not] at h ⊢
    omega
  | _ => rfl

/-- What the search of a plan needs in order not to fail by itself, as long as no wait begins later
than `latest`. Only workers wait for the release of their permits, so a time limit does not matter
to a thread that is alone. -/
structure Plan.Feasible (plan : Plan) (latest : Duration) : Prop where
  threads_pos : 1 ≤ plan.config.threads
  onClock : 1 < plan.config.threads →
    plan.config.strategy.releasePolicy.passesClock latest = false
  solid : plan.site.root.start.Solid
  canEnd : ∀ d ∈ plan.site.duties plan.site.root.start, d.CanEnd plan.site

namespace Thread

variable {plan : Plan} {chance : Chance} {latest : Duration} {caller : Bool} {t : Thread}
  {s : Shared} {k : Nat}

private theorem failure_dropGuard (hbalances : s.token.permits.Balances k) (hk : 1 ≤ k)
    (h : s.token.children.failure = none) :
    (s.token.dropGuard 1).1.children.failure = none := by
  obtain ⟨token, hrelease⟩ := Token.exists_release hbalances hk
  rw [Token.dropGuard, if_neg Nat.one_ne_zero, hrelease]
  exact (congrArg Children.failure (Token.children_of_release hrelease)).trans h

private theorem calm_childrenAfter (hbalances : s.token.permits.Balances k) (hk : t.permits ≤ k)
    (h : t.isTroubled = false) (hs : s.isTroubled = false) :
    (t.childrenAfter s).failure.isSome = false := by
  have hfailure : s.token.children.failure = none := by simpa [Shared.isTroubled] using hs
  rw [isTroubled, Bool.or_eq_false_iff] at h
  have hpermits : t.task.permits + (t.frames.map Frame.permits).sum ≤ k := hk
  rw [Option.isSome_eq_false_iff, Option.isNone_iff_eq_none, childrenAfter]
  split
  · exact hfailure
  · exact hfailure
  · rw [Children.join, hfailure]
    exact hfailure
  · refine failure_dropGuard hbalances ?_ hfailure
    rw [‹t.task = _›] at hpermits
    exact (Nat.le_add_right 1 _).trans hpermits
  · refine failure_dropGuard hbalances ?_ hfailure
    rw [‹t.task = _›] at hpermits
    exact (Nat.le_add_right 1 _).trans hpermits
  · next hframes =>
    refine failure_dropGuard hbalances ?_ hfailure
    rw [hframes, List.map_cons, List.sum_cons, Frame.permits] at hpermits
    omega
  · next o _ htask _ =>
    rw [htask] at h
    cases o with
    | error stop => cases h.1
    | ok u => exact hfailure
  · exact hfailure

private theorem calm_go (h : t.frames.any Frame.isTroubled = false) {task : Task}
    (htask : task.isTroubled = false) : (t.go task).isTroubled = false := by
  change (task.isTroubled || t.frames.any Frame.isTroubled) = false
  rw [htask, h]
  rfl

private theorem calm_call (h : t.frames.any Frame.isTroubled = false) {frame : Frame} {task : Task}
    (hframe : frame.isTroubled = false) (htask : task.isTroubled = false) :
    (t.call frame task).isTroubled = false := by
  change (task.isTroubled || (frame.isTroubled || t.frames.any Frame.isTroubled)) = false
  rw [htask, hframe, h]
  rfl

private theorem calm_enterPair {u : Thread} (pair : NodePair)
    (h : t.frames.any Frame.isTroubled = false)
    (hu : (enterPair plan t s pair).thread = some u) : u.isTroubled = false := by
  rcases enterPair_eq plan t s pair with ⟨-, hmove⟩ | ⟨-, task, hfollows, hmove⟩ <;>
    rw [hmove] at hu <;> cases hu
  · exact calm_go h rfl
  · cases hfollows <;> exact calm_call h rfl rfl

private theorem calm_comparePair {u : Thread} {pair : NodePair}
    (h : t.frames.any Frame.isTroubled = false) (hends : (plan.site.compared pair).1 = .ok ())
    (hu : (comparePair plan {} t s pair).thread = some u) : u.isTroubled = false := by
  revert hu
  fun_cases comparePair plan {} t s pair
  · next hrun =>
    rw [SearchSite.compared, hrun] at hends
    cases hends
  · rintro ⟨⟩
    exact calm_go h rfl
  · rintro ⟨⟩
    exact calm_go h rfl

private theorem calm_resume {u : Thread} {frame : Frame} {outcome : Outcome Unit}
    (h : t.frames.any Frame.isTroubled = false) (hframe : frame.isTroubled = false)
    (houtcome : outcome.isOk = true)
    (hadmits : ∀ pair, frame = .leave pair → plan.site.root.admits pair = true)
    (hu : (resume plan caller t s frame outcome).thread = some u) : u.isTroubled = false := by
  revert hu
  fun_cases resume plan caller t s frame outcome
  all_goals try
    rintro ⟨⟩ <;> first
      | exact calm_go h rfl
      | exact calm_go h hframe
      | exact calm_go h (congrArg not houtcome)
      | cases houtcome
      | cases hframe
  · next hleave =>
    rw [Root.leave, if_pos (hadmits _ rfl)] at hleave
    cases hleave

/-- A new thread is not in trouble. -/
theorem calm_thread (child : Child) : child.thread.isTroubled = false := by
  fun_cases Child.thread child <;> rfl

private theorem calm_joinAll {u : Thread} {searched : Outcome Unit}
    (h : t.frames.any Frame.isTroubled = false) (htask : t.task = .joinAll searched)
    (hsearched : searched.isOk = true) (hs : s.isTroubled = false)
    (hu : (t.advance plan chance caller s).thread = some u) : u.isTroubled = false := by
  have hfailure : s.token.children.failure = none := by simpa [Shared.isTroubled] using hs
  simp only [advance, htask, Token.join, Children.join, hfailure] at hu
  cases hu
  apply calm_go h
  simp [calm, hsearched]

private theorem calm_start {u : Thread} {worker total : Nat}
    (h : t.frames.any Frame.isTroubled = false) (htask : t.task = .start worker total)
    (hu : (t.advance plan chance caller s).thread = some u) : u.isTroubled = false := by
  simp only [advance, htask] at hu
  split at hu <;> cases hu
  · exact calm_call h rfl rfl
  · rcases afterStart_eq plan.config.strategy t with ⟨-, hafter⟩ | ⟨-, hafter⟩ <;> rw [hafter]
    · exact calm_go h rfl
    · exact calm_call h rfl rfl

private theorem calm_expand {u : Thread} (hsolid : plan.site.root.start.Solid)
    (h : t.frames.any Frame.isTroubled = false) (htask : t.task = .expand)
    (hu : (t.advance plan chance caller s).thread = some u) : u.isTroubled = false := by
  obtain ⟨qs, tally, hlevels, -⟩ := @SearchSite.expands_expandLevels plan.site
    [plan.site.root.start] plan.config.strategy.levels (by simpa using hsolid) s.token.tally
  simp only [advance, htask, hlevels] at hu
  cases hu
  exact calm_go h rfl

/-- Where nothing is refused, no step leads into trouble. -/
theorem calm_advance (hgrants : chance.Grants latest) (hsolid : plan.site.root.start.Solid)
    (hbalances : s.token.permits.Balances k) (hk : t.permits ≤ k)
    (hacquire : t.task = .acquire → ∃ permits, s.token.permits.acquireInitial = .ok permits)
    (hends : ∀ pair, t.task = .compare pair → (plan.site.compared pair).1 = .ok ())
    (hadmits : ∀ pair ∈ t.entered, plan.site.root.admits pair = true)
    (hclock : ∀ drained, t.task = .hold drained →
      plan.config.strategy.releasePolicy.passesClock chance.now = false)
    (h : t.isTroubled = false) (hs : s.isTroubled = false) :
    (t.advance plan chance caller s).isTroubled = false := by
  have hshared : (t.advance plan chance caller s).shared.isTroubled = false := by
    rw [Shared.isTroubled, children_advance]
    exact calm_childrenAfter hbalances hk h hs
  rw [isTroubled, Bool.or_eq_false_iff] at h
  obtain ⟨hcalm, hframes⟩ := h
  suffices hthread : ∀ u, (t.advance plan chance caller s).thread = some u → u.isTroubled = false by
    rw [Move.isTroubled, hshared, Bool.or_false, Option.any_eq_false]
    exact hthread
  intro u hu
  cases htask : t.task with
  | acquire =>
    obtain ⟨permits, hpermits⟩ := hacquire htask
    simp only [advance, htask, hpermits] at hu
    cases hu
    exact calm_call hframes rfl rfl
  | schedule =>
    simp only [advance, htask] at hu
    cases hu
    fun_cases openingTask plan <;> exact calm_go hframes rfl
  | giveBack searched =>
    rw [permits_of_task htask, Task.permits] at hk
    obtain ⟨token, hrelease⟩ := Token.exists_release hbalances (n := 1) (by omega)
    simp only [advance, htask, hrelease] at hu
    cases hu
    rw [htask] at hcalm
    exact calm_go hframes hcalm
  | joinAll searched =>
    rw [htask] at hcalm
    exact calm_joinAll hframes htask (by simpa using hcalm) hs hu
  | enter pair =>
    simp only [advance, htask] at hu
    exact calm_enterPair pair hframes hu
  | compare pair =>
    simp only [advance, htask, hgrants.interference_eq] at hu
    exact calm_comparePair hframes (hends pair htask) hu
  | launch child =>
    simp only [advance, htask, hgrants.refused_eq] at hu
    cases hu
    exact calm_go hframes rfl
  | start worker total => exact calm_start hframes htask hu
  | expand => exact calm_expand hsolid hframes htask hu
  | hold drained =>
    simp only [advance, htask, hclock drained htask] at hu
    cases hu
    rw [htask] at hcalm
    exact calm_go hframes hcalm
  | ret outcome =>
    cases hstack : t.frames with
    | nil =>
      simp only [advance, htask, hstack] at hu
      cases hu
      rw [isTroubled, hcalm, hframes, Bool.or_false]
    | cons frame frames =>
      simp only [advance, htask, hstack] at hu
      rw [hstack, List.any_cons, Bool.or_eq_false_iff] at hframes
      refine calm_resume hframes.2 hframes.1 ?_ ?_ hu
      · simpa [htask] using hcalm
      · rintro pair rfl
        exact hadmits pair (by simp [entered, hstack])
  -- Only who is in trouble unwinds, retracts, dismisses or gives back for the others.
  | unwind | retract | unregister | dismiss | refund =>
    rw [htask] at hcalm
    cases hcalm
  | tripped kept =>
    rw [htask] at hcalm
    simp only [advance, htask] at hu
    split at hu <;> cases hu
    · cases kept with
      | ok => exact calm_go hframes rfl
      | error => cases hcalm
    · exact calm_go hframes hcalm
  | inline pairs =>
    cases pairs <;> simp only [advance, htask] at hu <;> cases hu
    · exact calm_go hframes rfl
    · exact calm_call hframes rfl rfl
  | offer first others =>
    cases others with
    | nil =>
      simp only [advance, htask] at hu
      cases hu
      exact calm_go hframes rfl
    | cons pair others =>
      simp only [advance, htask] at hu
      split at hu <;> cases hu <;> exact calm_call hframes rfl rfl
  -- The others go on with a task as calm as their own.
  | _ =>
    rw [htask] at hcalm
    simp only [advance, htask] at hu
    repeat' split at hu
    all_goals
      cases hu
      first
      | exact calm_go hframes rfl
      | exact calm_go hframes hcalm

end Thread

namespace Machine

variable {plan : Plan} {latest now : Duration} {m m' m'' : Machine}

/-- Runs from one machine to another in which nothing is refused, and no wait begins later than
`latest`, under any schedule. -/
inductive Smooth (plan : Plan) (latest : Duration) (m : Machine) : Machine → Prop
  | refl : Smooth plan latest m m
  | step {m' m'' : Machine} {choice : Choice} (h : Smooth plan latest m m')
      (hgrants : choice.toChance.Grants latest) (hstep : m'.step plan choice = some m'') :
      Smooth plan latest m m''

/-- A smooth run is a run. -/
theorem Smooth.leads (h : Smooth plan latest m m') : Leads plan m m' := by
  induction h with
  | refl => exact .refl
  | step _ _ hstep ih => exact ih.step hstep

/-- Smooth runs can be put together. -/
theorem Smooth.trans (h : Smooth plan latest m m') (h' : Smooth plan latest m' m'') :
    Smooth plan latest m m'' := by
  induction h' with
  | refl => exact h
  | step _ hgrants hstep ih => exact ih.step hgrants hstep

private theorem grants_of_next? {choice : Choice} (hnow : now.toNanos ≤ latest.toNanos)
    (h : m.next? plan none now = some choice) : choice.toChance.Grants latest := by
  rw [next?] at h
  split at h
  · cases h
    exact ⟨rfl, hnow, rfl⟩
  · obtain ⟨i, -, rfl⟩ := Option.map_eq_some_iff.mp h
    exact ⟨rfl, hnow, rfl⟩

/-- In the fixed order nothing is refused, unless the number of threads is limited. -/
theorem smooth_run (hnow : now.toNanos ≤ latest.toNanos) (fuel : Nat) (m : Machine) :
    Smooth plan latest m (m.run plan none now fuel) := by
  induction fuel generalizing m with
  | zero => exact .refl
  | succ fuel ih =>
    rw [run]
    split
    · exact .refl
    · next choice hnext =>
      split
      · exact .refl
      · next hstep => exact (Smooth.step .refl (grants_of_next? hnow hnext) hstep).trans (ih _)

private theorem one_lt_threads_of_launch {t : Thread} {child : Child} (hm : Reachable plan m)
    (ht : t ∈ m.threads) (htask : t.task = .launch child) : 1 < plan.config.threads := by
  -- The permit that a new thread brings along is not that of the calling thread.
  obtain ⟨caller, htyped⟩ := (typed_of_reachable hm).exists_typed ht
  have hstands := (htyped.stands htask (by simp)).2
  have hwork : (Task.launch child).place.isWork = true := by
    rw [Task.place]
    cases child.errand <;> rfl
  have hbelow := permits_pos_of_stands hstands hwork
  have hpermits := t.permits_of_task htask
  rcases balances_of_reachable hm with hbalances | ⟨message, ho⟩
  · have hle := le_weigh (f := Thread.permits) ht
    have hbudget := budget_of_reachable hm
    rw [Permits.Balances] at hbalances
    rw [Task.permits] at hpermits
    omega
  · rw [threads, (alone_of_outcome hm ho).1, List.mem_singleton] at ht
    rw [ht, (Thread.outcome?_eq_some ho).2] at htask
    cases htask

/-- A thread whose budget is one permit stays alone. -/
theorem workers_of_threads_le (hthreads : plan.config.threads ≤ 1) (h : Reachable plan m) :
    m.workers = [] := by
  refine Reachable.induction h rfl fun {m m' chance t} hm htyped hmoved ih ↦ ?_
  cases hmoved with
  | caller hready hmove =>
    have hstarted : (m.caller.advance plan chance true m.shared).started = none :=
      Thread.started_eq_none fun child htask ↦
        Nat.not_lt_of_le hthreads (one_lt_threads_of_launch hm (.head _) htask)
    rw [hmove] at hstarted
    obtain rfl := hstarted
    simp [ih]
  | worker hworkers =>
    rw [ih] at hworkers
    simp at hworkers

private theorem compared_of_feasible {t : Thread} {pair : NodePair} (hplan : plan.Feasible latest)
    (hm : Reachable plan m) (ht : t ∈ m.threads) (htask : t.task = .compare pair) :
    (plan.site.compared pair).1 = .ok () := by
  obtain ⟨done, lost, hacc⟩ := exists_accounts hplan.solid hm
  apply hplan.canEnd (.compare pair)
  have howed : Duty.compare pair ∈ owedBy plan.site m.threads := by
    apply mem_owedBy ht
    rw [Thread.owed_of_task htask, Multiset.mem_add]
    exact .inl SearchSite.compare_mem_compareDuties
  rw [← hacc.owed_eq]
  simp only [Multiset.mem_add]
  exact .inl (.inl (.inl howed))

private theorem acquires_of_feasible {t : Thread} (hplan : plan.Feasible latest)
    (hm : Reachable plan m) (ht : t ∈ m.threads) (htask : t.task = .acquire) :
    ∃ permits, m.shared.token.permits.acquireInitial = .ok permits := by
  have htyped := typed_of_reachable hm
  rcases List.mem_cons.mp ht with rfl | ht
  · rw [eq_of_acquire hm htask]
    exact Permits.exists_acquireInitial hplan.threads_pos
  · cases (stands_main ((htyped.workers t ht).stands htask (by simp)).2).2

private theorem onClock_of_feasible {t : Thread} {drained : Outcome Unit}
    (hplan : plan.Feasible latest) (hm : Reachable plan m) (ht : t ∈ m.threads)
    (htask : t.task = .hold drained) (hnow : now.toNanos ≤ latest.toNanos) :
    plan.config.strategy.releasePolicy.passesClock now = false := by
  refine ReleasePolicy.passesClock_of_le hnow (hplan.onClock ?_)
  by_contra hthreads
  rw [threads, workers_of_threads_le (by omega) hm, List.mem_singleton] at ht
  subst ht
  have hstands := ((typed_of_reachable hm).caller.stands htask (by simp)).2
  cases (stands_parting hstands).2

/-- A smooth run never comes into trouble. -/
theorem not_troubled_of_smooth (hplan : plan.Feasible latest)
    (h : Smooth plan latest (ofBudget plan.config.threads) m) : ¬Troubled m := by
  induction h with
  | refl =>
    rintro (⟨t, ht, htroubled⟩ | htroubled)
    · rw [threads, ofBudget, List.mem_singleton] at ht
      subst ht
      cases htroubled
    · cases htroubled
  | @step m m' choice h hgrants hstep ih =>
    have hm : Reachable plan m := h.leads
    have htyped := typed_of_reachable hm
    obtain ⟨t, -, hmoved⟩ := htyped.moved hstep
    rcases balances_of_reachable hm with hbalances | ⟨message, ho⟩
    · obtain ⟨caller, others, hreplaced⟩ := hmoved.exists_replaced
      have ht : t ∈ m.threads := hreplaced.before.mem_iff.mpr (.head _)
      rw [Troubled, not_or] at ih
      have hcalm (u : Thread) (hu : u ∈ m.threads) : u.isTroubled = false :=
        Bool.eq_false_iff.mpr fun htroubled ↦ ih.1 ⟨u, hu, htroubled⟩
      have hmove : (t.advance plan choice.toChance caller m.shared).isTroubled = false :=
        Thread.calm_advance hgrants hplan.solid hbalances (le_weigh ht)
          (acquires_of_feasible hplan hm ht) (fun pair ↦ compared_of_feasible hplan hm ht)
          (fun pair hpair ↦ (gated_of_reachable hm).admits pair (List.mem_flatMap.mpr ⟨t, ht, hpair⟩))
          (fun drained htask ↦ onClock_of_feasible hplan hm ht htask hgrants.now_le) (hcalm t ht)
          (Bool.eq_false_iff.mpr ih.2)
      rw [Move.isTroubled, Bool.or_eq_false_iff, Option.any_eq_false] at hmove
      rintro (⟨u, hu, htroubled⟩ | htroubled)
      -- It is the thread that has moved, the one that it has started, or one of the others.
      · have hu := hreplaced.after.mem_iff.mp hu
        rw [Move.threads, List.append_assoc, List.mem_append, List.mem_append, Option.mem_toList,
          Option.mem_toList] at hu
        rcases hu with hu | hu | hu
        · rw [hmove.1 u hu] at htroubled
          cases htroubled
        · obtain ⟨child, -, -, rfl⟩ := Thread.started_advance hu
          rw [Thread.calm_thread] at htroubled
          cases htroubled
        · rw [hcalm u (hreplaced.before.mem_iff.mpr (.tail t hu))] at htroubled
          cases htroubled
      · rw [hreplaced.shared_eq, hmove.2] at htroubled
        cases htroubled
    · exact absurd hmoved (not_moved_of_outcome hm ho)

end Machine
end RayAdjacency
