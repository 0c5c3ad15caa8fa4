import RayAdjacency.Proofs.Traversal.Sequential

/-!
# Reachable machines

`Machine.Leads` is a run of any length under any schedule: in each step some thread that is not
blocked goes on, and the environment decides what it likes. `Machine.Moved` says what one step does
to the threads. Statements about all threads need not know which thread took the step, so
`Machine.Moved.exists_replaced` forgets it.
-/

namespace RayAdjacency

/-- The threads that one step leaves of a thread: what becomes of it, and the thread that it has
started. -/
def Move.threads (move : Move) : List Thread := move.thread.toList ++ move.started.toList

namespace Machine

/-- The threads of a machine, the calling thread first. -/
def threads (m : Machine) : List Thread := m.caller :: m.workers

/-- Runs from one machine to another, under any schedule. -/
inductive Leads (plan : Plan) (m : Machine) : Machine → Prop
  | refl : Leads plan m m
  | step {m' m'' : Machine} {choice : Choice} (h : Leads plan m m')
      (hstep : m'.step plan choice = some m'') : Leads plan m m''

/-- Machines that a search may come to. -/
def Reachable (plan : Plan) (m : Machine) : Prop := Leads plan (ofBudget plan.config.threads) m

variable {plan : Plan} {m m' m'' : Machine}

/-- The sum of a quantity over several threads. -/
@[simp] def weigh (f : Thread → Nat) : List Thread → Nat
  | [] => 0
  | t :: ts => f t + weigh f ts

section weigh

variable {f g : Thread → Nat} {t : Thread} {ts us : List Thread}

/-- Threads put together weigh the sum of what they weigh. -/
@[simp] theorem weigh_append : weigh f (ts ++ us) = weigh f ts + weigh f us := by
  induction ts with
  | nil => simp [weigh]
  | cons t ts ih => simp [weigh, ih, Nat.add_assoc]

/-- In which order threads are listed does not matter to what they weigh. -/
theorem weigh_perm (h : ts.Perm us) : weigh f ts = weigh f us := by
  induction h with
  | nil => rfl
  | cons t _ ih => rw [weigh, weigh, ih]
  | swap t u ts => simp only [weigh, Nat.add_left_comm]
  | trans _ _ ih ih' => exact ih.trans ih'

/-- No thread weighs more than all do. -/
theorem le_weigh (h : t ∈ ts) : f t ≤ weigh f ts := by
  induction ts with
  | nil => cases h
  | cons u ts ih =>
    rw [weigh]
    rcases List.mem_cons.mp h with rfl | h
    · omega
    · have := ih h
      omega

/-- Threads weigh no more by a measure that is smaller for each. -/
theorem weigh_le_weigh (h : ∀ t ∈ ts, f t ≤ g t) : weigh f ts ≤ weigh g ts := by
  induction ts with
  | nil => exact Nat.le_refl 0
  | cons t ts ih =>
    have ht := h t (.head ts)
    have hts := ih fun u hu ↦ h u (.tail t hu)
    rw [weigh, weigh]
    omega

/-- If no thread counts for more and all together do not count for less, each counts the same. -/
theorem le_of_weigh_le (h : ∀ t ∈ ts, f t ≤ g t) (hsum : weigh g ts ≤ weigh f ts) :
    ∀ t ∈ ts, g t ≤ f t := by
  induction ts with
  | nil => exact fun t ht ↦ absurd ht List.not_mem_nil
  | cons u ts ih =>
    have hu := h u (.head ts)
    have hts := weigh_le_weigh fun t ht ↦ h t (.tail u ht)
    rw [weigh, weigh] at hsum
    intro t ht
    rcases List.mem_cons.mp ht with rfl | ht
    · omega
    · exact ih (fun t ht ↦ h t (.tail u ht)) (by omega) t ht

/-- If threads weigh anything, one of them does. -/
theorem exists_of_weigh_pos (h : 0 < weigh f ts) : ∃ t ∈ ts, 0 < f t := by
  by_contra hnone
  simp only [not_exists, not_and, Nat.not_lt, Nat.le_zero] at hnone
  have hzero : weigh f ts ≤ weigh (fun _ ↦ 0) ts := weigh_le_weigh fun t ht ↦ by rw [hnone t ht]
  have hnil : ∀ ts : List Thread, weigh (fun _ ↦ 0) ts = 0 := by
    intro ts
    induction ts with
    | nil => rfl
    | cons t ts ih => rw [weigh, ih]
  rw [hnil] at hzero
  omega

end weigh

/-- Runs can be put together. -/
theorem Leads.trans (h : Leads plan m m') (h' : Leads plan m' m'') : Leads plan m m'' := by
  induction h' with
  | refl => exact h
  | step _ hstep ih => exact ih.step hstep

/-- What is reachable and leads on is reachable. -/
theorem Reachable.trans (h : Reachable plan m) (h' : Leads plan m m') : Reachable plan m' :=
  Leads.trans h h'

/-- The fixed order is one of the schedules. -/
theorem leads_run (limit : Option Nat) (now : Duration) (fuel : Nat) (m : Machine) :
    Leads plan m (m.run plan limit now fuel) := by
  induction fuel generalizing m with
  | zero => exact .refl
  | succ fuel ih =>
    rw [run]
    split
    · exact .refl
    · split
      · exact .refl
      · next hstep => exact (Leads.step .refl hstep).trans (ih _)

/-- The thread that a choice lets go on, if there is one. -/
def actor (m : Machine) (choice : Choice) : Option Thread :=
  match choice.worker with
  | none => some m.caller
  | some i => m.workers[i]?

/-- A step, with the thread that takes it. -/
inductive Moved (plan : Plan) (chance : Chance) (m : Machine) : Thread → Machine → Prop
  /-- The calling thread goes on. -/
  | caller {t : Thread} {s : Shared} {started : Option Thread}
      (hready : m.caller.isBlocked plan chance m.workers.isEmpty m.shared = false)
      (hmove : m.caller.advance plan chance true m.shared = ⟨some t, s, started⟩) :
      Moved plan chance m m.caller ⟨t, m.workers ++ started.toList, s⟩
  /-- A worker goes on, or ends. -/
  | worker {before after : List Thread} {t : Thread} {move : Move}
      (hworkers : m.workers = before ++ t :: after)
      (hready : t.isBlocked plan chance m.workers.isEmpty m.shared = false)
      (hmove : t.advance plan chance false m.shared = move) :
      Moved plan chance m t
        ⟨m.caller, before ++ move.thread.toList ++ after ++ move.started.toList, move.shared⟩

/-- Every step moves a thread, where the calling thread does not end. -/
theorem moved_of_step {choice : Choice}
    (hcaller : (m.caller.advance plan choice.toChance true m.shared).thread ≠ none)
    (h : m.step plan choice = some m') :
    ∃ t, m.actor choice = some t ∧ Moved plan choice.toChance m t m' := by
  cases hworker : choice.worker with
  | none =>
    rw [step, hworker] at h
    refine ⟨m.caller, by rw [actor, hworker], ?_⟩
    change m.stepCaller plan choice.toChance = some m' at h
    rw [stepCaller] at h
    split at h
    · next hready =>
      cases h
      rw [isReady, Bool.not_eq_true'] at hready
      obtain ⟨thread, s, started, hmove⟩ :
          ∃ thread s started, m.caller.advance plan choice.toChance true m.shared
            = ⟨thread, s, started⟩ := ⟨_, _, _, rfl⟩
      rw [hmove] at hcaller ⊢
      cases thread with
      | none => exact absurd rfl hcaller
      | some t => exact .caller hready hmove
    · cases h
  | some i =>
    rw [step, hworker] at h
    change m.stepWorker plan choice.toChance i = some m' at h
    rw [stepWorker] at h
    cases ht : m.workers[i]? with
    | none =>
      rw [ht] at h
      cases h
    | some t =>
      refine ⟨t, by rw [actor, hworker]; exact ht, ?_⟩
      rw [ht] at h
      simp only [Option.bind_eq_bind, Option.bind_some] at h
      split at h
      · next hready =>
        cases h
        rw [isReady, Bool.not_eq_true'] at hready
        obtain ⟨hi, rfl⟩ := List.getElem?_eq_some_iff.mp ht
        have hworkers : m.workers
            = m.workers.take i ++ m.workers[i] :: m.workers.drop (i + 1) := by
          rw [List.getElem_cons_drop, List.take_append_drop]
        exact .worker hworkers hready rfl
      · cases h

/-- What replaces an element of a list, and what comes after it, may as well come first. -/
theorem splice_perm {α : Type} (before inner after last : List α) :
    (before ++ inner ++ after ++ last).Perm (inner ++ last ++ (before ++ after)) := by
  rw [List.append_assoc, List.append_assoc, List.append_assoc]
  apply (List.perm_append_comm_assoc before _ _).trans
  apply List.Perm.append_left
  rw [← List.append_assoc]
  exact List.perm_append_comm

/-- A step replaces one thread by what becomes of it and the thread that it starts. -/
structure Replaced (plan : Plan) (chance : Chance) (m m' : Machine) (caller : Bool) (t : Thread)
    (others : List Thread) : Prop where
  before : m.threads.Perm (t :: others)
  after : m'.threads.Perm ((t.advance plan chance caller m.shared).threads ++ others)
  shared_eq : m'.shared = (t.advance plan chance caller m.shared).shared
  ready : t.isBlocked plan chance m.workers.isEmpty m.shared = false
  caller_eq : caller = true → t = m.caller
  mem_workers : caller = false → t ∈ m.workers
  others_ne : caller = false → others ≠ []

/-- Every move replaces one thread by what becomes of it. -/
theorem Moved.exists_replaced {chance : Chance} {t : Thread} (h : Moved plan chance m t m') :
    ∃ caller others, Replaced plan chance m m' caller t others := by
  cases h with
  | @caller t s started hready hmove =>
    refine ⟨true, m.workers, ?_⟩
    constructor
    · exact .refl _
    · rw [hmove]
      apply List.Perm.cons
      exact List.perm_append_comm
    · rw [hmove]
    · exact hready
    · exact fun _ ↦ rfl
    · exact fun h ↦ by cases h
    · exact fun h ↦ by cases h
  | @worker before after t move hworkers hready hmove =>
    subst hmove
    refine ⟨false, m.caller :: (before ++ after), ?_⟩
    constructor
    · rw [threads, hworkers]
      exact (List.perm_middle.cons m.caller).trans (.swap t m.caller _)
    · exact ((splice_perm _ _ _ _).cons m.caller).trans List.perm_middle.symm
    · rfl
    · exact hready
    · exact fun h ↦ by cases h
    · exact fun _ ↦ hworkers ▸ by simp
    · exact fun _ h ↦ by cases h

end Machine
end RayAdjacency
