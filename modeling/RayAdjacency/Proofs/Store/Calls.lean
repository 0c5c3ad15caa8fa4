import RayAdjacency.Proofs.Store.Partition

/-!
# Calls that a store answers or refuses

`Store.Answered` relates two states of a store between which every call has been answered, and
`Store.Gives` says that one call has not been. A computation that `Reports` goes on as long as its
calls are answered and hands out what the first other one gives. Partitioning is such a computation:
with one read for each ray of its window it ends, and wherever it has to stop, the window holds the
rays that it held.
-/

namespace RayAdjacency.Store

variable {α β : Type} {s s' s'' : Store} {e : Stop}

/-- Runs of calls, each of which the store answers. -/
inductive Answered (s : Store) : Store → Prop
  | refl : Answered s s
  /-- A read that gives a ray. -/
  | read {s' s'' : Store} {i : Nat} {ray : Ray} (h : Answered s s')
      (hread : (Store.read i).run.run s' = (.ok ray, s'')) : Answered s s''
  /-- An exchange that is made. -/
  | swap {s' s'' : Store} {a b : Nat} (h : Answered s s')
      (hswap : (Store.swap a b).run.run s' = (.ok (), s'')) : Answered s s''

/-- A call that gives no answer but `e`. -/
inductive Gives (s s' : Store) (e : Stop) : Prop
  | read {i : Nat} (h : (Store.read i).run.run s = (.error e, s'))
  | swap {a b : Nat} (h : (Store.swap a b).run.run s = (.error e, s'))

/-- One run of answered calls after the other. -/
theorem Answered.trans (h : Answered s s') (h' : Answered s' s'') : Answered s s'' := by
  induction h' with
  | refl => exact h
  | read _ hread ih => exact ih.read hread
  | swap _ hswap ih => exact ih.swap hswap

/-- A computation whose calls are answered up to the last one, which gives what it stops with. -/
def Reports (m : StoreM α) (s : Store) : Prop :=
  Ends m s (fun _ s' ↦ Answered s s') fun e s' ↦ ∃ s₁, Answered s s₁ ∧ Gives s₁ s' e

/-- A read is one call. -/
theorem reports_read (i : Nat) (s : Store) : Reports (read i) s := by
  unfold Reports Ends
  rcases hrun : (read i).run.run s with ⟨e | ray, s'⟩
  · exact ⟨s, .refl, .read hrun⟩
  · exact .read .refl hrun

/-- An exchange is one call. -/
theorem reports_swap (a b : Nat) (s : Store) : Reports (swap a b) s := by
  unfold Reports Ends
  rcases hrun : (swap a b).run.run s with ⟨e | ⟨⟩, s'⟩
  · exact ⟨s, .refl, .swap hrun⟩
  · exact .swap .refl hrun

/-- A sequence makes the calls of its steps. -/
theorem Reports.bind {m : StoreM α} {f : α → StoreM β} (hm : Reports m s)
    (hf : ∀ a s', Reports (f a) s') : Reports (m >>= f) s := by
  refine ends_bind.mpr (Ends.mono hm (fun a s' hs ↦ ?_) fun _ _ h ↦ h)
  refine (hf a s').mono (fun _ _ hs' ↦ hs.trans hs') ?_
  rintro e s'' ⟨s₁, hs₁, hgives⟩
  exact ⟨s₁, hs.trans hs₁, hgives⟩

/-- Splitting a window reads rays and exchanges them. -/
theorem reports_split (bit gap low : Nat) (s : Store) : Reports (split bit gap low) s := by
  induction gap generalizing low s with
  | zero => exact .refl
  | succ gap ih =>
    rw [split]
    refine (reports_read low s).bind fun ray s₁ ↦ ?_
    split
    · exact (reports_swap _ _ s₁).bind fun _ s₂ ↦ ih low s₂
    · exact ih (low + 1) s₁

/-! ### Numbers of calls -/

private theorem ends_read_calls (i : Nat) (s : Store) :
    Ends (read i) s (fun _ s' ↦ s'.reads = s.reads + 1 ∧ s'.swaps = s.swaps)
      fun _ s' ↦ s'.reads = s.reads + 1 ∧ s'.swaps = s.swaps ∧ s'.rays = s.rays := by
  simp only [read, ends_bind, ends_get, ends_set]
  cases s.answer s.reads i
  · exact ⟨rfl, rfl, rfl⟩
  · exact ⟨rfl, rfl⟩

private theorem ends_swap_calls (a b : Nat) (s : Store) :
    Ends (swap a b) s (fun _ s' ↦ s'.reads = s.reads ∧ s'.swaps = s.swaps + 1)
      fun _ s' ↦ s'.reads = s.reads ∧ s'.swaps = s.swaps + 1 ∧ s'.rays = s.rays := by
  simp only [swap, ends_bind, ends_get, ends_set]
  split
  · exact ⟨rfl, rfl, rfl⟩
  · split
    · exact ⟨rfl, rfl⟩
    · refine ends_bind.mpr ?_
      cases Outcome.add (max a b) 1 <;> exact ⟨rfl, rfl, rfl⟩

/-- A call that gives no answer moves no ray. -/
theorem Gives.rays_eq (h : Gives s s' e) : s'.rays = s.rays := by
  cases h with
  | read h => exact ((ends_read_calls _ s).of_error h).2.2
  | swap h => exact ((ends_swap_calls _ _ s).of_error h).2.2

/-- Splitting a window looks at each of its rays once, and moves it at most once. -/
theorem ends_split_calls (bit gap low : Nat) (s : Store) :
    Ends (split bit gap low) s
      (fun _ s' ↦ s'.reads = s.reads + gap ∧ s'.swaps ≤ s.swaps + gap)
      fun _ s' ↦ s'.reads ≤ s.reads + gap ∧ s'.swaps ≤ s.swaps + gap := by
  induction gap generalizing low s with
  | zero => exact ⟨rfl, Nat.le_refl _⟩
  | succ gap ih =>
    rw [split]
    refine ends_bind.mpr ((ends_read_calls low s).mono ?_ fun _ s₁ h ↦ by omega)
    intro ray s₁ h₁
    split
    · refine ends_bind.mpr ((ends_swap_calls _ _ s₁).mono ?_ fun _ s₂ h ↦ by omega)
      intro _ s₂ h₂
      exact (ih low s₂).mono (fun _ s₃ h ↦ by omega) fun _ s₃ h ↦ by omega
    · exact (ih (low + 1) s₁).mono (fun _ s₂ h ↦ by omega) fun _ s₂ h ↦ by omega

/-! ### Partitions -/

/-- A store whose window has been worked on: it holds the rays that it held, all other rays are where
they were, and there has been at most one read and one exchange for each ray of the window. -/
structure Stays (start stop : Nat) (s s' : Store) : Prop where
  window_perm : (s'.rays.extract start stop).Perm (s.rays.extract start stop)
  outside : ∀ i, i < start ∨ stop ≤ i → s'.rays[i]? = s.rays[i]?
  reads_le : s'.reads ≤ s.reads + (stop - start)
  swaps_le : s'.swaps ≤ s.swaps + (stop - start)

/-- What partitioning a window of a store on a bit comes to. -/
structure Partitions (s : Store) (start stop bit : Nat) : Prop where
  /-- A store that refuses nothing gives the border of a window. -/
  answers : start ≤ stop → stop ≤ s.size → s.Answers →
    ∃ border s', (partition start stop bit).run.run s = (.ok border, s')
  /-- A border that is given parts the window, and all calls have been answered. -/
  parts : start ≤ stop → stop ≤ s.size → ∀ border s',
    (partition start stop bit).run.run s = (.ok border, s') →
      Parted bit start stop border s' ∧ Stays start stop s s' ∧
        Answered { s with calls := .partition start stop bit :: s.calls } s'
  /-- What is given instead of a border is what the last call has given, and all calls before it
  have been answered. -/
  stops : start ≤ stop → stop ≤ s.size → ∀ e s',
    (partition start stop bit).run.run s = (.error e, s') →
      Stays start stop s s' ∧ (∃ failure, e = .failed failure) ∧ ∃ s₁,
        Answered { s with calls := .partition start stop bit :: s.calls } s₁ ∧ Gives s₁ s' e ∧
          s'.rays = s₁.rays
  /-- Anything but a window of the store is refused, and no call is made. -/
  refuses : ¬(start ≤ stop ∧ stop ≤ s.size) →
    (partition start stop bit).run.run s = (.error (.failed (.invalidRange start stop s.size)),
      { s with calls := .partition start stop bit :: s.calls })

variable {start stop bit : Nat}

private theorem run_partition (hstart : start ≤ stop) (hstop : stop ≤ s.size) :
    (partition start stop bit).run.run s = (split bit (stop - start) start).run.run
      { s with calls := .partition start stop bit :: s.calls } := by
  have hin : start ≤ stop ∧ stop ≤ s.size := ⟨hstart, hstop⟩
  simp only [partition, run_bind]
  exact congrArg (fun m : StoreM Nat ↦ m.run.run _) (if_pos hin)

/-- Every store partitions its windows, whatever it refuses, and nothing else. -/
theorem partitions (s : Store) (start stop bit : Nat) : Partitions s start stop bit where
  answers hstart hstop hs := by
    obtain ⟨border, s', hrun, -⟩ := (confined_partition bit hstart hstop).exists_ok hs
    exact ⟨border, s', hrun⟩
  parts hstart hstop border s' hrun := by
    obtain ⟨hrearranged, hparted⟩ := Ends.of_ok (confined_partition bit hstart hstop) hrun
    rw [run_partition hstart hstop] at hrun
    obtain ⟨hreads, hswaps⟩ := (ends_split_calls _ _ _ _).of_ok hrun
    exact ⟨hparted, ⟨hrearranged.window_perm hstart hstop, hrearranged.outside,
      Nat.le_of_eq hreads, hswaps⟩, Ends.of_ok (reports_split _ _ _ _) hrun⟩
  stops hstart hstop e s' hrun := by
    obtain ⟨hrearranged, -, hfailed⟩ := Ends.of_error (confined_partition bit hstart hstop) hrun
    rw [run_partition hstart hstop] at hrun
    obtain ⟨hreads, hswaps⟩ := (ends_split_calls _ _ _ _).of_error hrun
    obtain ⟨s₁, hanswered, hgives⟩ := Ends.of_error (reports_split _ _ _ _) hrun
    exact ⟨⟨hrearranged.window_perm hstart hstop, hrearranged.outside, hreads, hswaps⟩, hfailed, s₁,
      hanswered, hgives, hgives.rays_eq⟩
  refuses h := by
    simp only [partition, run_bind]
    exact congrArg (fun m : StoreM Nat ↦ m.run.run _) (if_neg h)

end RayAdjacency.Store
