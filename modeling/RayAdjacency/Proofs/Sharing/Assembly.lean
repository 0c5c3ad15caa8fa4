import RayAdjacency.Proofs.Sharing.Roster
import RayAdjacency.Sharing.Assembly

/-!
# Generations of a barrier

A generation trips only when every registered party waits in it. So as long as a wait of a tripped
generation has not returned, its party is missing from every later generation, none of which can
trip: the number of the last tripped generation is still its own. `Assembly.Orderly` is the
invariant that says so, `Assembly.Truthful` that every wait has returned how its own generation
ended, and `Assembly.synchronizes` collects what the parties of a barrier can rely on.
-/

namespace RayAdjacency

namespace Barrier

variable {b : Barrier}

/-- The last party to arrive trips the generation. -/
theorem arrive_of_eq (h : b.waiting + 1 = b.parties) : b.arrive = (.trips, b.trip) := by
  rw [arrive, if_pos h]
  rfl

/-- Any other party waits. -/
theorem arrive_of_ne (h : b.waiting + 1 ≠ b.parties) :
    b.arrive = (.waits b.generation, { b with waiting := b.waiting + 1 }) := by
  rw [arrive, if_neg h]

/-- The barrier without one of its parties, none of which is the last. -/
def dismiss (b : Barrier) : Barrier :=
  { b with parties := if 1 < b.parties then b.parties - 1 else b.parties }

/-- A party that leaves trips the generation if everybody else is waiting. -/
theorem leave_eq (b : Barrier) : b.leave =
    if 0 < b.waiting ∧ b.waiting = b.dismiss.parties then b.dismiss.trip else b.dismiss := by
  rw [leave, dismiss]
  split <;> rfl

end Barrier

namespace Assembly

/-- Number of parties that have not left. -/
def registered (a : Assembly) : Nat := a.parties.countP Attendance.isRegistered

/-- Number of parties whose wait in a generation has not returned. -/
def waiters (a : Assembly) (g : Nat) : Nat := a.parties.countP (Attendance.isInside g)

/-- Number of waits in a generation that have returned as its leader. -/
def leaders (a : Assembly) (g : Nat) : Nat :=
  a.answers.countP fun x ↦ x.generation == g && x.outcome == .tripped true

/-- What one step does, by what comes of it. -/
inductive Turned (a : Assembly) : AssemblyStep → Assembly → Prop
  /-- A party arrives and is not the last one. -/
  | blocked {i : Nat} (haway : a.parties[i]? = some .away)
      (hfew : a.barrier.waiting + 1 ≠ a.barrier.parties) :
      Turned a (.arrive i)
        { a with
          barrier := { a.barrier with waiting := a.barrier.waiting + 1 }
          parties := a.parties.set i (.inside a.barrier.generation) }
  /-- The last party arrives, and returns at once. -/
  | completed {i : Nat} (haway : a.parties[i]? = some .away)
      (hall : a.barrier.waiting + 1 = a.barrier.parties) :
      Turned a (.arrive i)
        { a with
          barrier := a.barrier.trip
          endings := a.endings ++ [.tripped true]
          answers := ⟨i, a.barrier.generation, .tripped true⟩ :: a.answers }
  /-- A party wakes for nothing, or nobody is there to be called back. -/
  | idle {act : AssemblyStep} : Turned a act a
  /-- A party wakes and returns. -/
  | returned {i g : Nat} {outcome : BarrierWait} (hinside : a.parties[i]? = some (.inside g))
      (hverdict : a.barrier.verdict g = some outcome) :
      Turned a (.wake i)
        { a with
          parties := a.parties.set i .away
          answers := ⟨i, g, outcome⟩ :: a.answers }
  /-- The waiting parties are called back. -/
  | broken (hsome : a.barrier.waiting ≠ 0) :
      Turned a .breakWaiters
        { a with
          barrier := { a.barrier with waiting := 0, generation := a.barrier.generation + 1 }
          endings := a.endings ++ [.broken] }
  /-- A party leaves, and somebody else is missing or nobody waits. -/
  | left {i : Nat} (haway : a.parties[i]? = some .away)
      (hfew : ¬(0 < a.barrier.waiting ∧ a.barrier.waiting = a.barrier.dismiss.parties)) :
      Turned a (.leave i)
        { a with
          barrier := a.barrier.dismiss
          parties := a.parties.set i .gone }
  /-- The only party that was missing leaves. -/
  | vacated {i : Nat} (haway : a.parties[i]? = some .away) (hsome : 0 < a.barrier.waiting)
      (hall : a.barrier.waiting = a.barrier.dismiss.parties) :
      Turned a (.leave i)
        { a with
          barrier := a.barrier.dismiss.trip
          parties := a.parties.set i .gone
          endings := a.endings ++ [.tripped false] }

variable {parties : Nat} {a a' : Assembly} {act : AssemblyStep} {i g : Nat}

private theorem turn_of_eq {barrier : Barrier} {ending : Ending}
    (h : barrier.generation = a.barrier.generation) :
    a.turn barrier ending = { a with barrier } := by
  rw [turn, if_pos h]

private theorem turn_of_ne {barrier : Barrier} {ending : Ending}
    (h : barrier.generation = a.barrier.generation + 1) :
    a.turn barrier ending = { a with barrier, endings := a.endings ++ [ending] } := by
  rw [turn, if_neg (by omega)]

/-- Whatever step is taken, it is one of these. -/
theorem turned_of_step (h : a.step act = some a') : Turned a act a' := by
  cases act with
  | arrive i =>
    rw [step] at h
    split at h
    · next haway =>
      by_cases hall : a.barrier.waiting + 1 = a.barrier.parties
      · rw [Barrier.arrive_of_eq hall] at h
        dsimp only at h
        rw [turn_of_ne rfl, Option.some.injEq] at h
        exact h ▸ .completed haway hall
      · rw [Barrier.arrive_of_ne hall] at h
        dsimp only at h
        rw [@turn_of_eq a { a.barrier with waiting := a.barrier.waiting + 1 } _ rfl,
          Option.some.injEq] at h
        exact h ▸ .blocked haway hall
    · cases h
  | wake i =>
    rw [step] at h
    split at h
    · next g hinside =>
      split at h
      · cases h
        exact .idle
      · next hverdict =>
        cases h
        exact .returned hinside hverdict
    · cases h
  | breakWaiters =>
    rw [step, Option.some.injEq] at h
    by_cases hnone : a.barrier.waiting = 0
    · rw [Barrier.breakWaiters, if_pos hnone, turn_of_eq rfl] at h
      exact h ▸ .idle
    · rw [Barrier.breakWaiters, if_neg hnone, turn_of_ne rfl] at h
      exact h ▸ .broken hnone
  | leave i =>
    rw [step] at h
    split at h
    · next haway =>
      rw [Option.some.injEq, Barrier.leave_eq] at h
      by_cases hall : 0 < a.barrier.waiting ∧ a.barrier.waiting = a.barrier.dismiss.parties
      · rw [if_pos hall, turn_of_ne rfl] at h
        exact h ▸ .vacated haway hall.1 hall.2
      · rw [if_neg hall, @turn_of_eq a a.barrier.dismiss _ rfl] at h
        exact h ▸ .left haway hall
    · cases h

/-! ### Counting parties -/

private theorem isRegistered_of_isInside (x : Attendance) (h : x.isInside g = true) :
    x.isRegistered = true := by
  cases x <;> first | rfl | cases h

private theorem eq_inside {x : Attendance} (h : x.isInside g = true) : x = .inside g := by
  cases x with
  | inside g' => rw [beq_iff_eq.mp h]
  | _ => cases h

/-- If all but one of the registered parties wait in a generation and a party is away, everybody
else waits in it. -/
theorem inside_or_gone (haway : a.parties[i]? = some .away)
    (hcount : a.registered ≤ a.waiters g + 1) {j : Nat} {x : Attendance}
    (hj : a.parties[j]? = some x) (hne : j ≠ i) : x = .inside g ∨ x = .gone := by
  have hregistered := Roster.countP_set_add haway Attendance.isRegistered .gone
  have hinside := Roster.countP_set_add haway (Attendance.isInside g) .gone
  simp only [Attendance.isRegistered, Attendance.isInside, if_true, Bool.false_eq_true, if_false]
    at hregistered hinside
  rw [registered, waiters] at hcount
  have hothers := Roster.of_countP_le (fun x ↦ @isRegistered_of_isInside g x)
    (show (a.parties.set i .gone).countP Attendance.isRegistered
      ≤ (a.parties.set i .gone).countP (Attendance.isInside g) by omega)
  have hmem : x ∈ a.parties.set i .gone := by
    apply List.mem_of_getElem? (i := j)
    rw [List.getElem?_set_ne (Ne.symm hne), hj]
  cases x with
  | gone => exact .inr rfl
  | _ => exact .inl (eq_inside (hothers _ hmem rfl))

private theorem registered_set (haway : a.parties[i]? = some .away) {x : Attendance} :
    (a.parties.set i x).countP Attendance.isRegistered + 1 =
      a.registered + if x.isRegistered then 1 else 0 := by
  have h := Roster.countP_set_add haway Attendance.isRegistered x
  simpa [registered, Attendance.isRegistered] using h

private theorem waiters_set (haway : a.parties[i]? = some .away) {x : Attendance} :
    (a.parties.set i x).countP (Attendance.isInside g) =
      a.waiters g + if x.isInside g then 1 else 0 := by
  have h := Roster.countP_set_add haway (Attendance.isInside g) x
  simpa [waiters, Attendance.isInside] using h

private theorem inside_of_set {x : Attendance} {j : Nat}
    (h : (a.parties.set i x)[j]? = some (.inside g)) :
    x = .inside g ∨ j ≠ i ∧ a.parties[j]? = some (.inside g) :=
  (Roster.of_getElem?_set h).imp (fun hx ↦ hx.2.symm) id

/-! ### The barrier -/

/-- The counts of a barrier are those of its parties, and whoever has not returned can still tell
how its generation has ended. -/
structure Orderly (a : Assembly) : Prop where
  parties_eq : a.barrier.parties = max 1 a.registered
  waiting_eq : a.barrier.waiting = a.waiters a.barrier.generation
  waiting_lt : a.barrier.waiting < a.barrier.parties
  inside_le : ∀ (i g : Nat), a.parties[i]? = some (.inside g) → g ≤ a.barrier.generation
  length_endings : a.endings.length = a.barrier.generation
  tripped_of_last : ∀ g : Nat, a.barrier.lastTripped = some g →
    ∃ byArrival, a.endings[g]? = some (.tripped byArrival)
  last_of_tripped : ∀ (i g : Nat) (byArrival : Bool), a.parties[i]? = some (.inside g) →
    a.endings[g]? = some (.tripped byArrival) → a.barrier.lastTripped = some g

/-- A new barrier is orderly. -/
theorem orderly_ofParties (parties : Nat) : (ofParties parties).Orderly where
  parties_eq := by
    simp only [ofParties, Barrier.ofParties, registered, Attendance.isRegistered,
      List.countP_replicate, if_true]
    omega
  waiting_eq := by
    simp [ofParties, Barrier.ofParties, waiters, Attendance.isInside, List.countP_replicate]
  waiting_lt := by
    simp only [ofParties, Barrier.ofParties]
    omega
  inside_le i g h := by
    rw [ofParties, List.getElem?_replicate] at h
    split at h <;> cases h
  length_endings := rfl
  tripped_of_last g h := by cases h
  last_of_tripped i g byArrival h := by
    rw [ofParties, List.getElem?_replicate] at h
    split at h <;> cases h

namespace Orderly

variable {byArrival : Bool}

/-- A generation has ended if it is not the current one. -/
theorem ended_iff (h : a.Orderly) : a.endings[g]? = none ↔ a.barrier.generation ≤ g := by
  rw [List.getElem?_eq_none_iff, h.length_endings]

/-- The current generation is the next to end. -/
theorem getElem?_endings_append (h : a.Orderly) (ending : Ending) :
    (a.endings ++ [ending])[g]? =
      if g = a.barrier.generation then some ending else a.endings[g]? := by
  rw [← h.length_endings]
  split
  · next hg => simp [hg]
  · next hg =>
    rw [List.getElem?_append]
    split
    · rfl
    · rw [List.getElem?_eq_none (by simp; omega), List.getElem?_eq_none (by omega)]

private theorem trip (h : a.Orderly) {barrier : Barrier} {attendances : List Attendance}
    {answers : List WaitAnswer}
    (hparties : barrier.parties = max 1 (attendances.countP Attendance.isRegistered))
    (hgeneration : barrier.generation = a.barrier.generation)
    (hinside : ∀ (j g : Nat), attendances[j]? = some (.inside g) → g = a.barrier.generation) :
    Orderly ⟨barrier.trip, attendances, a.endings ++ [.tripped byArrival], answers⟩ where
  parties_eq := hparties
  waiting_eq := by
    symm
    apply List.countP_eq_zero.mpr
    intro x hx hin
    obtain ⟨j, hj⟩ := List.mem_iff_getElem?.mp hx
    rw [eq_inside hin] at hj
    have := hinside j _ hj
    simp only [Barrier.trip] at this
    omega
  waiting_lt := by
    simp only [Barrier.trip]
    omega
  inside_le i g hi := by
    have := hinside i g hi
    simp only [Barrier.trip]
    omega
  length_endings := by
    simp [Barrier.trip, hgeneration, h.length_endings]
  tripped_of_last g hg := by
    simp only [Barrier.trip, Option.some.injEq] at hg
    exact ⟨byArrival, by rw [h.getElem?_endings_append, if_pos (hg ▸ hgeneration)]⟩
  last_of_tripped i g _ hi _ := by
    rw [hinside i g hi, Barrier.trip, hgeneration]

/-- The last party to arrive finds all the others in its generation. -/
theorem inside_of_arrival (h : a.Orderly) (haway : a.parties[i]? = some .away)
    (hall : a.barrier.waiting + 1 = a.barrier.parties) {j : Nat} {x : Attendance}
    (hj : a.parties[j]? = some x) (hne : j ≠ i) :
    x = .inside a.barrier.generation ∨ x = .gone := by
  refine inside_or_gone haway ?_ hj hne
  have := h.parties_eq
  have := h.waiting_eq
  omega

/-- A party that leaves and trips the barrier leaves all the others in its generation. -/
theorem inside_of_departure (h : a.Orderly) (haway : a.parties[i]? = some .away)
    (hall : a.barrier.waiting = a.barrier.dismiss.parties) {j : Nat} {x : Attendance}
    (hj : a.parties[j]? = some x) (hne : j ≠ i) :
    x = .inside a.barrier.generation ∨ x = .gone := by
  refine inside_or_gone haway ?_ hj hne
  have := h.parties_eq
  have := h.waiting_eq
  have := h.waiting_lt
  rw [Barrier.dismiss] at hall
  dsimp only at hall
  split at hall <;> omega

private theorem parties_dismiss (h : a.Orderly) (haway : a.parties[i]? = some .away) :
    a.barrier.dismiss.parties =
      max 1 ((a.parties.set i .gone).countP Attendance.isRegistered) := by
  have := h.parties_eq
  have := @registered_set a i haway .gone
  simp only [Attendance.isRegistered, Bool.false_eq_true, if_false] at this
  rw [Barrier.dismiss]
  dsimp only
  split <;> omega

private theorem blocked (h : a.Orderly) (haway : a.parties[i]? = some .away)
    (hfew : a.barrier.waiting + 1 ≠ a.barrier.parties) :
    Orderly { a with
      barrier := { a.barrier with waiting := a.barrier.waiting + 1 }
      parties := a.parties.set i (.inside a.barrier.generation) } where
  parties_eq := by
    have := @registered_set a i haway (.inside a.barrier.generation)
    simp only [Attendance.isRegistered, if_true, Nat.add_right_cancel_iff] at this
    rw [registered, this, h.parties_eq]
  waiting_eq := by
    rw [waiters, waiters_set haway, h.waiting_eq]
    simp [Attendance.isInside]
  waiting_lt := by
    have := h.waiting_lt
    dsimp only
    omega
  inside_le j g hj := by
    rcases inside_of_set hj with hg | ⟨-, hj⟩
    · cases hg
      exact Nat.le_refl _
    · exact h.inside_le j g hj
  length_endings := h.length_endings
  tripped_of_last := h.tripped_of_last
  last_of_tripped j g byArrival hj hg := by
    rcases inside_of_set hj with hnow | ⟨-, hj⟩
    · cases hnow
      rw [h.ended_iff.mpr (Nat.le_refl _)] at hg
      cases hg
    · exact h.last_of_tripped j g byArrival hj hg

private theorem returned (h : a.Orderly) {outcome : BarrierWait} {answers : List WaitAnswer}
    (hinside : a.parties[i]? = some (.inside g))
    (hverdict : a.barrier.verdict g = some outcome) :
    Orderly { a with parties := a.parties.set i .away, answers } := by
  have hover : a.barrier.generation ≠ g := by
    intro hg
    rw [Barrier.verdict, if_pos hg] at hverdict
    cases hverdict
  have hback {j k : Nat} (hj : (a.parties.set i .away)[j]? = some (.inside k)) :
      a.parties[j]? = some (.inside k) := by
    rcases inside_of_set hj with hnow | ⟨-, hj⟩
    · cases hnow
    · exact hj
  refine ⟨?_, ?_, h.waiting_lt, fun j k hj ↦ h.inside_le j k (hback hj), h.length_endings,
    h.tripped_of_last, fun j k byArrival hj ↦ h.last_of_tripped j k byArrival (hback hj)⟩
  · have := Roster.countP_set_add hinside Attendance.isRegistered .away
    simp only [Attendance.isRegistered, if_true, Nat.add_right_cancel_iff] at this
    rw [registered, this]
    exact h.parties_eq
  · have := Roster.countP_set_add hinside (Attendance.isInside a.barrier.generation) .away
    simp only [Attendance.isInside, beq_iff_eq, Ne.symm hover, Bool.false_eq_true, if_false,
      Nat.add_zero] at this
    rw [waiters, this]
    exact h.waiting_eq

private theorem broken (h : a.Orderly) :
    Orderly { a with
      barrier := { a.barrier with waiting := 0, generation := a.barrier.generation + 1 }
      endings := a.endings ++ [.broken] } where
  parties_eq := h.parties_eq
  waiting_eq := by
    symm
    apply List.countP_eq_zero.mpr
    intro x hx hin
    obtain ⟨j, hj⟩ := List.mem_iff_getElem?.mp hx
    rw [eq_inside hin] at hj
    exact Nat.not_succ_le_self _ (h.inside_le j _ hj)
  waiting_lt := Nat.lt_of_le_of_lt (Nat.zero_le _) h.waiting_lt
  inside_le j g hj := Nat.le_succ_of_le (h.inside_le j g hj)
  length_endings := by simp [h.length_endings]
  tripped_of_last g hg := by
    obtain ⟨byArrival, htripped⟩ := h.tripped_of_last g hg
    refine ⟨byArrival, ?_⟩
    rw [h.getElem?_endings_append, if_neg, htripped]
    rintro rfl
    rw [h.ended_iff.mpr (Nat.le_refl _)] at htripped
    cases htripped
  last_of_tripped j g byArrival hj hg := by
    rw [h.getElem?_endings_append] at hg
    split at hg
    · cases hg
    · exact h.last_of_tripped j g byArrival hj hg

private theorem left (h : a.Orderly) (haway : a.parties[i]? = some .away)
    (hfew : ¬(0 < a.barrier.waiting ∧ a.barrier.waiting = a.barrier.dismiss.parties)) :
    Orderly { a with barrier := a.barrier.dismiss, parties := a.parties.set i .gone } := by
  have hback {j k : Nat} (hj : (a.parties.set i .gone)[j]? = some (.inside k)) :
      a.parties[j]? = some (.inside k) := by
    rcases inside_of_set hj with hnow | ⟨-, hj⟩
    · cases hnow
    · exact hj
  refine ⟨h.parties_dismiss haway, ?_, ?_, fun j k hj ↦ h.inside_le j k (hback hj),
    h.length_endings, h.tripped_of_last,
    fun j k byArrival hj ↦ h.last_of_tripped j k byArrival (hback hj)⟩
  · rw [waiters, waiters_set haway]
    exact h.waiting_eq
  · have hlt := h.waiting_lt
    rw [Barrier.dismiss] at hfew ⊢
    by_cases hmany : 1 < a.barrier.parties
    · simp only [if_pos hmany] at hfew ⊢
      omega
    · simpa only [if_neg hmany] using hlt

/-- Every step keeps a barrier orderly. -/
theorem turned (h : a.Orderly) (hturned : a.Turned act a') : a'.Orderly := by
  cases hturned with
  | blocked haway hfew => exact h.blocked haway hfew
  | @completed i haway hall =>
    refine h.trip h.parties_eq rfl fun j g hj ↦ ?_
    have hne : j ≠ i := by
      rintro rfl
      rw [haway] at hj
      cases hj
    rcases h.inside_of_arrival haway hall hj hne with hg | hg
    · cases hg
      rfl
    · cases hg
  | idle => exact h
  | returned hinside hverdict => exact h.returned hinside hverdict
  | broken hsome => exact h.broken
  | left haway hfew => exact h.left haway hfew
  | vacated haway hsome hall =>
    refine h.trip (h.parties_dismiss haway) rfl fun j g hj ↦ ?_
    rcases inside_of_set hj with hnow | ⟨hne, hj⟩
    · cases hnow
    rcases h.inside_of_departure haway hall hj hne with hg | hg
    · cases hg
      rfl
    · cases hg

end Orderly

/-- What can be reached is orderly. -/
theorem Reachable.orderly (h : Reachable parties a) : a.Orderly := by
  induction h with
  | start => exact orderly_ofParties parties
  | step _ hstep ih => exact ih.turned (turned_of_step hstep)

end Assembly

/-! ### What waits return -/

/-- A wait has returned how its own generation has ended. -/
structure WaitAnswer.Agrees (endings : List Ending) (x : WaitAnswer) : Prop where
  tripped_iff : (∃ leader, x.outcome = .tripped leader) ↔
    ∃ byArrival, endings[x.generation]? = some (.tripped byArrival)
  broken_iff : x.outcome = .broken ↔ endings[x.generation]? = some .broken

private theorem WaitAnswer.Agrees.append {x : WaitAnswer} {endings : List Ending}
    (h : x.Agrees endings) (ending : Ending) : x.Agrees (endings ++ [ending]) := by
  have hended : x.generation < endings.length := by
    cases houtcome : x.outcome with
    | tripped leader =>
      obtain ⟨byArrival, htripped⟩ := h.tripped_iff.mp ⟨leader, houtcome⟩
      exact (List.getElem?_eq_some_iff.mp htripped).1
    | broken => exact (List.getElem?_eq_some_iff.mp (h.broken_iff.mp houtcome)).1
  constructor
  · rw [List.getElem?_append_left hended]
    exact h.tripped_iff
  · rw [List.getElem?_append_left hended]
    exact h.broken_iff

namespace Assembly

variable {parties : Nat} {a a' : Assembly} {act : AssemblyStep} {i g : Nat}

/-- What has been recorded is right: the answers of the waits, and one leader for each generation
that the last party to arrive has tripped. -/
structure Truthful (a : Assembly) : Prop where
  agrees : ∀ x ∈ a.answers, x.Agrees a.endings
  leaders_eq : ∀ g, a.leaders g = if a.endings[g]? = some (.tripped true) then 1 else 0

namespace Truthful

private theorem agrees_of_verdict (h : a.Orderly) {outcome : BarrierWait}
    (hinside : a.parties[i]? = some (.inside g)) (hverdict : a.barrier.verdict g = some outcome) :
    outcome ≠ .tripped true ∧ (⟨i, g, outcome⟩ : WaitAnswer).Agrees a.endings := by
  have hle := h.inside_le i g hinside
  rw [Barrier.verdict] at hverdict
  split at hverdict
  · cases hverdict
  · next hover =>
    split at hverdict
    · next hlast =>
      obtain ⟨byArrival, htripped⟩ := h.tripped_of_last g hlast
      cases hverdict
      exact ⟨by simp, ⟨by simp [htripped], by simp [htripped]⟩⟩
    · next hlast =>
      cases hverdict
      obtain ⟨ending, hending⟩ : ∃ ending, a.endings[g]? = some ending := by
        rw [← Option.ne_none_iff_exists', Ne, h.ended_iff]
        omega
      cases ending with
      | tripped byArrival => exact absurd (h.last_of_tripped i g byArrival hinside hending) hlast
      | broken => exact ⟨by simp, ⟨by simp [hending], by simp [hending]⟩⟩

private theorem ended (h : a.Truthful) (horderly : a.Orderly) {barrier : Barrier}
    {attendances : List Attendance} {ending : Ending} (hleaderless : ending ≠ .tripped true) :
    Truthful ⟨barrier, attendances, a.endings ++ [ending], a.answers⟩ where
  agrees x hx := (h.agrees x hx).append ending
  leaders_eq g := by
    have hold := h.leaders_eq g
    rw [leaders] at hold ⊢
    rw [hold, horderly.getElem?_endings_append]
    by_cases hg : g = a.barrier.generation
    · rw [hg, horderly.ended_iff.mpr (Nat.le_refl _)]
      simp [hleaderless]
    · rw [if_neg hg]

/-- Every step keeps the records right. -/
theorem turned (h : a.Truthful) (horderly : a.Orderly) (hturned : a.Turned act a') :
    a'.Truthful := by
  cases hturned with
  | blocked haway hfew => exact ⟨h.agrees, h.leaders_eq⟩
  | completed haway hall =>
    constructor
    · intro x hx
      rcases List.mem_cons.mp hx with rfl | hx
      · have hnow := @Orderly.getElem?_endings_append a a.barrier.generation horderly
          (.tripped true)
        rw [if_pos rfl] at hnow
        exact ⟨by simp [hnow], by simp [hnow]⟩
      · exact (h.agrees x hx).append _
    · intro g
      have hold := h.leaders_eq g
      rw [leaders] at hold ⊢
      rw [List.countP_cons, hold, horderly.getElem?_endings_append]
      by_cases hg : g = a.barrier.generation
      · rw [hg, horderly.ended_iff.mpr (Nat.le_refl _)]
        simp
      · simp [hg, Ne.symm hg]
  | idle => exact h
  | returned hinside hverdict =>
    obtain ⟨hleader, hagrees⟩ := agrees_of_verdict horderly hinside hverdict
    refine ⟨fun x hx ↦ ?_, fun g ↦ ?_⟩
    · rcases List.mem_cons.mp hx with rfl | hx
      · exact hagrees
      · exact h.agrees x hx
    · have hold := h.leaders_eq g
      rw [leaders] at hold ⊢
      rw [List.countP_cons, hold]
      simp [hleader]
  | broken hsome => exact h.ended horderly (by simp)
  | left haway hfew => exact ⟨h.agrees, h.leaders_eq⟩
  | vacated haway hsome hall => exact h.ended horderly (by simp)

end Truthful

/-- What can be reached has been recorded truthfully. -/
theorem Reachable.truthful (h : Reachable parties a) : a.Truthful := by
  induction h with
  | start => exact ⟨fun x hx ↦ absurd hx List.not_mem_nil, fun g ↦ rfl⟩
  | step h hstep ih => exact ih.turned h.orderly (turned_of_step hstep)

/-! ### What parties can rely on -/

/-- What the parties of a barrier can rely on, whenever they arrive, wake and leave, and however
often somebody breaks the barrier. -/
structure Synchronizes (parties : Nat) : Prop where
  /-- Somebody is always missing. -/
  waiting_lt : ∀ a, Reachable parties a → a.barrier.waiting < a.barrier.parties
  /-- A step that trips a generation is an arrival or a departure, and finds every other party that
  has not left waiting in that generation. -/
  all_inside : ∀ a act a' byArrival, Reachable parties a → a.step act = some a' →
    a'.endings = a.endings ++ [.tripped byArrival] →
      ∃ i, act = (if byArrival then .arrive i else .leave i) ∧ ∀ j x, a.parties[j]? = some x →
        j ≠ i → x = .inside a.barrier.generation ∨ x = .gone
  /-- A wait returns how its own generation has ended. -/
  agrees : ∀ a, Reachable parties a → ∀ x ∈ a.answers, x.Agrees a.endings
  /-- A trip has one leader if an arrival has caused it, and none if a departure has. -/
  leaders_eq : ∀ a, Reachable parties a → ∀ g byArrival,
    a.endings[g]? = some (.tripped byArrival) → a.leaders g = if byArrival then 1 else 0
  /-- However late a party wakes, its wait returns if its generation has ended, and waits on
  otherwise. -/
  returns : ∀ a, Reachable parties a → ∀ i g, a.parties[i]? = some (.inside g) →
    if g < a.barrier.generation then
      ∃ outcome, a.step (.wake i) = some ((a.setParty i .away).answer i g outcome)
    else a.step (.wake i) = some a

/-- The parties of a barrier can rely on it. -/
theorem synchronizes (parties : Nat) : Synchronizes parties where
  waiting_lt a h := h.orderly.waiting_lt
  all_inside a act a' byArrival h hstep htripped := by
    have hgrown {endings : List Ending} (he : endings = a.endings) :
        endings ≠ a.endings ++ [.tripped byArrival] := by
      rw [he]
      exact fun h ↦ absurd (congrArg List.length h) (by simp)
    cases turned_of_step hstep with
    | completed haway hall =>
      obtain rfl : true = byArrival := by simpa using htripped
      exact ⟨_, rfl, fun j x hj hne ↦ h.orderly.inside_of_arrival haway hall hj hne⟩
    | vacated haway hsome hall =>
      obtain rfl : false = byArrival := by simpa using htripped
      exact ⟨_, rfl, fun j x hj hne ↦ h.orderly.inside_of_departure haway hall hj hne⟩
    | broken hsome =>
      simp at htripped
    | _ => exact absurd htripped (hgrown rfl)
  agrees a h := h.truthful.agrees
  leaders_eq a h g byArrival htripped := by
    rw [h.truthful.leaders_eq, htripped]
    cases byArrival <;> rfl
  returns a h i g hinside := by
    have hle := h.orderly.inside_le i g hinside
    rw [step]
    simp only [hinside]
    split
    · next hlt =>
      obtain ⟨outcome, hverdict⟩ : ∃ outcome, a.barrier.verdict g = some outcome := by
        rw [Barrier.verdict, if_neg (by omega)]
        split <;> exact ⟨_, rfl⟩
      exact ⟨outcome, by rw [hverdict]⟩
    · next hnow =>
      rw [Barrier.verdict, if_pos (by omega)]

/-- Party 0 wakes two generations late, and after one of them has been broken. -/
example :
    ([.arrive 0, .arrive 1, .arrive 1, .breakWaiters, .wake 1, .wake 0].foldlM step
      (ofParties 2)).map (·.answers.reverse) =
    some [⟨1, 0, .tripped true⟩, ⟨1, 1, .broken⟩, ⟨0, 0, .tripped false⟩] := by
  decide

end Assembly
end RayAdjacency
