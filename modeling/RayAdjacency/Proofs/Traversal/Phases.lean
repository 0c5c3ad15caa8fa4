import RayAdjacency.Proofs.Traversal.Ending
import RayAdjacency.Proofs.Traversal.Permits
import RayAdjacency.Proofs.Traversal.Seats

/-!
# Phases of a pool

A pool goes through three phases. First the calling thread sets the barrier up. Then the pool
*gathers*: the barrier has as many parties as there are seats, and whenever something is queued, some
participant is on its way to the queue. The barrier trips when everybody waits in one generation, so
nothing is queued and nobody is left who could queue anything. From then on participants only
return.
-/

namespace RayAdjacency

namespace Thread

/-- Whether a thread takes part in the pool and has not returned: it searches or waits for jobs, or,
as the calling thread, will do so once it has seen to the workers. -/
def takesPart (t : Thread) : Prop := 0 < t.seats

/-- Whether a thread waits in a generation of the barrier. -/
def waitsIn (g : Nat) (t : Thread) : Nat :=
  match t.task with
  | .await g' _ => if g' = g then 1 else 0
  | _ => 0

/-- A participant that looks at the queue before it waits in generation `g`. -/
structure IsAlert (g : Nat) (t : Thread) : Prop where
  takesPart : t.takesPart
  arrive_ne : ∀ kept, t.task ≠ .arrive kept
  await_ne : ∀ kept, t.task ≠ .await g kept

variable {plan : Plan} {chance : Chance} {caller : Bool} {t : Thread} {s : Shared} {g : Nat}

/-- Whoever does not wait for the end of a generation is not counted among those who do. -/
theorem waitsIn_eq_zero (h : ∀ kept, t.task ≠ .await g kept) : t.waitsIn g = 0 := by
  rw [waitsIn]
  split
  · next g' kept htask =>
    apply if_neg
    rintro rfl
    exact h kept htask
  · rfl

/-- Whoever is counted among those who wait for the end of a generation does wait for it. -/
theorem exists_await (h : 0 < t.waitsIn g) : ∃ kept, t.task = .await g kept := by
  by_contra hnone
  rw [waitsIn_eq_zero fun kept htask ↦ hnone ⟨kept, htask⟩] at h
  exact Nat.lt_irrefl 0 h

/-- Whoever waits at the barrier has a seat there. -/
theorem waitsIn_le_seats (g : Nat) (t : Thread) : t.waitsIn g ≤ t.seats := by
  by_cases h : 0 < t.waitsIn g
  · obtain ⟨kept, htask⟩ := exists_await h
    have hseats := t.seats_of_task htask (by simp)
    rw [waitsIn, htask, hseats]
    simp [Task.seats]
  · omega

/-- Whoever puts something into the queue of a pool takes part in it. -/
theorem isAlert_of_pushed (hpools : plan.config.strategy.pools = true)
    (htyped : t.Typed plan.config.strategy caller) (hopens : t.task.opens = false)
    (h : t.pushed plan s ≠ []) : t.IsAlert g := by
  rw [pushed] at h
  split at h
  · next htask =>
    rw [htask] at hopens
    cases hopens
  · next htask =>
    have hstands := (htyped.stands htask (by simp)).2
    refine ⟨?_, by simp [htask], by simp [htask]⟩
    rw [takesPart, t.seats_of_task htask (by simp)]
    exact Nat.add_pos_right _ (seats_pos_of_search hpools hstands)
  · next htask =>
    rw [htask] at hopens
    cases hopens
  · exact absurd rfl h

/-- As long as something is queued, a participant on its way to the queue stays on its way. -/
theorem exists_isAlert_advance (hpools : plan.config.strategy.pools = true)
    (htyped : t.Typed plan.config.strategy caller) (hopens : t.task.opens = false)
    (hrefund : ∀ unstarted cause, t.task = .refund unstarted cause →
      ∃ token, s.token.release (unstarted - 1) = .ok token)
    (halert : t.IsAlert g) (hqueue : (t.advance plan chance caller s).shared.queue.toList ≠ [])
    (g' : Nat) : ∃ u ∈ (t.advance plan chance caller s).threads, u.IsAlert g' := by
  have hseats := @seats_advance plan chance caller t s hpools htyped hopens hrefund
  have hpos := halert.takesPart
  rw [takesPart] at hpos
  have hleft : 0 < Machine.weigh seats (t.advance plan chance caller s).threads := by
    rw [leavingSeats] at hseats
    split at hseats
    · next htask =>
      rw [t.seats_of_task htask (by simp), Task.seats] at hseats
      omega
    · next kept htask =>
      have hnonempty : s.queue.isEmpty = false := by
        by_contra hempty
        rw [Bool.not_eq_false] at hempty
        apply hqueue
        simp only [advance, htask, hempty]
        exact Fifo.toList_eq_nil_of_isEmpty hempty
      rw [hnonempty] at hseats
      simp at hseats
      omega
    · omega
  obtain ⟨u, hu, hseat⟩ := Machine.exists_of_weigh_pos hleft
  have hfrom := comesFrom_advance hu
  refine ⟨u, hu, hseat, fun kept htask ↦ ?_, fun kept htask ↦ ?_⟩
  · rw [htask] at hfrom
    obtain ⟨hbefore, hempty⟩ := hfrom
    apply hqueue
    simp only [advance, hbefore, (Fifo.pop?_eq_none_iff _).mpr hempty]
    exact hempty
  · rw [htask] at hfrom
    exact halert.arrive_ne kept hfrom.1

private theorem await_ne_advance (harrive : ∀ kept, t.task ≠ .arrive kept) {u : Thread}
    (hu : u ∈ (t.advance plan chance caller s).threads) (g : Nat) (kept : Except Failure Unit) :
    u.task ≠ .await g kept := by
  intro htask
  have hfrom := comesFrom_advance hu
  rw [htask] at hfrom
  exact harrive kept hfrom.1

private theorem weigh_waitsIn_advance (harrive : ∀ kept, t.task ≠ .arrive kept) (g : Nat) :
    Machine.weigh (waitsIn g) (t.advance plan chance caller s).threads = 0 := by
  by_contra hne
  obtain ⟨u, hu, hpos⟩ := Machine.exists_of_weigh_pos (Nat.pos_of_ne_zero hne)
  obtain ⟨kept, htask⟩ := exists_await hpos
  exact await_ne_advance harrive hu g kept htask

private theorem await_ne_of_ready {alone : Bool} (h : t.isBlocked plan chance alone s = false)
    (kept : Except Failure Unit) : t.task ≠ .await s.barrier.generation kept := by
  intro htask
  simp [isBlocked, htask, Barrier.verdict] at h

private theorem takesPart_of_announce (hpools : plan.config.strategy.pools = true)
    (htyped : t.Typed plan.config.strategy caller) (htask : t.task = .announce) : t.takesPart := by
  have hstands := (htyped.stands htask (by simp)).2
  rw [takesPart, t.seats_of_task htask (by simp)]
  cases hframes : t.frames with
  | nil =>
    rw [hframes] at hstands
    cases caller <;> cases hstands
  | cons f frames =>
    rw [hframes] at hstands
    obtain ⟨hhosts, -, hbelow⟩ := hstands
    rw [List.map_cons, List.sum_cons]
    cases f <;> simp [Frame.hosts, Task.place] at hhosts
    · have := seats_pos_of_search hpools hbelow
      omega
    · simp only [Frame.seats]
      omega

/-- Whoever has returned leaves the barrier alone. -/
theorem barrierAfter_of_seats (hpools : plan.config.strategy.pools = true)
    (htyped : t.Typed plan.config.strategy caller) (hopens : t.task.opens = false)
    (h : t.seats = 0) : t.barrierAfter plan s = s.barrier := by
  rw [barrierAfter]
  split
  · next htask =>
    rw [htask] at hopens
    cases hopens
  · next htask =>
    rw [t.seats_of_task htask (by simp), Task.seats] at h
    omega
  · next htask =>
    have hpos := takesPart_of_announce hpools htyped htask
    rw [takesPart] at hpos
    omega
  · next htask =>
    rw [seats_of_participating htyped (by rw [htask]; rfl)] at h
    cases h
  · rfl

/-- A participant is blocked only while it waits in the current generation. -/
theorem exists_await_of_isBlocked {alone : Bool} (hpools : plan.config.strategy.pools = true)
    (htyped : t.Typed plan.config.strategy caller) (hpart : t.takesPart)
    (h : t.isBlocked plan chance alone s = true) : ∃ kept, t.task = .await s.barrier.generation kept := by
  rw [takesPart] at hpart
  have hmain {task : Task} (htask : t.task = task) (hret : ∀ o, task ≠ .ret o)
      (hplace : task.place = .main) (hseats : task.seats = 0) : False := by
    have hstands := (htyped.stands htask hret).2
    rw [hplace] at hstands
    rw [t.seats_of_task htask fun stop ↦ hret _, hseats, (stands_main hstands).1] at hpart
    exact Nat.lt_irrefl 0 hpart
  have hqueues := Strategy.queues_of_pools hpools
  rw [isBlocked] at h
  split at h
  · next htask => exact (hmain htask (by simp) rfl rfl).elim
  · next htask => exact (hmain htask (by simp) rfl rfl).elim
  · next htask =>
    have hsuits := (htyped.stands htask (by simp)).1
    rw [Task.suits, hqueues] at hsuits
    cases hsuits
  · next htask =>
    have hsuits := (htyped.stands htask (by simp)).1
    rw [Task.suits, hqueues] at hsuits
    cases hsuits
  · next g kept htask =>
    refine ⟨kept, ?_⟩
    rw [htask]
    rw [Barrier.verdict] at h
    split at h
    · next hg => rw [hg]
    · split at h <;> cases h
  · next o htask =>
    rw [List.isEmpty_iff] at h
    rw [seats, htask, h, spareSeats, htask, h] at hpart
    simp [Task.seats] at hpart
  · cases h

end Thread

namespace Machine

variable {plan : Plan} {chance : Chance} {m m' : Machine} {caller : Bool} {t : Thread}
  {others : List Thread} {g : Nat}

/-- The calling thread sets the pool up. -/
structure Opening (m : Machine) : Prop where
  opens_eq : m.caller.task.opens = true
  lastTripped_eq : m.shared.barrier.lastTripped = none
  barrier_eq : ∀ workers, m.caller.task = .seed workers →
    m.shared.barrier = .ofParties (workers + 1)

/-- The barrier has not tripped: it has a party for each seat, and not all of them are waiting. When
something is queued, a participant is on its way to the queue. -/
structure Gathering (m : Machine) : Prop where
  parties_eq : m.shared.barrier.parties = weigh Thread.seats m.threads
  waiting_eq : m.shared.barrier.waiting =
    weigh (Thread.waitsIn m.shared.barrier.generation) m.threads
  waiting_lt : m.shared.barrier.waiting < m.shared.barrier.parties
  generation_le : ∀ t ∈ m.threads, ∀ g kept, t.task = .await g kept → g ≤ m.shared.barrier.generation
  lastTripped_eq : m.shared.barrier.lastTripped = none
  tripped_ne : ∀ t ∈ m.threads, ∀ kept, t.task ≠ .tripped kept
  exists_isAlert : m.shared.queue.toList ≠ [] →
    ∃ t ∈ m.threads, t.IsAlert m.shared.barrier.generation

/-- The barrier has tripped at the end of generation `g`: nothing is queued, and whoever has not
returned is back from that trip, or has been called. -/
structure Tripped (m : Machine) (g : Nat) : Prop where
  queue_eq : m.shared.queue.toList = []
  lastTripped_eq : m.shared.barrier.lastTripped = some g
  generation_eq : m.shared.barrier.generation = g + 1
  back : ∀ t ∈ m.threads, t.takesPart → ∃ kept, t.task = .tripped kept ∨ t.task = .await g kept

/-- The phases of a pool. -/
inductive Phase (m : Machine) : Prop
  | opening (h : Opening m)
  | gathering (hopens : m.caller.task.opens = false) (h : Gathering m)
  | tripped {g : Nat} (hopens : m.caller.task.opens = false) (h : Tripped m g)

section step

variable (hpools : plan.config.strategy.pools = true) (hm : Reachable plan m)
  (htyped : Typed plan m) (hreplaced : Replaced plan chance m m' caller t others)

include hpools htyped hreplaced

omit htyped in
private theorem barrier_of_replaced : m'.shared.barrier = t.barrierAfter plan m.shared := by
  rw [hreplaced.shared_eq, Thread.barrier_advance hpools]

omit hpools in
private theorem opens_eq_false (hopens : m.caller.task.opens = false) : t.task.opens = false := by
  by_contra hopen
  rw [Bool.not_eq_false] at hopen
  rw [← opens_of_replaced htyped hreplaced hopen, hopen] at hopens
  cases hopens

include hm

private theorem seats_of_replaced (hopens : m.caller.task.opens = false) :
    weigh Thread.seats m'.threads + t.leavingSeats m.shared = weigh Thread.seats m.threads := by
  have hmem : t ∈ m.threads := hreplaced.before.mem_iff.mpr (.head _)
  have hseats := @Thread.seats_advance plan chance caller t m.shared hpools
    (htyped.of_replaced hreplaced) (opens_eq_false htyped hreplaced hopens)
    fun unstarted cause htask ↦ exists_refund hm hmem htask
  rw [weigh_perm hreplaced.before, weigh_perm hreplaced.after, weigh, weigh_append]
  omega

private theorem Gathering.exists_isAlert_step (h : Gathering m)
    (hopens : m.caller.task.opens = false)
    (hgeneration : ∀ u ∈ others, u.IsAlert m.shared.barrier.generation →
      u.IsAlert m'.shared.barrier.generation)
    (hqueue : m'.shared.queue.toList ≠ []) :
    ∃ u ∈ m'.threads, u.IsAlert m'.shared.barrier.generation := by
  have ht := htyped.of_replaced hreplaced
  have hopen := opens_eq_false htyped hreplaced hopens
  have hmem : t ∈ m.threads := hreplaced.before.mem_iff.mpr (.head _)
  obtain ⟨u, hu, halert⟩ : ∃ u ∈ m.threads, u.IsAlert m.shared.barrier.generation := by
    by_cases hpushed : t.pushed plan m.shared = []
    · apply h.exists_isAlert
      intro hempty
      have hstep := queue_step hm htyped hreplaced
      rw [hempty, hpushed] at hstep
      exact hqueue (List.append_eq_nil_iff.mp hstep.symm).2
    · exact ⟨t, hmem, Thread.isAlert_of_pushed hpools ht hopen hpushed⟩
  rcases List.mem_cons.mp (hreplaced.before.mem_iff.mp hu) with rfl | hu
  · rw [hreplaced.shared_eq] at hqueue
    obtain ⟨v, hv, halert⟩ := Thread.exists_isAlert_advance hpools ht hopen
      (fun unstarted cause htask ↦ exists_refund hm hmem htask) halert hqueue
      m'.shared.barrier.generation
    exact ⟨v, hreplaced.after.mem_iff.mpr (List.mem_append_left _ hv), halert⟩
  · exact ⟨u, hreplaced.after.mem_iff.mpr (List.mem_append_right _ hu), hgeneration u hu halert⟩

private theorem Gathering.of_barrier (h : Gathering m) (hopens : m.caller.task.opens = false)
    (harrive : ∀ kept, t.task ≠ .arrive kept)
    (hparties : m'.shared.barrier.parties + t.leavingSeats m.shared = m.shared.barrier.parties)
    (hlastTripped : m'.shared.barrier.lastTripped = none)
    (hgeneration : (m'.shared.barrier.generation = m.shared.barrier.generation ∧
        m'.shared.barrier.waiting = m.shared.barrier.waiting) ∨
      (m'.shared.barrier.generation = m.shared.barrier.generation + 1 ∧
        m'.shared.barrier.waiting = 0))
    (hlt : m'.shared.barrier.waiting < m'.shared.barrier.parties) : Gathering m' := by
  have hready := Thread.await_ne_of_ready hreplaced.ready
  have hothers : ∀ u ∈ others, ∀ g kept, u.task = .await g kept → g ≤ m.shared.barrier.generation :=
    fun u hu ↦ h.generation_le u (hreplaced.before.mem_iff.mpr (.tail t hu))
  constructor
  · have hseats := seats_of_replaced hpools hm htyped hreplaced hopens
    have := h.parties_eq
    omega
  · rw [weigh_perm hreplaced.after, weigh_append, Thread.weigh_waitsIn_advance harrive]
    rcases hgeneration with ⟨hgeneration, hwaiting⟩ | ⟨hgeneration, hwaiting⟩
    · have hbefore := h.waiting_eq
      rw [weigh_perm hreplaced.before, weigh, Thread.waitsIn_eq_zero hready] at hbefore
      rw [hwaiting, hgeneration, hbefore]
    · rw [hwaiting, Nat.zero_add]
      by_contra hne
      obtain ⟨u, hu, hpos⟩ := exists_of_weigh_pos (Nat.pos_of_ne_zero (Ne.symm hne))
      obtain ⟨kept, htask⟩ := Thread.exists_await hpos
      have := hothers u hu _ kept htask
      omega
  · exact hlt
  · intro u hu g kept htask
    rcases List.mem_append.mp (hreplaced.after.mem_iff.mp hu) with hu | hu
    · exact absurd htask (Thread.await_ne_advance harrive hu g kept)
    · have := hothers u hu g kept htask
      omega
  · exact hlastTripped
  · intro u hu kept htask
    rcases List.mem_append.mp (hreplaced.after.mem_iff.mp hu) with hu | hu
    · have hfrom := Thread.comesFrom_advance hu
      rw [htask] at hfrom
      rcases hfrom with ⟨hbefore, -⟩ | ⟨g, hbefore, hverdict⟩
      · exact harrive kept hbefore
      · apply hverdict
        have hne : m.shared.barrier.generation ≠ g := fun heq ↦ hready kept (heq ▸ hbefore)
        rw [Barrier.verdict, if_neg hne, h.lastTripped_eq]
        rfl
    · exact h.tripped_ne u (hreplaced.before.mem_iff.mpr (.tail t hu)) kept htask
  · refine h.exists_isAlert_step hpools hm htyped hreplaced hopens fun u hu halert ↦ ?_
    refine ⟨halert.takesPart, halert.arrive_ne, fun kept htask ↦ ?_⟩
    rcases hgeneration with ⟨hgeneration, -⟩ | ⟨hgeneration, -⟩
    · exact halert.await_ne kept (hgeneration ▸ htask)
    · have := hothers u hu _ kept htask
      omega

omit hpools hm htyped in
private theorem queue_of_arrive {kept : Except Failure Unit} (htask : t.task = .arrive kept) :
    m'.shared.queue = m.shared.queue := by
  rw [hreplaced.shared_eq]
  simp only [Thread.advance, htask]
  split <;> rfl

omit hpools hm in
private theorem Gathering.weigh_others (h : Gathering m) {kept : Except Failure Unit}
    (htask : t.task = .arrive kept) :
    m.shared.barrier.parties = 1 + weigh Thread.seats others ∧
      m.shared.barrier.waiting = weigh (Thread.waitsIn m.shared.barrier.generation) others := by
  have hseat := Thread.seats_of_participating (htyped.of_replaced hreplaced) (by rw [htask]; rfl)
  have hwaits : t.waitsIn m.shared.barrier.generation = 0 :=
    Thread.waitsIn_eq_zero (by simp [htask])
  constructor
  · rw [h.parties_eq, weigh_perm hreplaced.before, weigh, hseat]
  · rw [h.waiting_eq, weigh_perm hreplaced.before, weigh, hwaits, Nat.zero_add]

omit hm in
private theorem Gathering.trips (h : Gathering m) {kept : Except Failure Unit}
    (htask : t.task = .arrive kept)
    (hlast : m.shared.barrier.waiting + 1 = m.shared.barrier.parties) :
    Tripped m' m.shared.barrier.generation := by
  -- The last arrival trips the barrier, and finds all others waiting in the same generation.
  obtain ⟨hparties, hwaiting⟩ := h.weigh_others htyped hreplaced htask
  have hqueue := queue_of_arrive hreplaced htask
  have harrive : m.shared.barrier.arrive =
      (.trips, { m.shared.barrier with waiting := m.shared.barrier.waiting + 1 }.trip) := by
    rw [Barrier.arrive]
    exact if_pos hlast
  have hbarrier : m'.shared.barrier =
      { m.shared.barrier with waiting := m.shared.barrier.waiting + 1 }.trip := by
    rw [barrier_of_replaced hpools hreplaced, Thread.barrierAfter, htask, harrive]
  have hthreads : (t.advance plan chance caller m.shared).threads = [t.go (.tripped kept)] := by
    simp only [Thread.advance, htask, harrive]
    rfl
  have hwait : ∀ u ∈ others, u.seats ≤ u.waitsIn m.shared.barrier.generation :=
    le_of_weigh_le (fun u _ ↦ Thread.waitsIn_le_seats _ u) (by omega)
  constructor
  · by_contra hne
    rw [hqueue] at hne
    obtain ⟨u, hu, halert⟩ := h.exists_isAlert hne
    rcases List.mem_cons.mp (hreplaced.before.mem_iff.mp hu) with rfl | hu
    · exact halert.arrive_ne kept htask
    · obtain ⟨kept, hawait⟩ := Thread.exists_await (halert.takesPart.trans_le (hwait u hu))
      exact halert.await_ne kept hawait
  · rw [hbarrier]
    rfl
  · rw [hbarrier]
    rfl
  · intro u hu hpart
    have hu := hreplaced.after.mem_iff.mp hu
    rw [hthreads, List.singleton_append, List.mem_cons] at hu
    rcases hu with rfl | hu
    · exact ⟨kept, .inl rfl⟩
    · obtain ⟨kept, hawait⟩ := Thread.exists_await (hpart.trans_le (hwait u hu))
      exact ⟨kept, .inr hawait⟩

private theorem Gathering.waits (h : Gathering m) (hopens : m.caller.task.opens = false)
    {kept : Except Failure Unit} (htask : t.task = .arrive kept)
    (hlast : m.shared.barrier.waiting + 1 ≠ m.shared.barrier.parties) : Gathering m' := by
  obtain ⟨hparties, hwaiting⟩ := h.weigh_others htyped hreplaced htask
  have hothers : ∀ u ∈ others, u ∈ m.threads :=
    fun u hu ↦ hreplaced.before.mem_iff.mpr (.tail t hu)
  have harrive : m.shared.barrier.arrive = (.waits m.shared.barrier.generation,
      { m.shared.barrier with waiting := m.shared.barrier.waiting + 1 }) := by
    rw [Barrier.arrive]
    exact if_neg hlast
  have hbarrier : m'.shared.barrier =
      { m.shared.barrier with waiting := m.shared.barrier.waiting + 1 } := by
    rw [barrier_of_replaced hpools hreplaced, Thread.barrierAfter, htask, harrive]
  have hthreads : (t.advance plan chance caller m.shared).threads =
      [t.go (.await m.shared.barrier.generation kept)] := by
    simp only [Thread.advance, htask, harrive]
    rfl
  have hafter := hreplaced.after
  rw [hthreads, List.singleton_append] at hafter
  have hself : (t.go (.await m.shared.barrier.generation kept)).waitsIn
      m.shared.barrier.generation = 1 := if_pos rfl
  constructor
  · have hseats := seats_of_replaced hpools hm htyped hreplaced hopens
    rw [Thread.leavingSeats, htask, Nat.add_zero] at hseats
    rw [hbarrier, hseats]
    exact h.parties_eq
  · rw [weigh_perm hafter, weigh, hbarrier, hself]
    change m.shared.barrier.waiting + 1 =
      1 + weigh (Thread.waitsIn m.shared.barrier.generation) others
    omega
  · rw [hbarrier]
    have := h.waiting_lt
    change m.shared.barrier.waiting + 1 < m.shared.barrier.parties
    omega
  · intro u hu g kept' hawait
    rw [hbarrier]
    rcases List.mem_cons.mp (hafter.mem_iff.mp hu) with rfl | hu
    · cases hawait
      exact Nat.le_refl _
    · exact h.generation_le u (hothers u hu) g kept' hawait
  · rw [hbarrier]
    exact h.lastTripped_eq
  · intro u hu kept' htripped
    rcases List.mem_cons.mp (hafter.mem_iff.mp hu) with rfl | hu
    · cases htripped
    · exact h.tripped_ne u (hothers u hu) kept' htripped
  · refine h.exists_isAlert_step hpools hm htyped hreplaced hopens fun u hu halert ↦ ?_
    rw [hbarrier]
    exact halert

private theorem Gathering.dismiss (h : Gathering m) (hopens : m.caller.task.opens = false)
    {left unstarted : Nat} {cause : Failure} (htask : t.task = .dismiss (left + 1) unstarted cause) :
    Gathering m' := by
  have hseat := t.seats_of_task htask (by simp)
  have hlt := h.waiting_lt
  have hparties := h.parties_eq
  have hwaiting := h.waiting_eq
  have hle := weigh_le_weigh fun u (_ : u ∈ others) ↦
    Thread.waitsIn_le_seats m.shared.barrier.generation u
  rw [weigh_perm hreplaced.before, weigh, hseat, Task.seats] at hparties
  rw [weigh_perm hreplaced.before, weigh, Thread.waitsIn_eq_zero (by simp [htask])] at hwaiting
  have hleave : m.shared.barrier.leave =
      { m.shared.barrier with parties := m.shared.barrier.parties - 1 } := by
    have hmore : 1 < m.shared.barrier.parties := by omega
    have hmissing : ¬(0 < m.shared.barrier.waiting ∧
        m.shared.barrier.waiting = m.shared.barrier.parties - 1) := by omega
    rw [Barrier.leave, if_pos hmore]
    exact if_neg hmissing
  have hbarrier : m'.shared.barrier =
      { m.shared.barrier with parties := m.shared.barrier.parties - 1 } := by
    rw [barrier_of_replaced hpools hreplaced, Thread.barrierAfter, htask, hleave]
  refine h.of_barrier hpools hm htyped hreplaced hopens (by simp [htask]) ?_ ?_ (.inl ?_) ?_
  · rw [hbarrier, Thread.leavingSeats, htask]
    simp only
    omega
  · rw [hbarrier]
    exact h.lastTripped_eq
  · rw [hbarrier]
    exact ⟨rfl, rfl⟩
  · rw [hbarrier]
    simp only
    omega

private theorem Gathering.announce (h : Gathering m) (hopens : m.caller.task.opens = false)
    (htask : t.task = .announce) : Gathering m' := by
  -- Whoever queues a pair calls those back that wait in the generation.
  have hlt := h.waiting_lt
  have hleaving : t.leavingSeats m.shared = 0 := by rw [Thread.leavingSeats, htask]
  have hbarrier : m'.shared.barrier = m.shared.barrier.breakWaiters.2 := by
    rw [barrier_of_replaced hpools hreplaced, Thread.barrierAfter, htask]
  by_cases hwaiting : m.shared.barrier.waiting = 0
  · rw [Barrier.breakWaiters, if_pos hwaiting] at hbarrier
    refine h.of_barrier hpools hm htyped hreplaced hopens (by simp [htask]) ?_ ?_ (.inl ?_) ?_
    · rw [hbarrier, hleaving, Nat.add_zero]
    · rw [hbarrier]
      exact h.lastTripped_eq
    · rw [hbarrier]
      exact ⟨rfl, rfl⟩
    · rw [hbarrier]
      exact hlt
  · rw [Barrier.breakWaiters, if_neg hwaiting] at hbarrier
    refine h.of_barrier hpools hm htyped hreplaced hopens (by simp [htask]) ?_ ?_ (.inr ?_) ?_
    · rw [hbarrier, hleaving, Nat.add_zero]
    · rw [hbarrier]
      exact h.lastTripped_eq
    · rw [hbarrier]
      exact ⟨rfl, rfl⟩
    · rw [hbarrier]
      exact Nat.zero_lt_of_lt hlt

private theorem Gathering.step (h : Gathering m) (hopens : m.caller.task.opens = false) :
    Gathering m' ∨ ∃ g, Tripped m' g := by
  by_cases harrive : ∃ kept, t.task = .arrive kept
  · obtain ⟨kept, htask⟩ := harrive
    by_cases hlast : m.shared.barrier.waiting + 1 = m.shared.barrier.parties
    · exact .inr ⟨_, h.trips hpools htyped hreplaced htask hlast⟩
    · exact .inl (h.waits hpools hm htyped hreplaced hopens htask hlast)
  · left
    have hbarrier := barrier_of_replaced hpools hreplaced
    rw [Thread.barrierAfter] at hbarrier
    split at hbarrier
    · next htask =>
      have hopen := opens_eq_false htyped hreplaced hopens
      rw [htask] at hopen
      cases hopen
    · next htask => exact h.dismiss hpools hm htyped hreplaced hopens htask
    · next htask => exact h.announce hpools hm htyped hreplaced hopens htask
    · next kept htask => exact absurd ⟨kept, htask⟩ harrive
    · next hdismiss _ _ =>
      have hmem : t ∈ m.threads := hreplaced.before.mem_iff.mpr (.head _)
      have hleaving : t.leavingSeats m.shared = 0 := by
        rw [Thread.leavingSeats]
        split
        · next htask => exact absurd htask (hdismiss _ _ _)
        · next kept htask => exact absurd htask (h.tripped_ne t hmem kept)
        · rfl
      refine h.of_barrier hpools hm htyped hreplaced hopens
        (fun kept htask ↦ harrive ⟨kept, htask⟩) ?_ ?_ (.inl ?_) ?_
      · rw [hbarrier, hleaving, Nat.add_zero]
      · rw [hbarrier]
        exact h.lastTripped_eq
      · rw [hbarrier]
        exact ⟨rfl, rfl⟩
      · rw [hbarrier]
        exact h.waiting_lt

/-- After the trip nothing but returning happens: the queue stays empty, and the barrier stays as it
is. -/
theorem Tripped.step (h : Tripped m g) (hopens : m.caller.task.opens = false) :
    Tripped m' g ∧ m'.shared.barrier = m.shared.barrier := by
  have ht := htyped.of_replaced hreplaced
  have hopen := opens_eq_false htyped hreplaced hopens
  have hmem : t ∈ m.threads := hreplaced.before.mem_iff.mpr (.head _)
  have hbarrier : m'.shared.barrier = m.shared.barrier := by
    rw [barrier_of_replaced hpools hreplaced]
    by_cases hpart : t.takesPart
    · obtain ⟨kept, htask | htask⟩ := h.back t hmem hpart <;> rw [Thread.barrierAfter, htask]
    · exact Thread.barrierAfter_of_seats hpools ht hopen (Nat.eq_zero_of_not_pos hpart)
  have hpushed : t.pushed plan m.shared = [] := by
    by_contra hne
    have halert := @Thread.isAlert_of_pushed plan caller t m.shared g hpools ht hopen hne
    obtain ⟨kept, htask | htask⟩ := h.back t hmem halert.takesPart
    · rw [Thread.pushed, htask] at hne
      exact hne rfl
    · exact halert.await_ne kept htask
  -- A participant that goes on has waited for the trip, and is back from it now.
  have hback : ∀ u ∈ (t.advance plan chance caller m.shared).threads, u.takesPart →
      ∃ kept, u.task = .tripped kept := by
    intro u hu hpart
    have hseats := @Thread.seats_advance plan chance caller t m.shared hpools ht hopen
      fun unstarted cause htask ↦ exists_refund hm hmem htask
    have hle := le_weigh (f := Thread.seats) hu
    rw [Thread.takesPart] at hpart
    by_cases hpart' : t.takesPart
    · obtain ⟨kept, htask | htask⟩ := h.back t hmem hpart'
      · have hempty : m.shared.queue.isEmpty = true := by
          have := h.queue_eq
          simpa [Fifo.isEmpty, Fifo.toList] using this
        rw [Thread.leavingSeats, htask, Thread.seats_of_participating ht (by rw [htask]; rfl)]
          at hseats
        simp only [hempty, if_true] at hseats
        omega
      · have hverdict : m.shared.barrier.verdict g = some (.tripped false) := by
          rw [Barrier.verdict, if_neg (by rw [h.generation_eq]; omega), if_pos h.lastTripped_eq]
        simp only [Thread.advance, htask, hverdict, Move.threads, Option.toList_some,
          Option.toList_none, List.append_nil, List.mem_singleton] at hu
        exact ⟨kept, by rw [hu]; rfl⟩
    · rw [Thread.takesPart] at hpart'
      omega
  refine ⟨⟨?_, ?_, ?_, ?_⟩, hbarrier⟩
  · have hstep := queue_step hm htyped hreplaced
    rw [h.queue_eq, hpushed] at hstep
    exact (List.append_eq_nil_iff.mp hstep.symm).2
  · rw [hbarrier]
    exact h.lastTripped_eq
  · rw [hbarrier]
    exact h.generation_eq
  · intro u hu hpart
    rcases List.mem_append.mp (hreplaced.after.mem_iff.mp hu) with hu | hu
    · obtain ⟨kept, htask⟩ := hback u hu hpart
      exact ⟨kept, .inl htask⟩
    · exact h.back u (hreplaced.before.mem_iff.mpr (.tail t hu)) hpart

end step

private theorem Opening.step (h : Opening m) (hpools : plan.config.strategy.pools = true)
    (hthreads : 1 ≤ plan.config.threads) (hm : Reachable plan m) (htyped : Typed plan m)
    {t : Thread} (hmoved : Moved plan chance m t m') : Phase m' := by
  obtain ⟨hworkers, hqueue⟩ := alone_of_opens hm h.opens_eq
  cases hmoved with
  | worker hsplit =>
    rw [hworkers] at hsplit
    simp at hsplit
  | @caller t s started hready hmove =>
    have hopens := h.opens_eq
    cases htask : m.caller.task <;> rw [htask] at hopens <;> first | cases hopens; done | skip
    all_goals simp only [Thread.advance, htask] at hmove
    · have hstart := eq_of_acquire hm htask
      obtain ⟨p, hp⟩ := Permits.exists_acquireInitial hthreads
      rw [hstart] at hmove
      simp only [ofBudget, Token.ofBudget, hp] at hmove
      cases hmove
      exact .opening ⟨rfl, rfl, fun _ hseed ↦ by cases hseed⟩
    · have hassemble : Thread.openingTask plan = .assemble := by
        rw [Thread.openingTask]
        cases hstrategy : plan.config.strategy <;> rw [hstrategy] at hpools <;>
          first | rfl | cases hpools
      rw [hassemble] at hmove
      cases hmove
      exact .opening ⟨rfl, h.lastTripped_eq, fun _ hseed ↦ by cases hseed⟩
    · have hsuits := (htyped.caller.stands htask (by simp)).1
      rw [Task.suits, Strategy.queues_of_pools hpools] at hsuits
      cases hsuits
    · cases hmove
      refine .opening ⟨rfl, rfl, fun workers hseed ↦ ?_⟩
      cases hseed
      rfl
    · next workers =>
      have hframes := (stands_leading (htyped.caller.stands htask (by simp)).2).1
      have hbarrier := h.barrier_eq workers htask
      cases hmove
      have hseats : (m.caller.call (.opened workers) .announce).seats = workers + 1 := by
        simp [Thread.seats, Thread.spareSeats, hframes, Task.seats, Frame.seats]
      refine .gathering rfl ?_
      constructor
      · simp [threads, hworkers, weigh, hseats, hbarrier, Barrier.ofParties]
      · simp [threads, hworkers, weigh, hbarrier, Barrier.ofParties, Thread.waitsIn]
      · simp [hbarrier, Barrier.ofParties]
      · simp [threads, hworkers]
      · simp [hbarrier, Barrier.ofParties]
      · simp [threads, hworkers]
      · intro _
        refine ⟨m.caller.call (.opened workers) .announce, .head _, ?_, by simp, by simp⟩
        rw [Thread.takesPart, hseats]
        exact Nat.succ_pos workers

/-- A pool is always in one of its phases. -/
theorem phase_of_reachable (hpools : plan.config.strategy.pools = true)
    (hthreads : 1 ≤ plan.config.threads) (h : Reachable plan m) : Phase m := by
  refine Reachable.induction h ?_ fun hm htyped hmoved ih ↦ ?_
  · exact .opening ⟨rfl, rfl, fun _ hseed ↦ by cases hseed⟩
  · cases ih with
    | opening h => exact h.step hpools hthreads hm htyped hmoved
    | gathering hopens h =>
      have hopens' := opens_of_moved hmoved hopens
      obtain ⟨caller, others, hreplaced⟩ := hmoved.exists_replaced
      rcases h.step hpools hm htyped hreplaced hopens with h | ⟨g, h⟩
      · exact .gathering hopens' h
      · exact .tripped hopens' h
    | tripped hopens h =>
      have hopens' := opens_of_moved hmoved hopens
      obtain ⟨caller, others, hreplaced⟩ := hmoved.exists_replaced
      exact .tripped hopens' (h.step hpools hm htyped hreplaced hopens).1

end Machine
end RayAdjacency
