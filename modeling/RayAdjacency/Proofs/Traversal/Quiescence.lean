import Mathlib.Algebra.Order.BigOperators.Group.List
import RayAdjacency.Proofs.Root.Build
import RayAdjacency.Proofs.Traversal.Jobs
import RayAdjacency.Proofs.Traversal.Phases

/-!
# Quiescence of a pool

A participant returns only after the trip of the barrier. There is one trip, it leaves nothing in the
queue and no job running, and until then some participant can always go on.
-/

namespace RayAdjacency
namespace Machine

variable {plan : Plan} {m m' : Machine} {t : Thread} {g : Nat}

/-- No thread runs a job, or has taken one. -/
def Idle (m : Machine) : Prop :=
  ∀ t ∈ m.threads, t.held = [] ∧ ∀ kept, .job kept ∉ t.frames

/-- Once the barrier has tripped, no job is running. -/
theorem Tripped.idle (h : Tripped m g) (htyped : Typed plan m) : Idle m := by
  intro t ht
  obtain ⟨caller, htyped⟩ := htyped.exists_typed ht
  constructor
  · rw [Thread.held]
    split
    · next pair kept htask =>
      have hpart : t.takesPart := by
        rw [Thread.takesPart, Thread.seats_of_participating htyped (by rw [htask]; rfl)]
        exact Nat.one_pos
      obtain ⟨kept', hback | hback⟩ := h.back t ht hpart <;> rw [htask] at hback <;> cases hback
    · rfl
  · intro kept hmem
    have hframes : 1 ≤ (t.frames.map Frame.seats).sum :=
      List.single_le_sum (fun _ _ ↦ Nat.zero_le _) _ (List.mem_map_of_mem (f := Frame.seats) hmem)
    have hpart : t.takesPart := by
      rw [Thread.takesPart, Thread.seats]
      omega
    obtain ⟨kept', hback | hback⟩ := h.back t ht hpart
    all_goals
      have hseats := Thread.seats_of_participating htyped (by rw [hback]; rfl)
      rw [t.seats_of_task hback (by simp)] at hseats
      simp only [Task.seats] at hseats
      omega

private theorem opens_of_tripped (hpools : plan.config.strategy.pools = true)
    (hthreads : 1 ≤ plan.config.threads) (hm : Reachable plan m) (h : Tripped m g) :
    m.caller.task.opens = false := by
  cases phase_of_reachable hpools hthreads hm with
  | opening hopening =>
    have htripped := h.lastTripped_eq
    rw [hopening.lastTripped_eq] at htripped
    cases htripped
  | gathering hopens => exact hopens
  | tripped hopens => exact hopens

/-- The barrier trips once: afterwards it stays as it is, and nothing is queued any more. -/
theorem Tripped.leads (h : Tripped m g) (hpools : plan.config.strategy.pools = true)
    (hthreads : 1 ≤ plan.config.threads) (hm : Reachable plan m) (hleads : Leads plan m m') :
    Tripped m' g ∧ m'.shared.barrier = m.shared.barrier := by
  induction hleads with
  | refl => exact ⟨h, rfl⟩
  | step hleads hstep ih =>
    have hm' := hm.trans hleads
    have htyped := typed_of_reachable hm'
    obtain ⟨t, -, hmoved⟩ := htyped.moved hstep
    obtain ⟨caller, others, hreplaced⟩ := hmoved.exists_replaced
    have hopens := opens_of_tripped hpools hthreads hm' ih.1
    obtain ⟨htripped, hbarrier⟩ := ih.1.step hpools hm' htyped hreplaced hopens
    exact ⟨htripped, hbarrier.trans ih.2⟩

/-- A participant is back from the barrier only once it has tripped. -/
theorem exists_tripped_of_task (hpools : plan.config.strategy.pools = true)
    (hthreads : 1 ≤ plan.config.threads) (hm : Reachable plan m) (ht : t ∈ m.threads)
    {kept : Except Failure Unit} (htask : t.task = .tripped kept) : ∃ g, Tripped m g := by
  cases phase_of_reachable hpools hthreads hm with
  | opening h =>
    rw [threads, (alone_of_opens hm h.opens_eq).1, List.mem_singleton] at ht
    have hopens := h.opens_eq
    rw [← ht, htask] at hopens
    cases hopens
  | gathering hopens h => exact absurd htask (h.tripped_ne t ht kept)
  | tripped hopens h => exact ⟨_, h⟩

/-- As long as a participant has not returned, one of them can go on. -/
theorem exists_ready_of_takesPart (hpools : plan.config.strategy.pools = true)
    (hthreads : 1 ≤ plan.config.threads) (hm : Reachable plan m) (ht : t ∈ m.threads)
    (hpart : t.takesPart) : ∃ u ∈ m.threads, u.takesPart ∧
      ∀ chance alone, u.isBlocked plan chance alone m.shared = false := by
  have htyped := typed_of_reachable hm
  have hawaits {u : Thread} {chance : Chance} {alone : Bool} (hu : u ∈ m.threads)
      (hpart : u.takesPart) (hblocked : u.isBlocked plan chance alone m.shared = true) :
      ∃ kept, u.task = .await m.shared.barrier.generation kept := by
    obtain ⟨caller, hu⟩ := htyped.exists_typed hu
    exact Thread.exists_await_of_isBlocked hpools hu hpart hblocked
  by_contra hnone
  have hall : ∀ u ∈ m.threads, u.takesPart →
      ∃ kept, u.task = .await m.shared.barrier.generation kept := by
    intro u hu hpart
    by_contra hne
    refine hnone ⟨u, hu, hpart, fun chance alone ↦ ?_⟩
    by_contra hblocked
    rw [Bool.not_eq_false] at hblocked
    exact hne (hawaits hu hpart hblocked)
  cases phase_of_reachable hpools hthreads hm with
  | opening h =>
    rw [threads, (alone_of_opens hm h.opens_eq).1, List.mem_singleton] at ht
    rw [Thread.takesPart, ht, Thread.seats_of_opens htyped.caller h.opens_eq] at hpart
    exact Nat.lt_irrefl 0 hpart
  | gathering hopens h =>
    have hle : weigh Thread.seats m.threads ≤
        weigh (Thread.waitsIn m.shared.barrier.generation) m.threads := by
      refine weigh_le_weigh fun u hu ↦ ?_
      by_cases hpart : u.takesPart
      · obtain ⟨kept, htask⟩ := hall u hu hpart
        obtain ⟨caller, hu⟩ := htyped.exists_typed hu
        rw [Thread.seats_of_participating hu (by rw [htask]; rfl), Thread.waitsIn, htask]
        simp
      · rw [Nat.eq_zero_of_not_pos hpart]
        exact Nat.zero_le _
    have hlt := h.waiting_lt
    rw [h.parties_eq, h.waiting_eq] at hlt
    omega
  | tripped hopens h =>
    have hgeneration := h.generation_eq
    obtain ⟨kept, htask⟩ := hall t ht hpart
    obtain ⟨kept', hback | hback⟩ := h.back t ht hpart <;> rw [htask] at hback <;> cases hback
    omega

end Machine
end RayAdjacency
