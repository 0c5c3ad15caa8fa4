import RayAdjacency.Outcome

/-!
# Permits

A search may run as many threads at once as its budget says, the calling thread included. Each
running thread holds a permit. Taking permits never waits: one gets as many as are free. Giving
back more than are outstanding is refused and changes nothing.

Models the permits of `ConcurrencyToken`, each call as one step: `try_acquire`, `acquire_initial`
and `release`.
-/

namespace RayAdjacency

/-- A budget of permits, and how many of them are free. -/
structure Permits where
  budget : Nat
  available : Nat
deriving Repr, DecidableEq, Inhabited

namespace Permits

/-- All permits of a budget, free. -/
def ofBudget (budget : Nat) : Permits := ⟨budget, budget⟩

/-- Number of permits taken and not given back. -/
def held (p : Permits) : Nat := p.budget - p.available

/-- Takes up to `n` free permits. -/
def tryAcquire (p : Permits) (n : Nat) : Nat × Permits :=
  let taken := min p.available n
  (taken, { p with available := p.available - taken })

/-- Takes the permit of the calling thread. -/
def acquireInitial (p : Permits) : Except Failure Permits :=
  match p.tryAcquire 1 with
  | (1, p) => .ok p
  | _ => .error (.permitUnavailable p.budget)

/-- Gives `n` permits back. -/
def release (p : Permits) (n : Nat) : Except Failure Permits :=
  if p.held < n then .error (.overRelease n p.held)
  else .ok { p with available := p.available + n }

end Permits
end RayAdjacency
