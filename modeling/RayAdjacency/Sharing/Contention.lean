import RayAdjacency.Sharing.Permits

/-!
# Permits under contention

Threads change the number of free permits without a lock. A call first looks at the number, and
returns if there is nothing to take, or if it would give back too many. Otherwise it exchanges the
number it has seen for a new one; the exchange fails if the number is another one by then, or for
no reason at all, and the call goes on with the number that it finds.

`PermitCall.advance` is one access of one call; other calls may take theirs in between. The
theorems say that a call left alone does what `Permits.tryAcquire` and `Permits.release` do.

Models `try_acquire` and `release` of `ConcurrencyToken` by their loads and exchanges.
-/

namespace RayAdjacency

/-- What a call asks for. -/
inductive PermitRequest where
  /-- Up to so many free permits are to be taken. -/
  | take (n : Nat)
  /-- So many permits are to be given back. -/
  | give (n : Nat)
deriving Repr, DecidableEq

/-- What a call returns. -/
inductive PermitAnswer where
  | taken (n : Nat)
  | given
  /-- More permits were to be given back than were outstanding. -/
  | refused (n held : Nat)
deriving Repr, DecidableEq

/-- How far a call has come. -/
inductive PermitCall where
  /-- It has not looked at the number of free permits. -/
  | called (request : PermitRequest)
  /-- It has seen a number and is about to exchange it. -/
  | trying (request : PermitRequest) (current : Nat)
  | returned (answer : PermitAnswer)
deriving Repr, DecidableEq

namespace PermitCall

/-- What a call does about the number of free permits that it sees. -/
def look (p : Permits) (request : PermitRequest) : PermitCall :=
  match request with
  | .take n => if min p.available n = 0 then returned (.taken 0) else trying request p.available
  | .give n => if p.held < n then returned (.refused n p.held) else trying request p.available

/-- A successful exchange. -/
def exchange (p : Permits) (current : Nat) : PermitRequest → PermitCall × Permits
  | .take n =>
    (returned (.taken (min current n)), { p with available := current - min current n })
  | .give n => (returned .given, { p with available := current + n })

/-- The next access of a call. `spurious` says that an exchange fails for no reason. -/
def advance (p : Permits) (spurious : Bool) : PermitCall → PermitCall × Permits
  | called request => (look p request, p)
  | trying request current =>
    if spurious || p.available != current then (look p request, p) else exchange p current request
  | returned answer => (returned answer, p)

/-- A call that takes permits, left alone, takes those that `Permits.tryAcquire` takes. -/
theorem advance_advance_take (p : Permits) (n : Nat) :
    advance (advance p false (called (.take n))).2 false (advance p false (called (.take n))).1
      = (returned (.taken (p.tryAcquire n).1), (p.tryAcquire n).2) := by
  by_cases h : min p.available n = 0 <;> simp [advance, look, exchange, Permits.tryAcquire, h]

/-- A call that gives permits back, left alone, is refused if `Permits.release` refuses it. -/
theorem advance_advance_give_of_lt {p : Permits} {n : Nat} (h : p.held < n) :
    advance (advance p false (called (.give n))).2 false (advance p false (called (.give n))).1
      = (returned (.refused n p.held), p) := by
  simp [advance, look, h]

/-- A call that gives permits back, left alone, does so if `Permits.release` does. -/
theorem advance_advance_give_of_release {p q : Permits} {n : Nat} (h : p.release n = .ok q) :
    advance (advance p false (called (.give n))).2 false (advance p false (called (.give n))).1
      = (returned .given, q) := by
  unfold Permits.release at h
  split at h
  · simp at h
  · next hn =>
    cases h
    simp [advance, look, exchange, hn]

end PermitCall
end RayAdjacency
