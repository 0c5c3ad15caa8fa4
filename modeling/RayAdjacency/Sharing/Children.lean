import RayAdjacency.Outcome

/-!
# Child threads

The registry of the threads that a search has started: how many have not finished, how many there
have been, and the first failure that one of them reported. A child is registered before it
starts, so the search is over once no child is active. Joining hands the failure out and clears
it, so no failure is reported twice.

Models `ChildRegistry` with `record_failure`, `join_all` and `child_finished` of `ConcurrencyToken`.
-/

namespace RayAdjacency

/-- The registry of child threads. -/
structure Children where
  active : Nat := 0
  spawned : Nat := 0
  failure : Option Failure := none
deriving Repr, DecidableEq, Inhabited

namespace Children

/-- Registers a child before it starts. -/
def register (c : Children) : Children :=
  { c with active := c.active + 1, spawned := c.spawned + 1 }

/-- Records a failure, unless an earlier one is waiting to be handed out. -/
def record (c : Children) (failure : Failure) : Children :=
  { c with failure := c.failure <|> some failure }

/-- Notes the end of a child and what came of it. -/
def finish (c : Children) (outcome : Except Failure Unit) : Children :=
  let c := { c with active := c.active - 1 }
  match outcome with
  | .ok () => c
  | .error failure => c.record failure

/-- Hands out the recorded failure. The caller waits until no child is active. -/
def join (c : Children) : Except Failure Unit × Children :=
  match c.failure with
  | some failure => (.error failure, { c with failure := none })
  | none => (.ok (), c)

/-- What a thread's outcome is to its registry: a panic becomes a failure that names the thread. -/
def settle (label : String) (outcome : Outcome Unit) : Except Failure Unit :=
  match outcome with
  | .ok () => .ok ()
  | .error (.failed failure) => .error failure
  | .error (.panicked message) => .error (.workerPanicked label message)

end Children
end RayAdjacency
