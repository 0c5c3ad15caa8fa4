import RayAdjacency.Traversal.Step

/-!
# The machine of a search

A `Machine` is the calling thread, the threads it has started that have not ended, and what they
share. `Machine.step` lets one thread take one step; every interleaving of the threads is a
sequence of such steps. `Machine.run` follows one fixed order, which makes a search a function: the
calling thread goes first whenever it can, then the thread that was started first.

Models the scope of threads in `traverse_with`.
-/

namespace RayAdjacency

/-- The threads of a search. -/
structure Machine where
  caller : Thread
  /-- The other threads, in the order in which they were started. -/
  workers : List Thread
  shared : Shared

/-- Who takes the next step, and what the environment decides in it. -/
structure Choice extends Chance where
  /-- The position of the worker that takes the step, unless it is the calling thread. -/
  worker : Option Nat

namespace Machine

/-- The machine at the start of a search. -/
def ofBudget (threads : Nat) : Machine where
  caller := Thread.caller
  workers := []
  shared := { token := Token.ofBudget threads }

/-- Whether a thread could take a step. -/
def isReady (plan : Plan) (chance : Chance) (m : Machine) (t : Thread) : Bool :=
  !t.isBlocked plan chance m.workers.isEmpty m.shared

/-- One step of the calling thread, if it is not blocked. -/
def stepCaller (plan : Plan) (chance : Chance) (m : Machine) : Option Machine :=
  if m.isReady plan chance m.caller then
    let move := m.caller.advance plan chance true m.shared
    some
      { caller := move.thread.getD m.caller
        workers := m.workers ++ move.started.toList
        shared := move.shared }
  else none

/-- One step of the worker at a position, if there is one and it is not blocked. -/
def stepWorker (plan : Plan) (chance : Chance) (i : Nat) (m : Machine) : Option Machine := do
  let t ← m.workers[i]?
  if m.isReady plan chance t then
    let move := t.advance plan chance false m.shared
    some
      { m with
        workers := m.workers.take i ++ move.thread.toList ++ m.workers.drop (i + 1)
          ++ move.started.toList
        shared := move.shared }
  else none

/-- One step of the chosen thread, if it is not blocked. -/
def step (plan : Plan) (choice : Choice) (m : Machine) : Option Machine :=
  match choice.worker with
  | none => m.stepCaller plan choice.toChance
  | some i => m.stepWorker plan choice.toChance i

/-- The outcome of the search, once it has ended. -/
def outcome? (m : Machine) : Option (Outcome Unit) := m.caller.outcome?

/-- The next choice of the fixed order, if a thread is ready. The clock stands at `now`, and waits
with a time limit run out at once; of the threads asked for, only as many are granted as `limit`
allows. -/
def next? (plan : Plan) (limit : Option Nat) (now : Duration) (m : Machine) : Option Choice :=
  let chance : Chance := { refused := limit.any (· ≤ m.shared.launched), now, expired := true }
  if m.isReady plan chance m.caller then some { chance with worker := none }
  else (m.workers.findIdx? (m.isReady plan chance)).map fun i ↦ { chance with worker := some i }

/-- Takes up to `fuel` steps in the fixed order. -/
def run (plan : Plan) (limit : Option Nat) (now : Duration) : Nat → Machine → Machine
  | 0, m => m
  | fuel + 1, m =>
    match m.next? plan limit now with
    | none => m
    | some choice =>
      match m.step plan choice with
      | none => m
      | some m => run plan limit now fuel m

end Machine
end RayAdjacency
