/-!
# Breakable cyclic barriers

Parties arrive at a barrier and wait for each other. The barrier counts *generations*: a generation
ends by a *trip*, when all parties are waiting in it, or by a *break*, when new work calls the
waiting parties back. Parties may leave for good but never join late.

A trip needs every party, so no later generation can trip before each waiter of the tripped one has
come back; hence the number of the last generation that tripped is enough for a waiter to tell
whether its own did.

Models `CyclicBarrier`: `arrive` and `verdict` are the two halves of its `wait`, `breakWaiters` is
`break_barrier`.
-/

namespace RayAdjacency

/-- How a wait ended. -/
inductive BarrierWait where
  /-- All parties arrived; `leader` is set for the one that arrived last. -/
  | tripped (leader : Bool)
  /-- The generation was broken before every party arrived. -/
  | broken
deriving Repr, DecidableEq

/-- The state of a barrier. -/
structure Barrier where
  parties : Nat
  waiting : Nat := 0
  generation : Nat := 0
  lastTripped : Option Nat := none
deriving Repr, DecidableEq, Inhabited

/-- What a party meets on arrival. -/
inductive BarrierArrival where
  /-- It is the last one, and the generation trips. -/
  | trips
  /-- It waits in the given generation. -/
  | waits (generation : Nat)
deriving Repr, DecidableEq

namespace Barrier

/-- A barrier of at least one party. -/
def ofParties (parties : Nat) : Barrier := { parties := max 1 parties }

/-- Ends the generation by a trip. -/
def trip (b : Barrier) : Barrier :=
  { b with waiting := 0, lastTripped := some b.generation, generation := b.generation + 1 }

/-- A party arrives. -/
def arrive (b : Barrier) : BarrierArrival × Barrier :=
  let b := { b with waiting := b.waiting + 1 }
  if b.waiting = b.parties then (.trips, b.trip) else (.waits b.generation, b)

/-- What a waiter of a generation learns: nothing while the generation lasts. -/
def verdict (b : Barrier) (generation : Nat) : Option BarrierWait :=
  if b.generation = generation then none
  else if b.lastTripped = some generation then some (.tripped false)
  else some .broken

/-- Ends the generation by a break if a party is waiting in it. -/
def breakWaiters (b : Barrier) : Bool × Barrier :=
  if b.waiting = 0 then (false, b)
  else (true, { b with waiting := 0, generation := b.generation + 1 })

/-- Removes one party for good; one always remains. If all others are waiting, the generation
trips. -/
def leave (b : Barrier) : Barrier :=
  let b := if 1 < b.parties then { b with parties := b.parties - 1 } else b
  if 0 < b.waiting ∧ b.waiting = b.parties then b.trip else b

end Barrier

/-- A barrier with the parties that are blocked at it. -/
structure WaitingRoom where
  barrier : Barrier
  /-- The generations in which parties are blocked, the party that came first at the head. -/
  blocked : List Nat := []
deriving Repr, DecidableEq, Inhabited

namespace WaitingRoom

/-- A party arrives: it learns at once that it tripped the barrier, or is blocked. -/
def wait (w : WaitingRoom) : Option BarrierWait × WaitingRoom :=
  match w.barrier.arrive with
  | (.trips, barrier) => (some (.tripped true), { w with barrier })
  | (.waits generation, barrier) => (none, { barrier, blocked := w.blocked ++ [generation] })

/-- Lets the parties go whose generation has ended, with their outcomes. -/
def release (w : WaitingRoom) : List BarrierWait × WaitingRoom :=
  (w.blocked.filterMap w.barrier.verdict,
    { w with blocked := w.blocked.filter fun g ↦ (w.barrier.verdict g).isNone })

end WaitingRoom
end RayAdjacency
