import RayAdjacency.Sharing.Barrier

/-!
# Parties at a barrier

Each call of a barrier runs under a lock, with one exception: a party that waits gives the lock up
until it wakes. So a wait is two steps, an arrival and, any time later, a return; in between the
others may break the barrier, leave it and go through further generations. A party may also wake
for no reason, in which case it waits on.

An `Assembly` is a barrier with its parties, in a state in which nobody has the lock. It also
records how each generation has ended and what each wait has returned; no step looks at these
records.

Models `wait`, `break_barrier` and `leave` of `CyclicBarrier` among several callers.
-/

namespace RayAdjacency

/-- What a party of a barrier does between two steps. -/
inductive Attendance where
  /-- It is not waiting; it may not even have started. -/
  | away
  /-- It has arrived in the given generation, and its wait has not returned. -/
  | inside (generation : Nat)
  /-- It has left for good. -/
  | gone
deriving Repr, DecidableEq

/-- Whether a party still counts. -/
def Attendance.isRegistered : Attendance → Bool
  | gone => false
  | _ => true

/-- Whether a party waits in a generation. -/
def Attendance.isInside (generation : Nat) : Attendance → Bool
  | inside g => g == generation
  | _ => false

/-- How a generation of a barrier has ended. -/
inductive Ending where
  /-- All parties were waiting. -/
  | tripped (byArrival : Bool)
  /-- The waiting parties were called back. -/
  | broken
deriving Repr, DecidableEq

/-- What a wait has returned. -/
structure WaitAnswer where
  party : Nat
  /-- The generation in which the party had arrived. -/
  generation : Nat
  outcome : BarrierWait
deriving Repr, DecidableEq

/-- A barrier with its parties. -/
structure Assembly where
  barrier : Barrier
  parties : List Attendance
  /-- How each generation has ended, the first one at the head. -/
  endings : List Ending := []
  /-- What the waits have returned, the latest one at the head. -/
  answers : List WaitAnswer := []
deriving Repr, DecidableEq

/-- One step of an assembly. -/
inductive AssemblyStep where
  /-- A party calls to wait, and trips the barrier or is blocked. -/
  | arrive (party : Nat)
  /-- A blocked party wakes, and returns if its generation has ended. -/
  | wake (party : Nat)
  /-- Somebody calls the waiting parties back. -/
  | breakWaiters
  /-- A party leaves, or somebody else signs it off. -/
  | leave (party : Nat)
deriving Repr, DecidableEq

namespace Assembly

/-- A new barrier; a barrier without parties is one of a single party. -/
def ofParties (parties : Nat) : Assembly where
  barrier := Barrier.ofParties parties
  parties := List.replicate (max 1 parties) .away

/-- The barrier after a step, with a record of the ending if its generation has ended. -/
def turn (a : Assembly) (barrier : Barrier) (ending : Ending) : Assembly where
  barrier := barrier
  parties := a.parties
  endings :=
    if barrier.generation = a.barrier.generation then a.endings else a.endings ++ [ending]
  answers := a.answers

/-- A party turns to something else. -/
def setParty (a : Assembly) (i : Nat) (attendance : Attendance) : Assembly :=
  { a with parties := a.parties.set i attendance }

/-- Records what a wait has returned. -/
def answer (a : Assembly) (party generation : Nat) (outcome : BarrierWait) : Assembly :=
  { a with answers := ⟨party, generation, outcome⟩ :: a.answers }

/-- One step, if the party that takes it may. A party waits once at a time, and neither leaves
while it waits nor waits after it has left. -/
def step (a : Assembly) : AssemblyStep → Option Assembly
  | .arrive i =>
    if a.parties[i]? = some .away then
      match a.barrier.arrive with
      | (.trips, barrier) =>
        some ((a.turn barrier (.tripped true)).answer i a.barrier.generation (.tripped true))
      | (.waits generation, barrier) =>
        some ((a.turn barrier (.tripped true)).setParty i (.inside generation))
    else none
  | .wake i =>
    match a.parties[i]? with
    | some (.inside generation) =>
      match a.barrier.verdict generation with
      | none => some a
      | some outcome => some ((a.setParty i .away).answer i generation outcome)
    | _ => none
  | .breakWaiters => some (a.turn a.barrier.breakWaiters.2 .broken)
  | .leave i =>
    if a.parties[i]? = some .away then
      some ((a.turn a.barrier.leave (.tripped false)).setParty i .gone)
    else none

/-- Assemblies that the parties of a new barrier may come to. -/
inductive Reachable (parties : Nat) : Assembly → Prop
  | start : Reachable parties (ofParties parties)
  | step {a a' : Assembly} {act : AssemblyStep} (h : Reachable parties a)
      (hstep : a.step act = some a') : Reachable parties a'

end Assembly
end RayAdjacency
