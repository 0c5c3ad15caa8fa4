import RayAdjacency.Outcome
import RayAdjacency.Sharing.Cohort

/-!
# The crew of a job queue

The calling thread starts the workers of a cohort one after the other. If it is refused one, it
signs that one and those after it off; else it drains the queue along with them. It then waits until
all have released. A worker comes to the end of its drain in any way, a caught panic included, tells
the cohort, and holds its permit as long as the release policy says.

Each call of the cohort runs under a lock, but whoever waits gives the lock up and sleeps until the
cohort changes; it may also wake for no reason. A time limit may run out at any moment of a sleep.
A worker with a limit reads the clock once, when its hold begins. Where the clock cannot show the
end of the wait there is no wait but a panic, and outside of what is caught: such a worker gives its
permit back on its way out, but never releases.

A `Crew` is a cohort with its workers and the calling thread, in a state in which nobody has the
lock.

Models `Cohort` among its callers: `schedule` of `JobQueueScheduler` from the start of the workers
on, and `work` from the end of the drain on. `CrewStep.hold` and `CrewStep.check` are the look at
the cohort that `hold_until_release` takes first, and those it takes when it has woken.
-/

namespace RayAdjacency

/-- What a worker does between two steps; it remembers what came of its drain. -/
inductive Shift where
  | draining
  /-- It has finished, and is about to begin its hold. -/
  | finished (drained : Outcome Unit)
  /-- It holds its permit, and sleeps or is about to look again whether it may release. -/
  | holding (asleep : Bool) (drained : Outcome Unit)
  /-- It is about to give its permit back. -/
  | cleared (drained : Outcome Unit)
  /-- It has given its permit back. -/
  | surrendered (drained : Outcome Unit)
  /-- It has released. -/
  | departed (drained : Outcome Unit)
  /-- It has panicked in its hold; once it has unwound, it has given its permit back. -/
  | lost (unwound : Bool)
deriving Repr

/-- What the calling thread does between two steps. -/
inductive Lead where
  /-- It is about to start a worker, if there is one of this number. -/
  | starting (worker : Nat)
  /-- It has so many workers to sign off. -/
  | dismissing (left : Nat)
  /-- It is about to give back the permits of the workers that it has not asked for. -/
  | refunding
  | draining
  /-- It waits, and sleeps or is about to look whether all have released. -/
  | waiting (asleep : Bool)
  /-- Its wait has returned. -/
  | through
  /-- It has gone without a wait, for a panic or for permits that were not taken back. -/
  | away
deriving Repr, DecidableEq

/-- A cohort with its workers and the calling thread. -/
structure Crew where
  cohort : Cohort
  lead : Lead
  /-- The workers that have been started, in the order of their start. -/
  workers : List Shift := []
deriving Repr

/-- One step of a crew. -/
inductive CrewStep where
  /-- The calling thread starts a worker, or is refused one, or has started all. -/
  | start (refused : Bool)
  /-- It signs a worker off, or has signed off all. -/
  | dismiss
  /-- It gives permits back. -/
  | refund (refused : Bool)
  /-- It comes to the end of its own drain. -/
  | drain (panicked : Bool)
  /-- It looks whether all have released, and sleeps if not. -/
  | look
  /-- It wakes for no reason. -/
  | wake
  /-- A worker comes to the end of its drain. -/
  | finish (worker : Nat) (drained : Outcome Unit)
  /-- A worker begins its hold when the clock shows `now`: it looks whether it may release, and
  sleeps if not, or panics over the time. -/
  | hold (worker : Nat) (now : Duration)
  /-- A worker that has woken looks again, and sleeps on if it may not release. -/
  | check (worker : Nat)
  /-- The time of a sleep runs out. -/
  | expire (worker : Nat)
  /-- A worker wakes for no reason. -/
  | rouse (worker : Nat)
  /-- A worker gives its permit back. -/
  | surrender (worker : Nat)
  /-- A worker releases. -/
  | depart (worker : Nat)
deriving Repr

/-- Wakes a worker. -/
def Shift.rouse : Shift → Shift
  | holding _ drained => holding false drained
  | shift => shift

/-- Wakes the calling thread. -/
def Lead.rouse : Lead → Lead
  | waiting _ => waiting false
  | lead => lead

namespace Crew

/-- A new cohort, no worker of which has been started. -/
def ofWorkers (workers : Nat) : Crew where
  cohort := Cohort.ofWorkers workers
  lead := .starting 0

/-- A worker turns to something else. -/
def setWorker (c : Crew) (i : Nat) (shift : Shift) : Crew :=
  { c with workers := c.workers.set i shift }

/-- The cohort changes, and everybody wakes. -/
def change (c : Crew) (cohort : Cohort) : Crew where
  cohort
  lead := c.lead.rouse
  workers := c.workers.map Shift.rouse

/-- A worker looks whether it may release, and sleeps if not. -/
def await (policy : ReleasePolicy) (c : Crew) (i : Nat) (drained : Outcome Unit) : Crew :=
  c.setWorker i
    (if c.cohort.mayRelease policy false then .cleared drained else .holding true drained)

/-- One step, if whoever takes it may. -/
def step (policy : ReleasePolicy) (c : Crew) : CrewStep → Option Crew
  | .start refused =>
    match c.lead with
    | .starting worker =>
      if worker < c.cohort.workers then
        if refused then some { c with lead := .dismissing (c.cohort.workers - worker) }
        else some { c with lead := .starting (worker + 1), workers := c.workers ++ [.draining] }
      else some { c with lead := .draining }
    | _ => none
  | .dismiss =>
    match c.lead with
    | .dismissing (left + 1) => some ({ c with lead := .dismissing left }.change c.cohort.abandon)
    | .dismissing 0 => some { c with lead := .refunding }
    | _ => none
  | .refund refused =>
    match c.lead with
    | .refunding => some { c with lead := if refused then .away else .waiting false }
    | _ => none
  | .drain panicked =>
    match c.lead with
    | .draining => some { c with lead := if panicked then .away else .waiting false }
    | _ => none
  | .look =>
    match c.lead with
    | .waiting false =>
      some { c with lead := if c.cohort.allReleased then .through else .waiting true }
    | _ => none
  | .wake =>
    match c.lead with
    | .waiting true => some { c with lead := .waiting false }
    | _ => none
  | .finish i drained =>
    match c.workers[i]? with
    | some .draining => some ((c.setWorker i (.finished drained)).change c.cohort.finish)
    | _ => none
  | .hold i now =>
    match c.workers[i]? with
    | some (.finished drained) =>
      if policy.passesClock now then some (c.setWorker i (.lost false))
      else some (c.await policy i drained)
    | _ => none
  | .check i =>
    match c.workers[i]? with
    | some (.holding false drained) => some (c.await policy i drained)
    | _ => none
  | .expire i =>
    match policy, c.workers[i]? with
    | .timeout _, some (.holding true drained) => some (c.setWorker i (.cleared drained))
    | _, _ => none
  | .rouse i =>
    match c.workers[i]? with
    | some (.holding true drained) => some (c.setWorker i (.holding false drained))
    | _ => none
  | .surrender i =>
    match c.workers[i]? with
    | some (.cleared drained) => some (c.setWorker i (.surrendered drained))
    | some (.lost false) => some (c.setWorker i (.lost true))
    | _ => none
  | .depart i =>
    match c.workers[i]? with
    | some (.surrendered drained) =>
      some ((c.setWorker i (.departed drained)).change c.cohort.release)
    | _ => none

/-- What a new cohort with so many workers may come to. -/
inductive Reachable (policy : ReleasePolicy) (workers : Nat) : Crew → Prop
  | start : Reachable policy workers (ofWorkers workers)
  | step {c c' : Crew} {act : CrewStep} (h : Reachable policy workers c)
      (hstep : c.step policy act = some c') : Reachable policy workers c'

end Crew
end RayAdjacency
