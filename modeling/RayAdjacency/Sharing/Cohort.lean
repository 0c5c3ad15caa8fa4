import RayAdjacency.Config

/-!
# Cohorts

The workers of a job queue form a cohort. A worker that finds the queue drained has *finished*; it
then holds its permit as long as the release policy says, and has *released* once the permit is
back. The calling thread waits until all have released. A worker that could not be started counts
as finished and released.

Models `Cohort`: `ofWorkers`, `abandon`, `finish` and `release` are `start`, `abandon`, `finish` and
`released`, `mayRelease` is what `hold_until_release` waits for, `allReleased` what
`wait_all_released` waits for.
-/

namespace RayAdjacency

/-- How far the workers of a cohort have come. -/
structure Cohort where
  workers : Nat := 0
  finished : Nat := 0
  released : Nat := 0
deriving Repr, DecidableEq, Inhabited

namespace Cohort

/-- A new cohort. -/
def ofWorkers (workers : Nat) : Cohort := { workers }

/-- A worker could not be started. -/
def abandon (c : Cohort) : Cohort :=
  { c with finished := c.finished + 1, released := c.released + 1 }

/-- A worker has found the queue drained. -/
def finish (c : Cohort) : Cohort := { c with finished := c.finished + 1 }

/-- A worker has given its permit back. -/
def release (c : Cohort) : Cohort := { c with released := c.released + 1 }

/-- Whether a worker that has finished may give its permit back. `expired` says that the time of
its wait, if it has a limit, has run out. -/
def mayRelease (c : Cohort) (policy : ReleasePolicy) (expired : Bool) : Bool :=
  match policy with
  | .immediate => true
  | .waitHalfDone => decide (c.workers ≤ c.finished * 2)
  | .timeout _ => decide (c.workers ≤ c.finished) || expired

/-- Whether all workers have released. -/
def allReleased (c : Cohort) : Bool := decide (c.workers ≤ c.released)

end Cohort

/-- Whether the end of a wait that begins at `now` lies past the last moment that a clock can
show. -/
def ReleasePolicy.passesClock (policy : ReleasePolicy) (now : Duration) : Bool :=
  match policy with
  | .timeout limit => decide (Duration.clockLimit ≤ now.toNanos + limit.toNanos)
  | _ => false

/-- The form of a release policy in diagnostic output. -/
def ReleasePolicy.describe : ReleasePolicy → String
  | .immediate => "Immediate"
  | .waitHalfDone => "WaitHalfDone"
  | .timeout limit => s!"Timeout({limit.describe})"

end RayAdjacency
