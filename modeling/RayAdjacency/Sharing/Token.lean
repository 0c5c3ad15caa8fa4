import RayAdjacency.Log
import RayAdjacency.Sharing.Children
import RayAdjacency.Sharing.Permits
import RayAdjacency.Tally

/-!
# Tokens

One `Token` belongs to each search: its permits, its registry of child threads and its tally.

Models `ConcurrencyToken`, each call as one step; of `spawn_child`, what it registers and records.
-/

namespace RayAdjacency

/-- What the threads of one search share about themselves. -/
structure Token where
  permits : Permits
  children : Children := {}
  tally : Tally := {}
deriving Inhabited

namespace Token

/-- A token with all permits of a budget free. -/
def ofBudget (budget : Nat) : Token := { permits := Permits.ofBudget budget }

/-- Takes up to `n` free permits. -/
def tryAcquire (t : Token) (n : Nat) : Nat × Token :=
  let (taken, permits) := t.permits.tryAcquire n
  (taken, { t with permits })

/-- Gives `n` permits back. -/
def release (t : Token) (n : Nat) : Except Failure Token := do
  return { t with permits := ← t.permits.release n }

/-- What is reported when permits cannot be given back. -/
private def brokenRecord (failure : Failure) : LogRecord where
  level := .error
  message := "Permit accounting broken on guard drop"
  fields := [("error", .text failure.message)]

/-- Gives back the permits of a guard that goes out of use. A refusal is recorded as a failure. -/
def dropGuard (t : Token) (n : Nat) : Token × List LogRecord :=
  if n = 0 then (t, [])
  else match t.release n with
    | .ok t => (t, [])
    | .error failure =>
      ({ t with children := t.children.record failure }, [brokenRecord failure])

/-- Registers a child and counts it. -/
def register (t : Token) : Token :=
  { t with children := t.children.register, tally := t.tally.bump .threadsSpawned }

/-- Notes the end of a child. -/
def finish (t : Token) (outcome : Except Failure Unit) : Token :=
  { t with children := t.children.finish outcome }

/-- Hands out the first failure recorded since the last time. -/
def join (t : Token) : Except Failure Unit × Token :=
  let (outcome, children) := t.children.join
  (outcome, { t with children })

/-- What is reported when a thread has been started. -/
def spawnedRecord (label : String) : LogRecord where
  level := .trace
  message := "Spawned child thread"
  fields := [("label", .text label)]

/-- The refusal of a thread by the operating system. -/
def spawnRefused (label : String) : Failure :=
  .spawn label "Resource temporarily unavailable (os error 11)"

end Token
end RayAdjacency
