/-!
# Failures

`Failure` lists the causes for which building a tree or running a search gives up, and
`Failure.message` is the one place that words them. Nothing here is retried: whoever receives a
failure passes it on.

Models `ConeTreeError`.
-/

namespace RayAdjacency

/-- A cause for which tree construction or a search gives up. -/
inductive Failure where
  /-- The ray store could not answer. -/
  | store (text : String)
  /-- Input or output failed. -/
  | io (text : String)
  /-- A range of rays does not lie inside a store of `len` rays. -/
  | invalidRange (start stop len : Nat)
  /-- Two stores hold patterns of different widths. -/
  | widthMismatch (expected got : Nat)
  /-- The search could not even obtain the permit of the calling thread. -/
  | permitUnavailable (budget : Nat)
  /-- More permits were given back than were outstanding. -/
  | overRelease (released held : Nat)
  /-- The operating system refused a thread. -/
  | spawn (label cause : String)
  /-- A thread panicked. -/
  | workerPanicked (label message : String)
  /-- A wait was interrupted. -/
  | interrupted (text : String)
  /-- An internal law was found broken. -/
  | invariant (text : String)
  /-- The configuration cannot be run. -/
  | invalidConfig (text : String)
deriving Repr, DecidableEq, Inhabited

namespace Failure

/-- The name of the kind of a failure. -/
def kind : Failure → String
  | store _ => "Store"
  | io _ => "Io"
  | invalidRange .. => "InvalidRange"
  | widthMismatch .. => "DimensionMismatch"
  | permitUnavailable _ => "PermitUnavailable"
  | overRelease .. => "PermitOverRelease"
  | spawn .. => "Spawn"
  | workerPanicked .. => "WorkerPanicked"
  | interrupted _ => "Interrupted"
  | invariant _ => "InvariantViolation"
  | invalidConfig _ => "InvalidConfig"

/-- The wording of a failure. -/
def message : Failure → String
  | store text => s!"column store error: {text}"
  | io text => s!"IO error: {text}"
  | invalidRange start stop len =>
    s!"invalid ray range {start}..{stop} for a store of {len} columns"
  | widthMismatch expected got =>
    s!"zero pattern width mismatch: expected {expected}, got {got}"
  | permitUnavailable budget =>
    s!"no permit available for the traversal itself (budget {budget})"
  | overRelease released held => s!"released {released} permits with only {held} outstanding"
  | spawn label cause => s!"failed to spawn worker thread '{label}': {cause}"
  | workerPanicked label message => s!"worker thread '{label}' panicked: {message}"
  | interrupted text => s!"interrupted while waiting: {text}"
  | invariant text => s!"invariant violation: {text}"
  | invalidConfig text => s!"invalid configuration: {text}"

end Failure
end RayAdjacency
