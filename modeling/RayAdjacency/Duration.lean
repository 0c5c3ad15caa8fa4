import RayAdjacency.Decimal.Binary64
import RayAdjacency.Outcome

/-!
# Durations

A span of time in whole seconds and nanoseconds; the nanoseconds stay below one second.

Models `Duration`, and how far an `Instant` reaches.
-/

namespace RayAdjacency

/-- A span of time. -/
structure Duration where
  secs : Nat
  nanos : Nat
deriving Repr, DecidableEq, Inhabited

namespace Duration

/-- Nanoseconds of one second. -/
def nanosPerSecond : Nat := 1000000000

/-- The first moment that a clock cannot show, in nanoseconds from where it starts: seconds are
counted by a signed 64-bit number. -/
def clockLimit : Nat := 0x8000000000000000 * nanosPerSecond

/-- No time at all. -/
def zero : Duration := ⟨0, 0⟩

/-- A span of so many milliseconds. -/
def ofMillis (n : Nat) : Duration := ⟨n / 1000, n % 1000 * 1000000⟩

/-- A span of so many nanoseconds. -/
def ofNanos (n : Nat) : Duration := ⟨n / nanosPerSecond, n % nanosPerSecond⟩

/-- A span given by seconds and any number of nanoseconds, unless it is too long. -/
def ofParts? (secs nanos : Nat) : Option Duration :=
  let whole := secs + nanos / nanosPerSecond
  if whole < wordLimit then some ⟨whole, nanos % nanosPerSecond⟩ else none

/-- A span given by seconds and any number of nanoseconds. -/
def ofParts (secs nanos : Nat) : Outcome Duration :=
  match ofParts? secs nanos with
  | some d => .ok d
  | none => Outcome.panic "overflow in duration"

/-- The length in nanoseconds. -/
def toNanos (d : Duration) : Nat := d.secs * nanosPerSecond + d.nanos

/-- The sum of two spans. -/
def add (a b : Duration) : Outcome Duration :=
  match ofParts? (a.secs + b.secs) (a.nanos + b.nanos) with
  | some d => .ok d
  | none => Outcome.panic "overflow when adding durations"

/-- The length in seconds. -/
def toSeconds (d : Duration) : Float := Binary64.ofCount d.secs + Binary64.ofCount d.nanos / 1e9

/-- A number of units and a fraction of `places` digits, without trailing zeros. -/
private def decimal (whole fraction places : Nat) : String :=
  let digits := Nat.toDigits 10 fraction
  let padded := List.replicate (places - digits.length) '0' ++ digits
  let shown := (padded.reverse.dropWhile (· == '0')).reverse
  toString whole ++ (if shown.isEmpty then "" else "." ++ String.ofList shown)

/-- A span in the largest unit of which it holds one. -/
def describe (d : Duration) : String :=
  if 0 < d.secs then decimal d.secs d.nanos 9 ++ "s"
  else if 1000000 ≤ d.nanos then decimal (d.nanos / 1000000) (d.nanos % 1000000) 6 ++ "ms"
  else if 1000 ≤ d.nanos then decimal (d.nanos / 1000) (d.nanos % 1000) 3 ++ "µs"
  else toString d.nanos ++ "ns"

end Duration
end RayAdjacency
