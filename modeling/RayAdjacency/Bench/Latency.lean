import RayAdjacency.Duration

/-!
# Latencies

A `Latency` records how long each of several runs took. Beside the exact total it keeps a
histogram of nanoseconds: a slot holds the numbers that agree in their eleven leading binary digits,
so a recorded value is known to about three decimal digits, whatever its size. Values past the last
slot are counted as runs but not kept.

Models `LatencyRecorder` and the histogram that it keeps.
-/

namespace RayAdjacency

/-- A range of values that are not told apart. -/
structure Slot where
  /-- The smallest value. -/
  low : Nat
  /-- Number of values, `2 ^ scale`. -/
  scale : Nat
deriving Repr, DecidableEq

namespace Slot

/-- Binary digits of a value that are kept. -/
def precision : Nat := 11

/-- The slot of a value. -/
def ofValue (v : Nat) : Slot :=
  let length := if v = 0 then 0 else Nat.log2 v + 1
  let scale := length - precision
  ⟨v >>> scale <<< scale, scale⟩

/-- The largest value. -/
def high (s : Slot) : Nat := s.low + (1 <<< s.scale) - 1

/-- A value in the middle. -/
def middle (s : Slot) : Nat := s.low + (1 <<< s.scale) / 2

/-- Whether a value belongs to the slot. -/
def Holds (s : Slot) (v : Nat) : Prop := s.low ≤ v ∧ v ≤ s.high

/-- A value belongs to its slot. -/
theorem holds_ofValue (v : Nat) : (ofValue v).Holds v := by
  have hpos : 0 < 2 ^ (ofValue v).scale := Nat.two_pow_pos _
  have hmod := Nat.div_add_mod' v (2 ^ (ofValue v).scale)
  have hlt := Nat.mod_lt v hpos
  have hlow : (ofValue v).low = v / 2 ^ (ofValue v).scale * 2 ^ (ofValue v).scale := by
    rw [← Nat.shiftRight_eq_div_pow, ← Nat.shiftLeft_eq]
    rfl
  unfold Holds high
  rw [Nat.one_shiftLeft]
  omega

end Slot

/-- The recorded times of several runs. -/
structure Latency where
  /-- The slots in use with their counts, by increasing values. -/
  slots : List (Slot × Nat) := []
  total : Duration := Duration.zero
  runs : Nat := 0

namespace Latency

/-- Values from here on have no slot. -/
def limit : Nat := 0x10000000000

/-- Nanoseconds of one millisecond. -/
def nanosPerMilli : Float := 1e6

/-- Counts a value in its slot. -/
def insert (slot : Slot) : List (Slot × Nat) → List (Slot × Nat)
  | [] => [(slot, 1)]
  | (s, n) :: rest =>
    if s.low = slot.low then (s, n + 1) :: rest
    else if slot.low < s.low then (slot, 1) :: (s, n) :: rest
    else (s, n) :: insert slot rest

/-- The value that stands for a duration: its nanoseconds as a 64-bit number, and at least one. -/
def sample (d : Duration) : Nat := max 1 (d.toNanos % wordLimit)

/-- Records one run. -/
def record (l : Latency) (d : Duration) : Outcome Latency := do
  let v := sample d
  let slots := if v < limit then insert (Slot.ofValue v) l.slots else l.slots
  return { slots, total := ← l.total.add d, runs := l.runs + 1 }

/-- Number of values kept. -/
def count (l : Latency) : Nat := l.slots.foldr (fun (_, n) total ↦ n + total) 0

/-- The first slot up to which at least `target` values lie. -/
def slotAt (target : Nat) : List (Slot × Nat) → Option Slot
  | [] => none
  | (s, n) :: rest => if target ≤ n then some s else slotAt (target - n) rest

/-- The time in milliseconds that `p` percent of the runs do not pass. -/
def percentile (l : Latency) (p : Float) : Float :=
  let quotient := p / 100.0
  let share := if quotient > 1.0 then 1.0 else quotient
  let target := max 1 (share * Binary64.ofCount l.count).ceil.toUInt64.toNat
  match slotAt target l.slots with
  | none => 0.0
  | some s => Binary64.ofCount (if share == 0.0 then s.low else s.high) / nanosPerMilli

/-- The mean time of a run in milliseconds. -/
def mean (l : Latency) : Float :=
  let count := Binary64.ofCount l.count
  let sum := l.slots.foldl
    (fun sum (s, n) ↦ sum + Binary64.ofCount s.middle * Binary64.ofCount n / count) 0.0
  if l.count = 0 then 0.0 else sum / nanosPerMilli

/-- The total time in seconds. -/
def totalSeconds (l : Latency) : Float := l.total.toSeconds

end Latency
end RayAdjacency
