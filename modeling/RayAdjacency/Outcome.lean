import RayAdjacency.Failure

/-!
# Outcomes

A computation that does not produce its value stops for one of two reasons: a `Failure`, which
callers expect and pass on, or a panic, which is a broken contract (a violated precondition, an
arithmetic overflow of the 64-bit index type). `Outcome` keeps the two apart. The checked
operations below are the only arithmetic on indices and counts that can leave the 64-bit range.

Models `Result`, and the panics beside it.
-/

namespace RayAdjacency

/-- Why a computation did not produce its value. -/
inductive Stop where
  /-- An expected failure. -/
  | failed (failure : Failure)
  /-- A broken contract. -/
  | panicked (message : String)
deriving Repr, DecidableEq, Inhabited

/-- A value, or the reason why there is none. -/
abbrev Outcome (α : Type) := Except Stop α

/-- Number of values of the 64-bit index type, `2 ^ 64`; indices and counts lie below it. -/
def wordLimit : Nat := 0x10000000000000000

/-- Bytes that a buffer may take, `2 ^ 63 - 1`. -/
def bufferLimit : Nat := 0x7fffffffffffffff

namespace Outcome

/-- Gives up with an expected failure. -/
def fail {α : Type} (failure : Failure) : Outcome α := .error (.failed failure)

/-- Gives up because a contract is broken. -/
def panic {α : Type} (message : String) : Outcome α := .error (.panicked message)

/-- The first outcome, unless it is good and the second is not. -/
def and {α β : Type} (first : Outcome α) (second : Outcome β) : Outcome β :=
  match first with
  | .ok _ => second
  | .error stop => .error stop

/-- A sum of indices, which panics where it leaves the 64-bit range. -/
def add (a b : Nat) : Outcome Nat :=
  if a + b < wordLimit then .ok (a + b) else panic "attempt to add with overflow"

/-- A product of counts, which panics where it leaves the 64-bit range. -/
def mul (a b : Nat) : Outcome Nat :=
  if a * b < wordLimit then .ok (a * b) else panic "attempt to multiply with overflow"

/-- A difference of counts, which panics where it would be negative. -/
def sub (a b : Nat) : Outcome Nat :=
  if b ≤ a then .ok (a - b) else panic "attempt to subtract with overflow"

/-- Sets up a buffer with places of the given size in bytes, which panics where it takes more bytes
than a buffer may. -/
def reserve (size count : Nat) : Outcome Unit :=
  if size * count ≤ bufferLimit then .ok () else panic "capacity overflow"

/-- A sum in range is the sum. -/
theorem add_of_lt {a b : Nat} (h : a + b < wordLimit) : add a b = .ok (a + b) := by
  simp [add, h]

/-- A buffer that is not too large can be set up. -/
theorem reserve_of_le {size count : Nat} (h : size * count ≤ bufferLimit) :
    reserve size count = .ok () := by
  simp [reserve, h]

/-- A difference that is not negative is the difference. -/
theorem sub_of_le {a b : Nat} (h : b ≤ a) : sub a b = .ok (a - b) := by
  simp [sub, h]

end Outcome
end RayAdjacency
