/-!
# Hexadecimal digits

Numbers written with a fixed number of hexadecimal digits, in lower case, and the way back, which
takes both cases.
-/

namespace RayAdjacency.Hex

/-- The digits of a number, filled with zeros on the left up to a number of digits. -/
def chars (places n : Nat) : List Char :=
  let digits := Nat.toDigits 16 n
  List.replicate (places - digits.length) '0' ++ digits

/-- A number as a text of at least so many digits. -/
def render (places n : Nat) : String := String.ofList (chars places n)

/-- The value of a digit. -/
def digit? (c : Char) : Option Nat :=
  if '0' ≤ c && c ≤ '9' then some (c.toNat - '0'.toNat)
  else if 'a' ≤ c && c ≤ 'f' then some (c.toNat - 'a'.toNat + 10)
  else if 'A' ≤ c && c ≤ 'F' then some (c.toNat - 'A'.toNat + 10)
  else none

/-- The number that digits spell. -/
def value? (digits : List Char) : Option Nat :=
  digits.foldlM (fun n c ↦ (digit? c).map (16 * n + ·)) 0

example : chars 4 255 = ['0', '0', 'f', 'f'] := by decide +kernel
example : value? ['0', '0', 'f', 'F'] = some 255 := by decide +kernel

end RayAdjacency.Hex
