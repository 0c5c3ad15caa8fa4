import RayAdjacency.Decimal.Binary64

/-!
# Fixed number of places

A value is written with a given number of decimal places: its exact binary value is rounded to
that many places, a half going to the even neighbour. The sign is kept even where the digits are
all zero.
-/

namespace RayAdjacency.Fixed

/-- The digits of a whole number of units of `10 ^ -places`, with the point set. -/
def pointed (places units : Nat) : List Char :=
  if places = 0 then Nat.toDigits 10 units
  else
    let fraction := Nat.toDigits 10 (units % Nat.pow 10 places)
    Nat.toDigits 10 (units / Nat.pow 10 places) ++
      '.' :: List.replicate (places - fraction.length) '0' ++ fraction

/-- The characters of a value with `places` decimal places. -/
def chars (places : Nat) (x : Float) : List Char :=
  match Binary64.ofFloat x with
  | .nan => ['N', 'a', 'N']
  | .infinite negative => if negative then ['-', 'i', 'n', 'f'] else ['i', 'n', 'f']
  | .finite negative mantissa exponent =>
    let units := Binary64.roundHalfEven
      ((mantissa * Nat.pow 10 places) <<< exponent.toNat) (1 <<< (-exponent).toNat)
    let body := pointed places units
    if negative then '-' :: body else body

/-- The text of a value with `places` decimal places. -/
def render (places : Nat) (x : Float) : String := String.ofList (chars places x)

example : chars 3 0.0005 = ['0', '.', '0', '0', '1'] := by decide +kernel
example : chars 2 0.125 = ['0', '.', '1', '2'] := by decide +kernel
example : chars 0 2.5 = ['2'] := by decide +kernel

end RayAdjacency.Fixed
