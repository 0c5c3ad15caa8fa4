import RayAdjacency.Decimal.Binary64

/-!
# Shortest decimal form

A finite value is written with the fewest significant digits that still lie closer to it than to
any other representable value; of several such decimals the closest is taken. `Shortest.digits`
tests, from coarse to fine, the two neighbours of the value on each decimal grid. `FloatLayout`
holds the decisions of one output format: where positional notation ends, and which spellings it
uses.
-/

namespace RayAdjacency

/-- Which of two equally close decimals is taken. -/
inductive TieRule where
  | toEven
  | awayFromZero
deriving Repr, DecidableEq

/-- The decimal number `coefficient * 10 ^ exponent`. -/
structure DecimalNumber where
  coefficient : Nat
  exponent : Int
deriving Repr, DecidableEq

namespace DecimalNumber

/-- The coefficient's decimal digits. -/
def digits (d : DecimalNumber) : List Char := Nat.toDigits 10 d.coefficient

/-- The power of ten of the leading digit. -/
def leading (d : DecimalNumber) : Int := d.exponent + d.digits.length - 1

/-- Moves up to `fuel` trailing zeros of the coefficient into the exponent. -/
def trim : Nat → DecimalNumber → DecimalNumber
  | 0, d => d
  | fuel + 1, d =>
    if d.coefficient ≠ 0 ∧ d.coefficient % 10 = 0 then
      trim fuel ⟨d.coefficient / 10, d.exponent + 1⟩
    else d

end DecimalNumber

namespace Shortest

/-- The reals that round to `mantissa * 2 ^ exponent`, as multiples of `2 ^ (exponent - 2)`. -/
structure Interval where
  low : Nat
  centre : Nat
  high : Nat
  /-- Whether the two ends belong to it. -/
  closed : Bool

/-- The rounding interval of a value. Below a power of two the next value is half as far away. -/
def interval (mantissa : Nat) (exponent : Int) : Interval where
  low := if mantissa = Binary64.fractionSize ∧ -1074 < exponent then 4 * mantissa - 1
    else 4 * mantissa - 2
  centre := 4 * mantissa
  high := 4 * mantissa + 2
  closed := mantissa % 2 == 0

/-- The decimal on the grid of `10 ^ grid` that stands for the value, if a neighbour of the value
on that grid lies in the rounding interval. -/
def onGrid (tie : TieRule) (i : Interval) (exponent grid : Int) : Option DecimalNumber :=
  let unit := exponent - 2
  let binary := Nat.pow 10 (-grid).toNat <<< unit.toNat
  let decimal := Nat.pow 10 grid.toNat <<< (-unit).toNat
  let value := i.centre * binary
  let below := value / decimal
  let within (c : Nat) : Bool :=
    if i.closed then i.low * binary ≤ c * decimal && c * decimal ≤ i.high * binary
    else i.low * binary < c * decimal && c * decimal < i.high * binary
  let downward := value - below * decimal
  let upward := (below + 1) * decimal - value
  match within below && below != 0, within (below + 1) with
  | true, false => some ⟨below, grid⟩
  | false, true => some ⟨below + 1, grid⟩
  | false, false => none
  | true, true =>
    if downward < upward then some ⟨below, grid⟩
    else if upward < downward then some ⟨below + 1, grid⟩
    else match tie with
      | .awayFromZero => some ⟨below + 1, grid⟩
      | .toEven => some ⟨if below % 2 = 0 then below else below + 1, grid⟩

/-- A power of ten not below the value. -/
def coarsest (mantissa : Nat) (exponent : Int) : Int :=
  ((Nat.log2 mantissa : Int) + exponent + 1) * 30103 / 100000 + 1

/-- The shortest decimal that reads back as `mantissa * 2 ^ exponent`. Twenty grids are enough:
seventeen digits always tell a value from its neighbours. -/
def digits (tie : TieRule) (mantissa : Nat) (exponent : Int) : DecimalNumber :=
  if mantissa = 0 then ⟨0, 0⟩
  else
    let i := interval mantissa exponent
    let top := coarsest mantissa exponent
    let found := (List.range 21).findSome? fun (k : Nat) ↦ onGrid tie i exponent (top - k)
    (found.getD ⟨mantissa, exponent⟩).trim 400

end Shortest

/-- The decisions of one output format for floating-point numbers. -/
structure FloatLayout where
  tie : TieRule
  /-- Positional notation is used where it holds of the leading digit's power of ten. -/
  positional : Int → Bool
  /-- Whether a whole number is written with `.0`. -/
  pointZero : Bool
  /-- Whether a positive exponent carries a sign. -/
  exponentPlus : Bool
  /-- The text of an undefined value. -/
  nan : List Char
  /-- The text of an infinite value, by its sign. -/
  infinite : Bool → List Char

namespace FloatLayout

/-- Positional notation: the point after, inside or before the digits. -/
def plain (layout : FloatLayout) (d : DecimalNumber) : List Char :=
  let digits := d.digits
  if d.exponent ≥ 0 then
    digits ++ List.replicate d.exponent.toNat '0' ++ (if layout.pointZero then ['.', '0'] else [])
  else
    let places := (-d.exponent).toNat
    if places < digits.length then
      digits.take (digits.length - places) ++ '.' :: digits.drop (digits.length - places)
    else
      '0' :: '.' :: List.replicate (places - digits.length) '0' ++ digits

/-- Scientific notation: one digit before the point. -/
def scientific (layout : FloatLayout) (d : DecimalNumber) : List Char :=
  let mantissa := match d.digits with
    | [] => []
    | [c] => [c]
    | c :: rest => c :: '.' :: rest
  let exponent := d.leading
  let sign := if exponent < 0 then ['-'] else if layout.exponentPlus then ['+'] else []
  mantissa ++ 'e' :: sign ++ Nat.toDigits 10 exponent.natAbs

/-- The characters of a floating-point number in a format. -/
def chars (layout : FloatLayout) (x : Float) : List Char :=
  match Binary64.ofFloat x with
  | .nan => layout.nan
  | .infinite negative => layout.infinite negative
  | .finite negative mantissa exponent =>
    let d := Shortest.digits layout.tie mantissa exponent
    let body := if layout.positional d.leading then layout.plain d else layout.scientific d
    if negative then '-' :: body else body

/-- The text of a floating-point number in a format. -/
def render (layout : FloatLayout) (x : Float) : String := String.ofList (layout.chars x)

/-- Numbers in messages are written without exponent and without a needless point. -/
def inMessage : FloatLayout where
  tie := .awayFromZero
  positional := fun _ ↦ true
  pointZero := false
  exponentPlus := false
  nan := ['N', 'a', 'N']
  infinite := fun negative ↦ if negative then ['-', 'i', 'n', 'f'] else ['i', 'n', 'f']

example : inMessage.chars 0.001 = ['0', '.', '0', '0', '1'] := by decide +kernel
example : inMessage.chars 20.5 = ['2', '0', '.', '5'] := by decide +kernel
example : Shortest.digits .toEven 5764607523034235 (-59) = ⟨1, -2⟩ := by decide +kernel
example : Shortest.digits .toEven 1 (-1074) = ⟨5, -324⟩ := by decide +kernel

end FloatLayout
end RayAdjacency
