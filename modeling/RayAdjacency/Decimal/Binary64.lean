/-!
# Binary64 numbers

`Binary64` is the exact meaning of a floating-point value: a mantissa times a power of two, or one
of the special values. `Binary64.nearest` goes the other way and rounds a quotient of natural
numbers to the closest representable value, a half going to the even mantissa. Both work on the
bits in exact arithmetic, so nothing here rests on the floating-point unit.
-/

namespace RayAdjacency

/-- The exact meaning of a floating-point value. -/
inductive Binary64 where
  | nan
  | infinite (negative : Bool)
  /-- The number `mantissa * 2 ^ exponent`, with its sign. -/
  | finite (negative : Bool) (mantissa : Nat) (exponent : Int)
deriving Repr, DecidableEq

namespace Binary64

/-- Number of values of the fraction field, `2 ^ 52`. -/
def fractionSize : Nat := 0x10000000000000

/-- Reads the sign, exponent and fraction fields of the 64-bit format. -/
def ofBits (bits : UInt64) : Binary64 :=
  let negative := bits.toNat >>> 63 == 1
  let field : Nat := bits.toNat / fractionSize % 2048
  let fraction : Nat := bits.toNat % fractionSize
  if field = 2047 then
    if fraction = 0 then infinite negative else nan
  else if field = 0 then
    finite negative fraction (-1074)
  else
    finite negative (fractionSize + fraction) ((field : Int) - 1075)

/-- The exact meaning of a `Float`. -/
def ofFloat (x : Float) : Binary64 := ofBits x.toBits

/-- The quotient of two natural numbers, rounded to an integer; a half goes to the even one. -/
def roundHalfEven (num den : Nat) : Nat :=
  let quotient := num / den
  let rest := num % den
  if 2 * rest < den then quotient
  else if den < 2 * rest then quotient + 1
  else if quotient % 2 = 0 then quotient else quotient + 1

/-- The place of the leading binary digit of `num / den`, or one place below it. -/
private def magnitude (num den : Nat) : Int :=
  (Nat.log2 num : Int) - (Nat.log2 den : Int) - 1

/-- The mantissa of `num / den` in units of `2 ^ exponent`, rounded. -/
private def scaled (num den : Nat) (exponent : Int) : Nat :=
  roundHalfEven (num <<< (-exponent).toNat) (den <<< exponent.toNat)

/-- Bits of the representable value closest to `num / den`. A value past the largest finite one
becomes infinite, one below the smallest becomes zero. -/
def nearestBits (num den : Nat) : UInt64 :=
  if num = 0 ∨ den = 0 then 0
  else
    let low := max (magnitude num den - 52) (-1074)
    let coarse := scaled num den low
    -- The estimate of the magnitude may be one place low; one step up mends it.
    let exponent := if 2 * fractionSize ≤ coarse then low + 1 else low
    let mantissa := if 2 * fractionSize ≤ coarse then scaled num den exponent else coarse
    let bits := mantissa + (exponent + 1074).toNat * fractionSize
    (min bits (2047 * fractionSize)).toUInt64

/-- The representable value closest to `± mantissa * 10 ^ exponent`. -/
def ofDecimal (negative : Bool) (mantissa : Nat) (exponent : Int) : Float :=
  let digits := if mantissa = 0 then 0 else Nat.log2 mantissa / 3 + 1
  let magnitude :=
    if mantissa = 0 ∨ exponent + digits < -400 then 0
    else if 400 < exponent then (2047 * fractionSize).toUInt64
    else nearestBits (mantissa * Nat.pow 10 exponent.toNat) (Nat.pow 10 (-exponent).toNat)
  Float.ofBits (if negative then magnitude ||| 0x8000000000000000 else magnitude)

/-- The representable value closest to a count of the 64-bit range. -/
def ofCount (n : Nat) : Float := n.toUInt64.toFloat

example : ofDecimal false 1 (-1) = 0.1 := by decide +kernel
example : (ofDecimal false 5 (-324)).toBits = 1 := by decide +kernel
example : (ofDecimal false 17976931348623157 292).toBits = 0x7fefffffffffffff := by decide +kernel
example : (ofDecimal true 0 0).toBits = 0x8000000000000000 := by decide +kernel

end Binary64
end RayAdjacency
