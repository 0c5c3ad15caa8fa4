import RayAdjacency.Decimal.Binary64

/-!
# Decimal literals

`DecimalLiteral` is the parsed form of a decimal number as it stands in a text: sign, digits
before and after the point, exponent. Its value is rounded once, from all digits. Two grammars
read it: `json?`, strict about leading zeros and the digits around the point, and `argument?`,
which takes what a command line takes.
-/

namespace RayAdjacency

/-- A decimal number as written. -/
structure DecimalLiteral where
  negative : Bool
  whole : List Char
  /-- The digits after the point, where there is a point. -/
  fraction : Option (List Char)
  /-- The exponent, where there is one. -/
  exponent : Option Int
deriving Repr, DecidableEq

namespace DecimalLiteral

/-- The number that a list of decimal digits spells. -/
def natOfDigits (digits : List Char) : Nat :=
  digits.foldl (fun n c ↦ 10 * n + (c.toNat - '0'.toNat)) 0

/-- The digits at the front of a text, and what follows them. -/
def spanDigits (text : List Char) : List Char × List Char :=
  (text.takeWhile Char.isDigit, text.dropWhile Char.isDigit)

/-- The value of a literal, rounded to the closest floating-point number. -/
def toFloat (l : DecimalLiteral) : Float :=
  let fraction := l.fraction.getD []
  Binary64.ofDecimal l.negative (natOfDigits (l.whole ++ fraction))
    (l.exponent.getD 0 - fraction.length)

/-- The value of a literal without point or exponent, unless it is a negative zero. -/
def toInt? (l : DecimalLiteral) : Option Int :=
  match l.fraction, l.exponent with
  | none, none =>
    let n := natOfDigits l.whole
    if l.negative then (if n = 0 then none else some (-n)) else some n
  | _, _ => none

/-- An exponent after its mark: an optional sign and at least one digit. -/
def exponent? (text : List Char) : Option (Int × List Char) :=
  let (negative, rest) := match text with
    | '+' :: rest => (false, rest)
    | '-' :: rest => (true, rest)
    | rest => (false, rest)
  match spanDigits rest with
  | ([], _) => none
  | (digits, rest) =>
    let n := natOfDigits digits
    some (if negative then -(n : Int) else n, rest)

/-- The exponent part of a literal, which may be missing. -/
def exponentPart? (text : List Char) : Option (Option Int × List Char) :=
  match text with
  | 'e' :: rest | 'E' :: rest => (exponent? rest).map fun (n, rest) ↦ (some n, rest)
  | rest => some (none, rest)

/-- The literal at the front of a text in the grammar of JSON, and what follows it. -/
def json? (text : List Char) : Option (DecimalLiteral × List Char) := do
  let (negative, rest) := match text with
    | '-' :: rest => (true, rest)
    | rest => (false, rest)
  let (whole, rest) := spanDigits rest
  if whole.isEmpty || (whole.length > 1 && whole.head? == some '0') then none
  let (fraction, rest) ← match rest with
    | '.' :: rest =>
      match spanDigits rest with
      | ([], _) => none
      | (digits, rest) => some (some digits, rest)
    | rest => some (none, rest)
  let (exponent, rest) ← exponentPart? rest
  some (⟨negative, whole, fraction, exponent⟩, rest)

/-- The floating-point number that a whole argument spells: a decimal with at least one digit, or
the name of a special value in any case, either with an optional sign. -/
def argument? (text : List Char) : Option Float :=
  let (negative, rest) := match text with
    | '+' :: rest => (false, rest)
    | '-' :: rest => (true, rest)
    | rest => (false, rest)
  let name := String.ofList (rest.map Char.toLower)
  let infinity := 1.0 / 0.0
  if name = "inf" ∨ name = "infinity" then some (if negative then -infinity else infinity)
  else if name = "nan" then some (0.0 / 0.0)
  else
    let (whole, rest) := spanDigits rest
    let (fraction, rest) := match rest with
      | '.' :: rest => let (digits, rest) := spanDigits rest; (some digits, rest)
      | rest => (none, rest)
    if whole.isEmpty && (fraction.getD []).isEmpty then none
    else match exponentPart? rest with
      | some (exponent, []) => some (toFloat ⟨negative, whole, fraction, exponent⟩)
      | _ => none

end DecimalLiteral
end RayAdjacency
