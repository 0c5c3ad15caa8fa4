import RayAdjacency.Decimal.Shortest
import RayAdjacency.Text.Hex

/-!
# JSON values

A `Json` keeps a number as the text of its literal, so a value that is read and written again
loses nothing, and whoever wants a number decides what kind of number it is. The fields of an
object stay in their order, repeated names included.

`Json.compact` and `Json.pretty` are the two written forms.
-/

namespace RayAdjacency

/-- A JSON value. -/
inductive Json where
  | null
  | bool (b : Bool)
  /-- A number, as written. -/
  | number (text : String)
  | string (text : String)
  | array (items : List Json)
  | object (fields : List (String × Json))
  /-- A string that holds half of a character, or an object with such a name: it can be skipped,
  but it stands for no value. -/
  | unpaired
deriving Inhabited

namespace Json

/-- The layout of floating-point numbers. -/
def floatLayout : FloatLayout where
  tie := .toEven
  positional := fun exponent ↦ decide (-5 ≤ exponent ∧ exponent ≤ 15)
  pointZero := true
  exponentPlus := true
  nan := "null".toList
  infinite := fun _ ↦ "null".toList

/-- A natural number. -/
def ofNat (n : Nat) : Json := number (toString n)

/-- An integer. -/
def ofInt (n : Int) : Json := number (toString n)

/-- A floating-point number; a value that is not finite has no JSON form and becomes `null`. -/
def ofFloat (x : Float) : Json :=
  match Binary64.ofFloat x with
  | .finite .. => number (floatLayout.render x)
  | _ => null

/-- The items of a list, each in its JSON form. -/
def ofList {α : Type} (form : α → Json) (items : List α) : Json := array (items.map form)

/-- How a character is written inside a string. -/
def escape (c : Char) : List Char :=
  if c = '"' then ['\\', '"']
  else if c = '\\' then ['\\', '\\']
  else if c = '\x08' then ['\\', 'b']
  else if c = '\t' then ['\\', 't']
  else if c = '\n' then ['\\', 'n']
  else if c = '\x0c' then ['\\', 'f']
  else if c = '\r' then ['\\', 'r']
  else if c.toNat < 32 then ['\\', 'u'] ++ Hex.chars 4 c.toNat
  else [c]

/-- A string in quotation marks. -/
def quote (text : String) : String :=
  String.ofList ('"' :: text.toList.flatMap escape ++ ['"'])

/-- Encloses parts in brackets, with commas between them. -/
private def bracket (left right : String) (parts : List String) : String :=
  left ++ ",".intercalate parts ++ right

mutual
/-- The form without blanks. -/
def compact : Json → String
  | null | unpaired => "null"
  | bool b => if b then "true" else "false"
  | number text => text
  | string text => quote text
  | array items => bracket "[" "]" (compactItems items)
  | object fields => bracket "\x7b" "\x7d" (compactFields fields)

/-- The items of an array, without blanks. -/
def compactItems : List Json → List String
  | [] => []
  | v :: rest => compact v :: compactItems rest

/-- The fields of an object, without blanks. -/
def compactFields : List (String × Json) → List String
  | [] => []
  | (name, v) :: rest => (quote name ++ ":" ++ compact v) :: compactFields rest
end

/-- A new line at the given depth. -/
private def newline (depth : Nat) : String := "\n" ++ String.ofList (List.replicate (2 * depth) ' ')

/-- Encloses parts in brackets, each on a line of its own one level deeper. -/
private def block (left right : String) (depth : Nat) (parts : List String) : String :=
  if parts.isEmpty then left ++ right
  else
    left ++ newline (depth + 1) ++ ("," ++ newline (depth + 1)).intercalate parts
      ++ newline depth ++ right

mutual
/-- The form with one item or field on a line, at the given depth. -/
def prettyAt (depth : Nat) : Json → String
  | null | unpaired => "null"
  | bool b => if b then "true" else "false"
  | number text => text
  | string text => quote text
  | array items => block "[" "]" depth (prettyItems (depth + 1) items)
  | object fields => block "\x7b" "\x7d" depth (prettyFields (depth + 1) fields)

/-- The items of an array, each over several lines. -/
def prettyItems (depth : Nat) : List Json → List String
  | [] => []
  | v :: rest => prettyAt depth v :: prettyItems depth rest

/-- The fields of an object, each over several lines. -/
def prettyFields (depth : Nat) : List (String × Json) → List String
  | [] => []
  | (name, v) :: rest => (quote name ++ ": " ++ prettyAt depth v) :: prettyFields depth rest
end

/-- The form with one item or field on a line, two blanks for each level. -/
def pretty (v : Json) : String := prettyAt 0 v

example : floatLayout.chars 1e-10 = "1e-10".toList := by decide +kernel
example : floatLayout.chars 1.5e300 = "1.5e+300".toList := by decide +kernel
example : floatLayout.chars 0.00001 = "0.00001".toList := by decide +kernel
example : floatLayout.chars 1e15 = "1000000000000000.0".toList := by decide +kernel
example : floatLayout.chars 9.9e-6 = "9.9e-6".toList := by decide +kernel

end Json
end RayAdjacency
