import RayAdjacency.Json.Reader
import RayAdjacency.Outcome

/-!
# Decoding JSON values

What a value says if it is expected to be a number, a list, a record or a variant of an inductive
type. A record is written as an object with its fields in any order, or as an array with all fields
in order. A variant without content is written as its name, one with content as an object whose
only name is the variant's.
-/

namespace RayAdjacency.Json

/-- A count of the 64-bit range, written without point, exponent and sign. -/
def nat? : Json → Option Nat
  | number text => do
    let (literal, _) ← DecimalLiteral.json? text.toList
    match literal.toInt? with
    | some (Int.ofNat n) => if n < wordLimit then some n else none
    | _ => none
  | _ => none

/-- A floating-point number: any literal whose value does not overflow. -/
def float? : Json → Option Float
  | number text => do
    let (literal, _) ← DecimalLiteral.json? text.toList
    let x := literal.toFloat
    if x.isFinite then some x else none
  | _ => none

/-- A string. -/
def string? : Json → Option String
  | string text => some text
  | _ => none

/-- The items of an array. -/
def items? : Json → Option (List Json)
  | array items => some items
  | _ => none

/-- The items of an array, each decoded. -/
def listOf? {α : Type} (decode : Json → Option α) (v : Json) : Option (List α) := do
  (← v.items?).mapM decode

/-- The values of the fields with a given name. -/
def named (fields : List (String × Json)) (name : String) : List Json :=
  (fields.filter (·.1 == name)).map Prod.snd

/-- The values of the fields of a record, in the order of `names`. Each has to be there once; other
fields are ignored. -/
def record? (names : List String) : Json → Option (List Json)
  | object fields => names.mapM fun name ↦
    match named fields name with
    | [v] => some v
    | _ => none
  | array items => if items.length = names.length then some items else none
  | _ => none

/-- The values of the fields of a record that has no other fields. -/
def closedRecord? (names : List String) (v : Json) : Option (List Json) :=
  match v with
  | object fields => if fields.all (names.contains ·.1) then v.record? names else none
  | v => v.record? names

/-- The name and the content of a variant; a bare name has no content. -/
def variant? : Json → Option (String × Option Json)
  | string name => some (name, none)
  | object [(name, content)] => some (name, some content)
  | _ => none

/-- Whether the content of a variant is what one without fields may have. -/
def isUnit : Option Json → Bool
  | none | some null => true
  | _ => false

/-- The value of the first field with a given name. -/
def field? (v : Json) (name : String) : Option Json :=
  match v with
  | object fields => (named fields name).head?
  | _ => none

mutual
/-- Whether every string and every number of a value stands for something, and no more than `depth`
arrays and objects lie in each other. -/
def isSound : Nat → Json → Bool
  | _, null | _, bool _ | _, string _ => true
  | _, unpaired => false
  | _, number text => (number text).float?.isSome
  | 0, array _ | 0, object _ => false
  | depth + 1, array items => itemsAreSound depth items
  | depth + 1, object fields => fieldsAreSound depth fields

/-- Whether the items of an array are sound. -/
def itemsAreSound : Nat → List Json → Bool
  | _, [] => true
  | depth, v :: rest => isSound depth v && itemsAreSound depth rest

/-- Whether the fields of an object are sound. -/
def fieldsAreSound : Nat → List (String × Json) → Bool
  | _, [] => true
  | depth, (_, v) :: rest => isSound depth v && fieldsAreSound depth rest
end

/-- Number of arrays and objects that may lie in each other in a sound text. -/
def depthLimit : Nat := 127

/-- Reads a whole text as one value without parts that stand for nothing. -/
def ofSoundText? (text : String) : Option Json := (ofText? text).filter (isSound depthLimit)

end RayAdjacency.Json
