import RayAdjacency.Decimal.Literal
import RayAdjacency.Json.Basic

/-!
# Reading JSON

`Json.ofText?` reads a whole text as one value. Strings are read in two stages: the characters and
escapes of the literal, then the characters that these stand for, where two escapes may make one
character.
-/

namespace RayAdjacency.Json

/-- Skips blanks. -/
def skipBlanks (text : List Char) : List Char :=
  text.dropWhile fun c ↦ c = ' ' || c = '\n' || c = '\t' || c = '\r'

/-- Whether a character can belong to a number; none that can follow a value does. -/
def isNumeric (c : Char) : Bool :=
  c.isDigit || c = '+' || c = '-' || c = '.' || c = 'e' || c = 'E'

/-- An element of a string literal. -/
inductive Piece where
  | char (c : Char)
  /-- An escape of four hexadecimal digits. -/
  | unit (n : Nat)

/-- The character that a one-letter escape stands for. -/
def escaped? : Char → Option Char
  | '"' => some '"'
  | '\\' => some '\\'
  | '/' => some '/'
  | 'b' => some '\x08'
  | 'f' => some '\x0c'
  | 'n' => some '\n'
  | 'r' => some '\r'
  | 't' => some '\t'
  | _ => none

/-- The elements of a string literal after its opening quotation mark, and what follows it. -/
def readPieces : List Char → Option (List Piece × List Char)
  | [] => none
  | '"' :: rest => some ([], rest)
  | '\\' :: 'u' :: a :: b :: c :: d :: rest => do
    let n ← Hex.value? [a, b, c, d]
    let (pieces, rest) ← readPieces rest
    some (.unit n :: pieces, rest)
  | '\\' :: c :: rest => do
    let c ← escaped? c
    let (pieces, rest) ← readPieces rest
    some (.char c :: pieces, rest)
  | c :: rest => do
    if c = '\\' ∨ c.toNat < 32 then none
    let (pieces, rest) ← readPieces rest
    some (.char c :: pieces, rest)

/-- The characters that the elements of a literal stand for. The characters past the basic plane
are written as two escapes. -/
def joinPieces : List Piece → Option (List Char)
  | [] => some []
  | .char c :: rest => do return c :: (← joinPieces rest)
  | .unit n :: rest =>
    if n < 0xd800 ∨ 0xe000 ≤ n then do return Char.ofNat n :: (← joinPieces rest)
    else match rest with
      | .unit m :: rest =>
        if n < 0xdc00 ∧ 0xdc00 ≤ m ∧ m < 0xe000 then do
          return Char.ofNat (0x10000 + (n - 0xd800) * 0x400 + (m - 0xdc00)) :: (← joinPieces rest)
        else none
      | _ => none

/-- The text that the elements of a literal stand for. -/
def textOf (pieces : List Piece) : Option String := (joinPieces pieces).map String.ofList

/-- The fields of an object; one unreadable name spoils it. -/
def ofFields (fields : List (List Piece × Json)) : Json :=
  match fields.mapM fun (name, v) ↦ do return (← textOf name, v) with
  | some fields => object fields
  | none => unpaired

mutual
/-- The value at the front of a text, and what follows it. The fuel is at least the length of the
text. -/
def readValue : Nat → List Char → Option (Json × List Char)
  | 0, _ => none
  | fuel + 1, text =>
    match skipBlanks text with
    | 'n' :: 'u' :: 'l' :: 'l' :: rest => some (null, rest)
    | 't' :: 'r' :: 'u' :: 'e' :: rest => some (bool true, rest)
    | 'f' :: 'a' :: 'l' :: 's' :: 'e' :: rest => some (bool false, rest)
    | '"' :: rest => do
      let (pieces, rest) ← readPieces rest
      some ((textOf pieces).elim unpaired string, rest)
    | '[' :: rest =>
      match skipBlanks rest with
      | ']' :: rest => some (array [], rest)
      | rest => do
        let (items, rest) ← readItems fuel rest
        some (array items, rest)
    | '{' :: rest =>
      match skipBlanks rest with
      | '}' :: rest => some (object [], rest)
      | rest => do
        let (fields, rest) ← readFields fuel rest
        some (ofFields fields, rest)
    | text =>
      let literal := text.takeWhile isNumeric
      match DecimalLiteral.json? literal with
      | some (_, []) => some (number (String.ofList literal), text.dropWhile isNumeric)
      | _ => none

/-- The items of an array from one item on, and what follows the array. -/
def readItems : Nat → List Char → Option (List Json × List Char)
  | 0, _ => none
  | fuel + 1, text => do
    let (v, rest) ← readValue fuel text
    match skipBlanks rest with
    | ',' :: rest =>
      let (items, rest) ← readItems fuel rest
      some (v :: items, rest)
    | ']' :: rest => some ([v], rest)
    | _ => none

/-- The fields of an object from one field on, and what follows the object. -/
def readFields : Nat → List Char → Option (List (List Piece × Json) × List Char)
  | 0, _ => none
  | fuel + 1, text => do
    match skipBlanks text with
    | '"' :: rest =>
      let (name, rest) ← readPieces rest
      match skipBlanks rest with
      | ':' :: rest =>
        let (v, rest) ← readValue fuel rest
        match skipBlanks rest with
        | ',' :: rest =>
          let (fields, rest) ← readFields fuel rest
          some ((name, v) :: fields, rest)
        | '}' :: rest => some ([(name, v)], rest)
        | _ => none
      | _ => none
    | _ => none
end

/-- Reads a whole text as one value. -/
def ofText? (text : String) : Option Json :=
  let chars := text.toList
  match readValue (2 * chars.length + 1) chars with
  | some (v, rest) => if (skipBlanks rest).isEmpty then some v else none
  | none => none

end RayAdjacency.Json
