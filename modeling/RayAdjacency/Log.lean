/-!
# Log records

What the library reports while it works: a level, a message and named fields. Records are values;
the outer layer decides what becomes of them.

Models the events that the program traces.
-/

namespace RayAdjacency

/-- How important a record is. -/
inductive LogLevel where
  | trace
  | debug
  | info
  | error
deriving Repr, DecidableEq

/-- The name of a level. -/
def LogLevel.name : LogLevel → String
  | trace => "TRACE"
  | debug => "DEBUG"
  | info => "INFO"
  | error => "ERROR"

/-- The value of a field. -/
inductive LogValue where
  | number (n : Nat)
  | text (s : String)
deriving Repr, DecidableEq

/-- One record. -/
structure LogRecord where
  level : LogLevel
  message : String
  fields : List (String × LogValue)
deriving Repr, DecidableEq

/-- The line of a record in plain output. -/
def LogRecord.line (r : LogRecord) : String :=
  let value : LogValue → String
    | .number n => toString n
    | .text s => s
  " ".intercalate (r.level.name :: r.message :: r.fields.map fun (name, v) ↦ name ++ "=" ++ value v)

end RayAdjacency
