/-!
# Comma-separated values

A field is quoted where it could be misread: if it holds a comma, a quotation mark or the end of a
line. Inside quotation marks, a quotation mark is written twice.
-/

namespace RayAdjacency.Csv

/-- Whether a character makes a field need quotation marks. -/
def isSpecial (c : Char) : Bool := c = ',' || c = '"' || c = '\n' || c = '\r'

/-- The characters of a quoted field, with each quotation mark twice. -/
def double (field : List Char) : List Char :=
  field.flatMap fun c ↦ if c = '"' then ['"', '"'] else [c]

/-- A field. -/
def field (text : String) : String :=
  if text.toList.any isSpecial then String.ofList ('"' :: double text.toList ++ ['"']) else text

/-- A record with the end of its line. -/
def record (fields : List String) : String := ",".intercalate (fields.map field) ++ "\n"

/-- A file of several records. -/
def file (records : List (List String)) : String := String.join (records.map record)

end RayAdjacency.Csv
