import RayAdjacency.Bench.CommandLine

/-!
# Transcripts

A host without a clock and without a disk: it keeps what a program writes, so a run of the command
line is a function of its arguments. Directories can be made anywhere but at or below the files that
are there from the start.
-/

namespace RayAdjacency

/-- What a program has written. -/
structure Transcript where
  /-- The text written to the standard output. -/
  output : String := ""
  /-- The files written, the newest first. -/
  files : List (String × String) := []

namespace Transcript

/-- Where a path starts, as the names from there up to the root. -/
def origin (path : String) : List String := if path.startsWith "/" then ["/"] else []

/-- The place that a step of a path leads to; the root is above itself. -/
def takeStep (place : List String) : String → List String
  | "." => place
  | ".." => if place.length ≤ 1 then place else place.drop 1
  | name => name :: place

/-- The steps of a path. Repeated slashes count as one, and a last one does not matter. -/
def pathSteps (path : String) : List String := (path.splitOn "/").filter (· ≠ "")

/-- The place of a path. -/
def place (path : String) : List String := (pathSteps path).foldl takeStep (origin path)

/-- Bytes that a name may have. -/
def nameLimit : Nat := 255

/-- Bytes that a path may have. -/
def pathLimit : Nat := 4095

/-- Why a directory cannot be made at the end of some steps: a file is there or on the way, or a
name is too long. -/
def obstacle (files : List (List String)) (place : List String) : List String → Option FileFault
  | [] => if files.contains place then some .alreadyExists else none
  | step :: rest =>
    if files.contains place then some .notADirectory
    else if nameLimit < step.utf8ByteSize then some .nameTooLong
    else obstacle files (takeStep place step) rest

/-- Why a directory cannot be made at a path. -/
def pathObstacle (files : List (List String)) (path : String) : Option FileFault :=
  if pathLimit < path.utf8ByteSize then some .nameTooLong
  else obstacle files (origin path) (pathSteps path)

/-- The files that every machine has among its devices. -/
def devices : List String :=
  ["null", "zero", "full", "random", "urandom", "tty", "stdin", "stdout", "stderr"].map
    ("/dev/" ++ ·)

/-- The host that keeps a transcript. The given paths are files, not directories. -/
def host (present : List String) : Host (StateM Transcript) where
  timer := fun search ↦ pure (search (), Duration.zero)
  write := fun text ↦ modify fun t ↦ { t with output := t.output ++ text }
  report := fun _ ↦ pure ()
  makeDirectory := fun path ↦ pure (pathObstacle (present.map place) path)
  writeFile := fun path text ↦
    if pathLimit < path.utf8ByteSize then pure (some .nameTooLong)
    else do
      modify fun t ↦ { t with files := (path, text) :: t.files }
      return none

/-- Runs the program. -/
def ofRun (present : List String) (system : SystemInfo) (args : List String) :
    Exit × Transcript :=
  (CommandLine.run (host present) system args).run {}

/-- The lines of a text; the end of a line does not begin another one. -/
def linesOf (text : String) : List String :=
  let lines := text.splitOn "\n"
  if lines.getLast? = some "" then lines.dropLast else lines

/-- The lines of the standard output. -/
def lines (t : Transcript) : List String := linesOf t.output

/-- The lines before the final report, which is the second part of the output with a frame. -/
def progressLines (t : Transcript) : List String :=
  let plain (line : String) : Bool := !line.toList.contains '╔'
  match t.lines.span plain with
  | (head, frame :: rest) => head ++ frame :: rest.takeWhile plain
  | (head, []) => head

/-- The text of the file of a name, in whatever directory. -/
def file? (t : Transcript) (name : String) : Option String :=
  (t.files.find? fun (path, _) ↦ path.endsWith name).map Prod.snd

end Transcript
end RayAdjacency
