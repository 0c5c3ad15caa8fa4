import RayAdjacency.Bench.CommandLine

/-!
# The program

`main` runs the command line on the machine: searches are timed with its clock, text goes to the
standard output, and the result files to its disk. All decisions are made by `CommandLine.run`.
-/

namespace RayAdjacency.Machinery

/-- Why the operating system has refused to make a file or a directory. -/
private def fileFault : IO.Error → FileFault
  | .alreadyExists .. => .alreadyExists
  | .inappropriateType .. => .notADirectory
  | .noFileOrDirectory .. => ⟨2, "NotFound", "No such file or directory"⟩
  | .permissionDenied _ code _ => ⟨code.toNat, "PermissionDenied", "Permission denied"⟩
  | e => ⟨5, "Uncategorized", toString e⟩

/-- Runs an action on the disk. -/
private def onDisk (action : IO Unit) : IO (Option FileFault) := do
  try
    action
    return none
  catch e => return some (fileFault e)

/-- Makes a directory, and those above it if they are missing. A fault is the first one met. -/
private def makeDirectory (path : String) : IO (Option FileFault) := do
  if path.isEmpty then return none
  try
    IO.FS.createDir path
    return none
  catch e =>
    let later ← onDisk (IO.FS.createDirAll path)
    match e with
    | .noFileOrDirectory .. => return later
    | _ => return later.map fun _ ↦ fileFault e

/-- Runs a search and reads the clock before and after it. -/
private def timed (search : Unit → Search.Result) : IO (Search.Result × Duration) := do
  let start ← IO.monoNanosNow
  let result ← IO.lazyPure search
  let stop ← IO.monoNanosNow
  return (result, Duration.ofNanos (stop - start))

/-- The machine that the program runs on. Records of the log are written only if asked for. -/
private def host (logs : Bool) : Host IO where
  timer := timed
  write := fun text ↦ do
    let out ← IO.getStdout
    out.putStr text
    out.flush
  report := fun records ↦ if logs then records.forM fun r ↦ IO.println r.line else pure ()
  makeDirectory := makeDirectory
  writeFile := fun path text ↦ onDisk (IO.FS.writeFile path text)

/-- The number of processors that the operating system lists. -/
private def processors : IO Nat := do
  try
    let lines ← IO.FS.lines "/proc/cpuinfo"
    return max 1 (lines.toList.countP (·.startsWith "processor"))
  catch _ => return 1

/-- Runs the program and gives its exit code. -/
def run (args : List String) : IO UInt32 := do
  let system : SystemInfo := ⟨"linux", "x86_64", ← processors⟩
  let exit ← CommandLine.run (host (args.contains "--debug")) system args
  match exit with
  | .success => pure ()
  | .failure text => IO.eprint text
  | .misuse reason => IO.eprintln s!"error: {reason}"
  | .panicked message => IO.eprintln s!"panicked: {message}"
  return exit.code.toUInt32

end RayAdjacency.Machinery

/-- Compares the strategies of the search as the arguments say. -/
def main (args : List String) : IO UInt32 := RayAdjacency.Machinery.run args
