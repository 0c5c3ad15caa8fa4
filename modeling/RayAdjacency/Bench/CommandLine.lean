import RayAdjacency.Bench.Comparison
import RayAdjacency.Bench.Options

/-!
# The command line

`CommandLine.run` is the whole program, written over a `Host` that times searches, writes to the
standard output and makes files. It returns how the program ends.

Models `main` with its `Cli`.
-/

namespace RayAdjacency

/-- Why the operating system refuses to make a file or a directory. -/
structure FileFault where
  code : Nat
  kind : String
  message : String

namespace FileFault

/-- A file stands where a directory is to be made. -/
def alreadyExists : FileFault := ⟨17, "AlreadyExists", "File exists"⟩

/-- A file stands where a directory is needed. -/
def notADirectory : FileFault := ⟨20, "NotADirectory", "Not a directory"⟩

/-- A name or a path is longer than the file system allows. -/
def nameTooLong : FileFault := ⟨36, "InvalidFilename", "File name too long"⟩

end FileFault

/-- What a program may do. -/
structure Host (m : Type → Type) where
  timer : Timer m
  /-- Writes text to the standard output. -/
  write : String → m Unit
  /-- Writes records of the log. -/
  report : List LogRecord → m Unit
  /-- Makes a directory with those above it. -/
  makeDirectory : String → m (Option FileFault)
  /-- Writes a file. -/
  writeFile : String → String → m (Option FileFault)

/-- How a program ends. -/
inductive Exit where
  | success
  /-- It has failed, with a text for the standard error output. -/
  | failure (text : String)
  /-- The arguments are wrong. -/
  | misuse (reason : String)
  | panicked (message : String)

/-- The exit code of a program. -/
def Exit.code : Exit → Nat
  | success => 0
  | failure _ => 1
  | misuse _ => 2
  | panicked _ => 101

namespace CommandLine

/-- The version line. -/
def versionLine : String := "conetree-bench 0.3.0"

/-- The help text. -/
def helpLines (processors : Nat) : List String :=
  ["ConeTree adjacency-search strategy benchmark", "", "Usage: conetree-bench [OPTIONS]", "",
    "Options:",
    s!"  --threads <N>          thread budget of the concurrent strategies [default: {processors}]",
    "  --positive <N>         positive rays [default: 1500]",
    "  --negative <N>         negative rays [default: 1500]",
    "  --zero <N>             zero rays [default: 200]",
    "  --width <N>            width of the zero patterns [default: 48]",
    "  --density <P>          probability that a position is set [default: 0.6]",
    "  --clustered            draw patterns around random prototypes",
    "  --coordinates          draw coordinates and derive the patterns",
    "  --prototypes <N>       number of prototypes [default: 16]",
    "  --noise <P>            probability of a difference from the prototype [default: 0.08]",
    "  --required <N>         zeros that an adjacent pair shares [default: 20]",
    "  --repeats <N>          searches for each strategy [default: 5]",
    "  --seed <N>             seed of the generator [default: 42]",
    "  --max-level-depth <N>  levels expanded into the job queue [default: 6]",
    "  --strategies <NAMES>   strategies to run, separated by commas",
    "  --export <DIR>         directory for the result files",
    "  --debug                write a log",
    "  -h, --help             show this help",
    "  -V, --version          show the version"]

/-- The failure with a configuration error. -/
def configFailure (text : String) : Exit := .failure s!"Error: Config(\"{text}\")\n"

/-- The failure with an error of the file system. -/
def fileFailure (f : FileFault) : Exit :=
  .failure ("Error: Io(Os \x7b code: " ++ toString f.code ++ ", kind: " ++ f.kind
    ++ ", message: \"" ++ f.message ++ "\" \x7d)\n")

/-- The failure to write the file of comma-separated values. -/
def csvFailure (f : FileFault) : Exit :=
  .failure ("Error: Csv(Error(Io(Os \x7b code: " ++ toString f.code ++ ", kind: " ++ f.kind
    ++ ", message: \"" ++ f.message ++ "\" \x7d)))\n")

/-- The path of a file in a directory. -/
def inDirectory (directory file : String) : String :=
  if directory.isEmpty || directory.endsWith "/" then directory ++ file
  else directory ++ "/" ++ file

variable {m : Type → Type} [Monad m]

/-- Writes lines. -/
def writeLines (host : Host m) (lines : List String) : m Unit :=
  host.write (String.join (lines.map (· ++ "\n")))

/-- The first lines of a run. -/
def openingLines (o : Options) : List String :=
  "" :: Comparison.banner "        ConeTree Strategy Benchmark Suite             "
    ++ [s!"  Rays: +{o.positive} -{o.negative} 0:{o.zero}  Width: {o.width}  "
      ++ s!"Threads: {o.threads}  Repeats: {o.repeats}"]

/-- Runs one configuration and writes its line. A failure does not stop the others. -/
def runCase (host : Host m) (w : Workload) (c : StrategyCase) :
    m (Except String (Option CaseResult)) := do
  host.write s!"  {c.label} ... "
  let run ← w.run host.timer c
  host.report run.log
  match run.outcome with
  | .ok r =>
    host.write (Fixed.render 3 r.median.toFloat ++ s!" ms p50, {r.pairs} pairs\n")
    return .ok (some r)
  | .error (.failed failure) =>
    host.write s!"ERR({failure.message})\n"
    return .ok none
  | .error (.panicked message) => return .error message

/-- Runs several configurations; the results are those of the ones that did not fail. -/
def runCases (host : Host m) (w : Workload) :
    List StrategyCase → m (Except String (List CaseResult))
  | [] => return .ok []
  | c :: rest => do
    match ← runCase host w c with
    | .error message => return .error message
    | .ok result =>
      match ← runCases host w rest with
      | .error message => return .error message
      | .ok results => return .ok (result.toList ++ results)

/-- Writes the two result files into a directory. -/
def exportTo (host : Host m) (directory : String) (c : Comparison) : m Exit := do
  let csvPath := inDirectory directory "strategy_results.csv"
  let jsonPath := inDirectory directory "strategy_results.json"
  if let some fault ← host.makeDirectory directory then return fileFailure fault
  if let some fault ← host.writeFile csvPath c.csv then return csvFailure fault
  writeLines host [s!"  CSV exported to {csvPath}"]
  if let some fault ← host.writeFile jsonPath c.toJson.pretty then return fileFailure fault
  writeLines host [s!"  JSON exported to {jsonPath}"]
  return .success

/-- Runs a benchmark. -/
def runOptions (host : Host m) (system : SystemInfo) (o : Options) : m Exit := do
  if !o.hasProbabilities then
    return configFailure "--density and --noise must lie in [0, 1]"
  writeLines host (openingLines o)
  if o.cases.isEmpty then
    return configFailure "No strategies to benchmark. Check --strategies."
  writeLines host ["", "▶ Strategies"]
  match ← runCases host o.workload o.cases with
  | .error message => return .panicked message
  | .ok results =>
    let comparison : Comparison := { system, workload := o.workload, results }
    writeLines host comparison.reportLines
    match o.directory with
    | none => return .success
    | some directory => exportTo host directory comparison

/-- The program with its arguments. -/
def run (host : Host m) (system : SystemInfo) (args : List String) : m Exit := do
  match Options.parse system.cpus args with
  | .version => writeLines host [versionLine]; return .success
  | .help => writeLines host (helpLines (max 1 system.cpus)); return .success
  | .misuse reason => return .misuse reason
  | .run options => runOptions host system options

end CommandLine
end RayAdjacency
