import RayAdjacency.Bench.Workload
import RayAdjacency.Decimal.Literal

/-!
# Options of the command line

Arguments are taken one after the other. An option with a value takes it from the same argument,
after an equals sign, or from the next one, which must not look like an option itself. An option is
given once; `--strategies` may be given again, and its values are separated by commas. The first
argument that asks for the version or for help decides, unless an earlier one is wrong.

Models `Cli`.
-/

namespace RayAdjacency

/-- The options of a benchmark. -/
structure Options where
  threads : Nat
  positive : Nat := 1500
  negative : Nat := 1500
  zero : Nat := 200
  width : Nat := 48
  density : Float := 0.6
  clustered : Bool := false
  coordinates : Bool := false
  prototypes : Nat := 16
  noise : Float := 0.08
  required : Nat := 20
  repeats : Nat := 5
  seed : Nat := 42
  maxLevelDepth : Nat := defaultMaxLevelDepth
  strategies : List String := []
  /-- The directory for the result files. -/
  directory : Option String := none
  debug : Bool := false

/-- What the arguments ask for. -/
inductive Invocation where
  | run (options : Options)
  | version
  | help
  /-- The arguments are wrong. -/
  | misuse (reason : String)

namespace Options

/-- A count as an argument: decimal digits, with an optional plus sign, in the 64-bit range. -/
def count? (text : String) : Option Nat :=
  let digits := match text.toList with
    | '+' :: rest => rest
    | rest => rest
  let n := DecimalLiteral.natOfDigits digits
  if !digits.isEmpty && digits.all Char.isDigit && n < wordLimit then some n else none

/-- Sets an option that takes a value; nothing if there is no such option, and a failed reading if
the value is no good. -/
def setValue? (name value : String) (o : Options) : Option (Option Options) :=
  let count (set : Nat → Options) : Option (Option Options) := some ((count? value).map set)
  let number (set : Float → Options) : Option (Option Options) :=
    some ((DecimalLiteral.argument? value.toList).map set)
  match name with
  | "threads" => count fun n ↦ { o with threads := n }
  | "positive" => count fun n ↦ { o with positive := n }
  | "negative" => count fun n ↦ { o with negative := n }
  | "zero" => count fun n ↦ { o with zero := n }
  | "width" => count fun n ↦ { o with width := n }
  | "density" => number fun x ↦ { o with density := x }
  | "prototypes" => count fun n ↦ { o with prototypes := n }
  | "noise" => number fun x ↦ { o with noise := x }
  | "required" => count fun n ↦ { o with required := n }
  | "repeats" => count fun n ↦ { o with repeats := n }
  | "seed" => count fun n ↦ { o with seed := n }
  | "max-level-depth" => count fun n ↦ { o with maxLevelDepth := n }
  | "strategies" => some (some { o with strategies := o.strategies ++ value.splitOn "," })
  | "export" => some (some { o with directory := some value })
  | _ => none

/-- Sets an option that takes no value, if there is one of that name. -/
def setFlag? (name : String) (o : Options) : Option Options :=
  match name with
  | "clustered" => some { o with clustered := true }
  | "coordinates" => some { o with coordinates := true }
  | "debug" => some { o with debug := true }
  | _ => none

/-- Whether an option may be given more than once. -/
def isRepeatable (name : String) : Bool := name == "strategies"

/-- Whether an argument looks like an option; a lone dash does not. -/
def looksLikeOption (arg : List Char) : Bool :=
  match arg with
  | '-' :: _ :: _ => true
  | _ => false

/-- The options read so far. -/
structure Reading where
  options : Options
  /-- The names of the options that have been given. -/
  given : List String := []

/-- Notes that an option has been given, unless it has been given before. -/
def Reading.mark (r : Reading) (name : String) (options : Options) : Except String Reading :=
  if r.given.contains name && !isRepeatable name then
    .error s!"the argument --{name} cannot be used multiple times"
  else .ok { options, given := name :: r.given }

/-- Reads an option with a value. -/
def Reading.value (r : Reading) (name value : String) : Except String Reading :=
  match r.options.setValue? name value with
  | none => .error s!"unexpected argument --{name}"
  | some none => .error s!"invalid value for --{name}"
  | some (some options) => r.mark name options

/-- What the arguments come to when all have been read. -/
def Reading.finish (r : Reading) : Invocation :=
  if r.options.clustered && r.options.coordinates then
    .misuse "the argument --coordinates cannot be used with --clustered"
  else .run r.options

/-- Whether an option takes a value. -/
def takesValue (name : String) (o : Options) : Bool := (o.setValue? name "").isSome

/-- What the name of a long option stands for. -/
inductive LongOption where
  | version
  | help
  | flag (options : Options)
  | valued
  | unknown

/-- Looks the name of a long option up. -/
def longOption (name : String) (o : Options) : LongOption :=
  if name = "version" then .version
  else if name = "help" then .help
  else match o.setFlag? name with
    | some options => .flag options
    | none => if o.takesValue name then .valued else .unknown

/-- The name of a long option, and the value attached to it by an equals sign. -/
def splitLong (body : List Char) : String × Option String :=
  match body.dropWhile (· ≠ '=') with
  | [] => (String.ofList body, none)
  | _ :: value => (String.ofList (body.takeWhile (· ≠ '=')), some (String.ofList value))

/-- Reads arguments from left to right. -/
def read (r : Reading) : List String → Invocation
  | [] => r.finish
  | arg :: rest =>
    match arg.toList with
    | ['-', '-'] => if rest.isEmpty then r.finish else .misuse "unexpected argument"
    | '-' :: '-' :: body =>
      let (name, attached) := splitLong body
      match longOption name r.options, attached, rest with
      | .version, none, _ => .version
      | .help, none, _ => .help
      | .flag options, none, rest =>
        match r.mark name options with
        | .ok r => read r rest
        | .error reason => .misuse reason
      | .valued, some value, rest =>
        match r.value name value with
        | .ok r => read r rest
        | .error reason => .misuse reason
      | .valued, none, value :: rest =>
        if looksLikeOption value.toList then .misuse s!"a value is required for --{name}"
        else match r.value name value with
          | .ok r => read r rest
          | .error reason => .misuse reason
      | .valued, none, [] => .misuse s!"a value is required for --{name}"
      | .unknown, _, _ => .misuse s!"unexpected argument --{name}"
      | _, some _, _ => .misuse s!"unexpected value for --{name}"
    | '-' :: 'V' :: _ => .version
    | '-' :: 'h' :: _ => .help
    | _ => .misuse s!"unexpected argument {arg}"

/-- What the arguments ask for on a machine of so many processors. -/
def parse (processors : Nat) (args : List String) : Invocation :=
  read { options := { threads := max 1 processors } } args

/-- The model that the options select. -/
def model (o : Options) : RayModel :=
  if o.clustered then .clustered o.prototypes o.density o.noise
  else if o.coordinates then .coordinates o.density
  else .uniform o.density

/-- The workload that the options describe. -/
def workload (o : Options) : Workload where
  width := o.width
  positive := o.positive
  negative := o.negative
  zero := o.zero
  model := o.model
  required := o.required
  repeats := o.repeats
  seed := o.seed

/-- Whether the probabilities are such. -/
def hasProbabilities (o : Options) : Bool :=
  0.0 ≤ o.density && o.density ≤ 1.0 && 0.0 ≤ o.noise && o.noise ≤ 1.0

/-- The lower-case form of a letter; of the letters outside ASCII, the Kelvin sign alone has one
that a label can hold. -/
def lower (c : Char) : Char := if c = '\u212a' then 'k' else c.toLower

/-- The configurations that the options select: all, or those whose labels are asked for in any
case. -/
def cases (o : Options) : List StrategyCase :=
  let wanted := o.strategies.map fun s ↦ String.ofList (s.toList.map lower)
  (StrategyCase.matrix o.threads o.maxLevelDepth).filter fun c ↦
    wanted.isEmpty || wanted.contains c.label

end Options
end RayAdjacency
