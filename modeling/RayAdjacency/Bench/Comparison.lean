import RayAdjacency.Bench.Workload
import RayAdjacency.Codec
import RayAdjacency.Decimal.Fixed
import RayAdjacency.Text.Csv
import RayAdjacency.Text.Table

/-!
# Comparisons

The results of several configurations on one workload, and the forms in which they are given out:
a table with the fastest configuration marked, a full report, a file of comma-separated values and
a JSON file.

Models `BenchSuite`, `print_strategy_comparison`, `print_suite`, `best_result`, `export_csv`,
`export_json` and `format_count`.
-/

namespace RayAdjacency

/-- The machine on which a benchmark runs. -/
structure SystemInfo where
  os : String
  arch : String
  cpus : Nat

/-- The results of one workload. -/
structure Comparison where
  system : SystemInfo
  workload : Workload
  results : List CaseResult

namespace Comparison

/-- The faster of two results; the earlier one if neither is. -/
private def faster (a b : CaseResult) : CaseResult :=
  if b.median.rank < a.median.rank then b else a

/-- The first result with the least median, among those that ran. -/
def best? (results : List CaseResult) : Option CaseResult :=
  match results.filter (0 < ·.runs) with
  | [] => none
  | first :: rest => some (rest.foldl faster first)

/-- A count in units, thousands or millions. -/
def shortCount (n : Nat) : String :=
  if 1000000 ≤ n then Fixed.render 2 (Binary64.ofCount n / 1000000.0) ++ "M"
  else if 1000 ≤ n then Fixed.render 1 (Binary64.ofCount n / 1000.0) ++ "K"
  else toString n

/-- The headings of the table. -/
def headings : List String :=
  ["Strategy", "Threads", "Runs", "p50 (ms)", "p99 (ms)", "Mean (ms)", "Pairs", "Leaf pairs",
    "Pruned", "Spawned", "Jobs"]

/-- The row of a result; the results named like the best one are marked. -/
def row (best : Option String) (r : CaseResult) : List String :=
  [if best = some r.label then "★ " ++ r.label else r.label, toString r.threads, toString r.runs,
    Fixed.render 3 r.median.toFloat, Fixed.render 3 r.high, Fixed.render 3 r.mean,
    shortCount r.pairs, shortCount r.leafPairs, Fixed.render 1 (r.pruneRatio * 100.0) ++ "%",
    toString r.spawned, toString r.jobsQueued]

/-- The table of the results, as lines. -/
def tableLines (results : List CaseResult) : List String :=
  if results.isEmpty then []
  else
    let best := (best? results).map CaseResult.label
    let breaks := (results.filter (0 < ·.barrierBreaks)).map fun r ↦
      s!"  {r.label} barrier_breaks={r.barrierBreaks}"
    ["", "━━━ Adjacency search ━━━"] ++ Table.lines headings (results.map (row best)) ++ breaks

/-- A frame of double lines around one line. -/
def banner (text : String) : List String :=
  let line := String.join (List.replicate text.length "═")
  ["╔" ++ line ++ "╗", "║" ++ text ++ "║", "╚" ++ line ++ "╝"]

/-- The last lines of the report: the fastest configuration against a single thread. -/
private def verdictLines (results : List CaseResult) : List String :=
  match best? results, results.find? (·.strategy == "sequential") with
  | some best, some baseline =>
    if best.median.toFloat > 0.0 then
      let factor := Fixed.render 2 (baseline.median.toFloat / best.median.toFloat)
      ["", s!"  Fastest: {best.label} at {factor}x over sequential"]
    else []
  | _, _ => []

/-- The full report, as lines. -/
def reportLines (c : Comparison) : List String :=
  let w := c.workload
  "" :: banner "           ConeTree Strategy Benchmark Report                 "
    ++ [s!"  OS: {c.system.os}  Arch: {c.system.arch}  CPUs: {c.system.cpus}",
      s!"  Rays: +{w.positive} -{w.negative} 0:{w.zero}  Width: {w.width}  "
        ++ s!"Required zeros: {w.required}"]
    ++ tableLines c.results ++ verdictLines c.results

/-- The headings of the file of comma-separated values. -/
def columns : List String :=
  ["label", "strategy", "threads", "runs", "total_secs", "p50_ms", "p99_ms", "mean_ms", "pairs",
    "leaf_pairs", "prune_ratio", "threads_spawned", "jobs_queued", "barrier_breaks"]

/-- The record of a result. -/
def record (r : CaseResult) : List String :=
  [r.label, r.strategy, toString r.threads, toString r.runs, Fixed.render 6 r.totalSeconds,
    Fixed.render 4 r.median.toFloat, Fixed.render 4 r.high, Fixed.render 4 r.mean,
    toString r.pairs, toString r.leafPairs, Fixed.render 4 r.pruneRatio, toString r.spawned,
    toString r.jobsQueued, toString r.barrierBreaks]

/-- The file of comma-separated values. -/
def csv (c : Comparison) : String := Csv.file (columns :: c.results.map record)

end Comparison

/-- The form of a ray model. -/
def RayModel.toJson : RayModel → Json
  | uniform density => .object [("Uniform", .object [("density", .ofFloat density)])]
  | clustered prototypes density noise =>
    .object [("Clustered", .object [("prototypes", .ofNat prototypes),
      ("density", .ofFloat density), ("noise", .ofFloat noise)])]
  | coordinates density => .object [("Coordinates", .object [("density", .ofFloat density)])]

/-- The form of a workload. -/
def Workload.toJson (w : Workload) : Json :=
  .object [("width", .ofNat w.width), ("positive", .ofNat w.positive),
    ("negative", .ofNat w.negative), ("zero", .ofNat w.zero), ("model", w.model.toJson),
    ("required_zero_bits", .ofNat w.required), ("repeats", .ofNat w.repeats),
    ("seed", .ofNat w.seed)]

/-- The form of a machine. -/
def SystemInfo.toJson (s : SystemInfo) : Json :=
  .object [("os", .string s.os), ("arch", .string s.arch), ("cpus", .ofNat s.cpus)]

/-- The form of a result. -/
def CaseResult.toJson (r : CaseResult) : Json :=
  .object [("label", .string r.label), ("strategy", .string r.strategy),
    ("threads", .ofNat r.threads), ("runs", .ofNat r.runs),
    ("total_secs", .ofFloat r.totalSeconds), ("p50_ms", .ofFloat r.median.toFloat),
    ("p99_ms", .ofFloat r.high), ("mean_ms", .ofFloat r.mean), ("pairs", .ofNat r.pairs),
    ("leaf_pairs", .ofNat r.leafPairs), ("prune_ratio", .ofFloat r.pruneRatio),
    ("threads_spawned", .ofNat r.spawned), ("jobs_queued", .ofNat r.jobsQueued),
    ("barrier_breaks", .ofNat r.barrierBreaks)]

/-- The form of a comparison. -/
def Comparison.toJson (c : Comparison) : Json :=
  .object [("system_info", c.system.toJson), ("workload", c.workload.toJson),
    ("results", .ofList CaseResult.toJson c.results)]

end RayAdjacency
