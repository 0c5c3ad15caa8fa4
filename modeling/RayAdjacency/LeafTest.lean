import RayAdjacency.Candidates
import RayAdjacency.Root.Basic

/-!
# The leaf test

Where both nodes of an entered pair are terminal, each positive ray `p` is compared with each
negative ray `n`. With `I` the zeros that they share:

* fewer than the threshold asks for: not adjacent;
* `p` or `n` has exactly one zero outside `I`: adjacent;
* otherwise the pair is pending, and adjacent unless the pattern of a third ray, of any side,
  strictly contains `I`.

The pending pairs of one comparison share a single walk over the three trees, `Batch.filter`. It
skips a subtree whose union does not contain the cut or does not strictly contain the intersection
of any candidate. In rank mode a delegate of the caller decides every pair that meets the
threshold.

The stores are shared and only read. `Interference` lets the environment refuse any read and any
call of the delegate; a search without interference fails only where its stores and its delegate
do.

Models `compare_leaves` and its `LeafBatch`, with `test_pair` and `settle`; `AdjacencyTest` and
`RankAdjacency`; and `filter_adjacent_pairs` with `filter_node`.
-/

namespace RayAdjacency

/-- How a ray pair that meets the threshold is decided. -/
inductive AdjacencyTest where
  /-- By the one-zero rule and the minimality filter. -/
  | combinatorial
  /-- By a delegate, from the two rays and the zeros that they share. -/
  | rank (judge : Ray → Ray → Pattern → Outcome Bool)

/-- The name of a test. -/
def AdjacencyTest.name : AdjacencyTest → String
  | combinatorial => "combinatorial"
  | rank _ => "rank"

/-- The form of a test in diagnostic output. -/
def AdjacencyTest.describe : AdjacencyTest → String
  | combinatorial => "Combinatorial"
  | rank _ => "Rank(..)"

/-- Which reads and which delegate calls of one comparison fail, whatever the stores and the
delegate would answer; each by the number of such calls before it. -/
structure Interference where
  read : Nat → Side → Nat → Option Failure := fun _ _ _ ↦ none
  judge : Nat → Option Stop := fun _ ↦ none

/-- What a search reads. -/
structure SearchSite where
  root : Root
  stores : Stores
  test : AdjacencyTest

/-- A question put to the delegate. -/
structure Question where
  positive : Ray
  negative : Ray
  intersection : Pattern

/-- The state of one comparison of leaves. -/
structure Batch where
  candidates : Candidates := {}
  /-- The pairs found adjacent. -/
  accepted : Array IndexPair := #[]
  tally : Tally := {}
  /-- Reads made so far. -/
  reads : Nat := 0
  /-- The questions put to the delegate, in order. -/
  asked : Array Question := #[]

/-- A computation within one comparison. What has been counted is kept at a failure. -/
abbrev BatchM (α : Type) := ExceptT Stop (StateM Batch) α

namespace Batch

/-- Counts one event. -/
def bump (c : Counter) : BatchM Unit := modify fun b ↦ { b with tally := b.tally.bump c }

/-- Reads a ray of one side. -/
def read (site : SearchSite) (env : Interference) (side : Side) (i : Nat) : BatchM Ray := do
  let b ← get
  set { b with reads := b.reads + 1 }
  let ray ← liftExcept ((site.stores.side side).answer b.reads i)
  match env.read b.reads side i with
  | some failure => throw (.failed failure)
  | none => return ray

/-- Sets up a buffer for the rays of a terminal node, two words for each. -/
def reserve (n : Node) : BatchM Unit := do
  let (start, stop) ← liftExcept n.window
  liftExcept (Outcome.reserve 16 (stop - start))

end Batch

namespace Node

/-- The indices and patterns of `count` rays from index `i` on, up to the first that cannot be
read. -/
def collectFrom {σ : Type} (read : Nat → StateM σ (Outcome Ray)) :
    Nat → Nat → StateM σ (List (Nat × Pattern) × Outcome Unit)
  | 0, _ => return ([], .ok ())
  | count + 1, i => do
    match ← read i with
    | .error stop => return ([], .error stop)
    | .ok ray =>
      let (rest, outcome) ← collectFrom read count (i + 1)
      return ((i, ray.pattern) :: rest, outcome)

/-- The indices and patterns of the rays of a terminal node, up to the first that cannot be read.
A node of one ray answers from its union. -/
def collect {σ : Type} (read : Nat → StateM σ (Outcome Ray)) :
    Node → StateM σ (List (Nat × Pattern) × Outcome Unit)
  | .single union index => return ([(index, union)], .ok ())
  | .leaf _ start stop => collectFrom read (stop - start) start
  | _ => return ([], .ok ())

end Node

namespace Batch

/-- The rays of a terminal node of one side. -/
def collect (site : SearchSite) (env : Interference) (side : Side) (n : Node) :
    BatchM (List (Nat × Pattern)) := do
  let (rays, outcome) ← n.collect fun i ↦ (read site env side i).run
  liftExcept outcome
  return rays

/-- Whether a candidate survives a ray of one side: the ray is its own, or the pattern of the ray
does not strictly contain the intersection. -/
def survives (side : Side) (index : Nat) (pattern : Pattern) (c : Candidate) : Bool :=
  let own := match side with
    | .positive => c.positive == index
    | .negative => c.negative == index
    | .zero => false
  own || !c.intersection.isStrictSubset pattern

/-- Whether a subtree with the given union may hold a ray that removes a candidate. -/
def concerns (b : Batch) (cut union : Pattern) : Bool :=
  !b.candidates.isEmpty && cut.isSubset union
    && b.candidates.pending.any fun c ↦ c.intersection.isStrictSubset union

/-- Removes the candidates that do not survive the rays of a terminal node. -/
def filterTerminal (site : SearchSite) (env : Interference) (side : Side) (n : Node) :
    BatchM Unit := do
  reserve n
  let rays ← collect site env side n
  rays.forM fun (index, pattern) ↦
    modify fun b ↦ { b with candidates := b.candidates.retain (survives side index pattern) }

mutual
/-- Removes the candidates that do not survive the rays below a node. -/
def filterNode (site : SearchSite) (env : Interference) (side : Side) (cut : Pattern) :
    Node → BatchM Unit
  | .fork union left right => do
    if (← get).concerns cut union then
      filterNode site env side cut left
      filterNode site env side cut right
  | .wide union children => do
    if (← get).concerns cut union then
      filterNodes site env side cut children
  | .leaf union start stop => do
    if (← get).concerns cut union then filterTerminal site env side (.leaf union start stop)
  | .single union index => do
    if (← get).concerns cut union then filterTerminal site env side (.single union index)
  | .empty union => do
    if (← get).concerns cut union then filterTerminal site env side (.empty union)

/-- Removes the candidates that do not survive the rays below several nodes. -/
def filterNodes (site : SearchSite) (env : Interference) (side : Side) (cut : Pattern) :
    List Node → BatchM Unit
  | [] => return ()
  | n :: rest => do
    filterNode site env side cut n
    filterNodes site env side cut rest
end

/-- Removes the candidates that do not survive the rays of the given sides, as long as there is a
candidate. -/
def filterSides (site : SearchSite) (env : Interference) (cut : Pattern) :
    List Side → BatchM Unit
  | [] => return ()
  | side :: rest => do
    if (← get).candidates.isEmpty then return ()
    filterNode site env side cut (site.root.tree side)
    filterSides site env cut rest

/-- Removes every candidate whose intersection is strictly contained in the pattern of a ray other
than its own two. -/
def filter (site : SearchSite) (env : Interference) : BatchM Unit := do
  let before := (← get).candidates
  match before.cut with
  | none => return ()
  | some cut =>
    filterSides site env cut [.positive, .negative, .zero]
    let removed ← liftExcept (Outcome.sub before.size (← get).candidates.size)
    modify fun b ↦ { b with tally := b.tally.add .filteredOut removed }

/-- Accepts a pair. -/
def accept (p n : Nat) : BatchM Unit := modify fun b ↦ { b with accepted := b.accepted.push ⟨p, n⟩ }

/-- Decides a pair by the one-zero rule, or puts it off. -/
def testExcess (p : Nat) (zp : Pattern) (n : Nat) (zn : Pattern) (shared : Nat) : BatchM Unit := do
  let excessPositive ← liftExcept (Outcome.sub zp.count shared)
  let excessNegative ← liftExcept (Outcome.sub zn.count shared)
  if excessPositive = 1 ∨ excessNegative = 1 then
    bump .immediateAdjacent
    accept p n
  else
    bump .pendingCandidates
    modify fun b ↦ { b with candidates := b.candidates.push ⟨p, n, zp.inter zn⟩ }

/-- Decides a pair by the delegate. The rays are read from the stores. -/
def testRank (site : SearchSite) (env : Interference) (judge : Ray → Ray → Pattern → Outcome Bool)
    (p : Nat) (zp : Pattern) (n : Nat) (zn : Pattern) : BatchM Unit := do
  let positive ← read site env .positive p
  let negative ← read site env .negative n
  let intersection := zp.inter zn
  let earlier := (← get).asked.size
  modify fun b ↦ { b with asked := b.asked.push ⟨positive, negative, intersection⟩ }
  match env.judge earlier with
  | some stop => throw stop
  | none =>
    if ← liftExcept (judge positive negative intersection) then accept p n
    else bump .rankRejected

/-- Tests one pair of rays. -/
def testPair (site : SearchSite) (env : Interference) (p : Nat) (zp : Pattern) (n : Nat)
    (zn : Pattern) : BatchM Unit := do
  bump .leafPairs
  let shared := zp.interCount zn
  if site.root.threshold.isMetBy shared then
    match site.test with
    | .combinatorial => testExcess p zp n zn shared
    | .rank judge => testRank site env judge p zp n zn

/-- Filters the pending pairs and accepts those that are left. -/
def settle (site : SearchSite) (env : Interference) : BatchM Unit := do
  if !(← get).candidates.isEmpty then
    filter site env
    modify fun b ↦
      let (survivors, candidates) := b.candidates.drain
      let accepted := b.accepted ++ survivors.map fun c ↦ ⟨c.positive, c.negative⟩
      { b with candidates, accepted }

/-- Compares every ray of the positive node with every ray of the negative node. -/
def compare (site : SearchSite) (env : Interference) (pair : NodePair) : BatchM Unit := do
  reserve pair.positive
  let positive ← collect site env .positive pair.positive
  reserve pair.negative
  let negative ← collect site env .negative pair.negative
  positive.forM fun (p, zp) ↦ negative.forM fun (n, zn) ↦ testPair site env p zp n zn
  settle site env

end Batch
end RayAdjacency
