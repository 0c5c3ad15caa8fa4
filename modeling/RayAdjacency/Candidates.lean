import RayAdjacency.Pattern

/-!
# Candidates

`Candidates` collects the pending pairs of one comparison of leaves, so that the trees are walked
once for all of them. Each candidate carries the intersection of its two patterns; the buffer also
keeps the *cut*, the intersection of all of these since the buffer was last drained. Removing
candidates does not widen the cut back, so it stays a subset of every remaining intersection.

Models `Candidate` and `AdjCandidates`, of which `cut` is the `cut_pattern`.
-/

namespace RayAdjacency

/-- A pair of rays whose adjacency is not decided, with the zeros they share. -/
structure Candidate where
  /-- Index of the positive ray. -/
  positive : Nat
  /-- Index of the negative ray. -/
  negative : Nat
  intersection : Pattern
deriving Repr, DecidableEq, Inhabited

namespace Candidate

/-- Number of zeros that the two rays share. -/
def cardinality (c : Candidate) : Nat := c.intersection.count

/-- The form of a candidate in diagnostic output. -/
def describe (c : Candidate) : String :=
  s!"Candidate(+{c.positive} -{c.negative} ∩={c.intersection.text} |{c.cardinality}|)"

end Candidate

/-- The pending pairs of one comparison. -/
structure Candidates where
  pending : Array Candidate := #[]
  /-- The intersection of all patterns added since the buffer was last drained. -/
  cut : Option Pattern := none
deriving Repr, DecidableEq, Inhabited

namespace Candidates

/-- Adds a pending pair. -/
def push (b : Candidates) (c : Candidate) : Candidates where
  pending := b.pending.push c
  cut := match b.cut with
    | some cut => some (cut.inter c.intersection)
    | none => some c.intersection

/-- Number of pending pairs. -/
def size (b : Candidates) : Nat := b.pending.size

/-- Whether no pair is pending. -/
def isEmpty (b : Candidates) : Bool := b.pending.isEmpty

/-- Keeps the pairs that satisfy a test, in their order. -/
def retain (b : Candidates) (keep : Candidate → Bool) : Candidates :=
  { b with pending := b.pending.filter keep }

/-- Takes all pending pairs. -/
def drain (b : Candidates) : Array Candidate × Candidates := (b.pending, {})

/-- The form of a buffer in diagnostic output. -/
def describe (b : Candidates) : String :=
  let cut := match b.cut with
    | some cut => "Some(" ++ cut.describe ++ ")"
    | none => "None"
  "AdjCandidates \x7b pending: " ++ toString b.size ++ ", cut_pattern: " ++ cut ++ " \x7d"

/-- The pending pairs after a pair has been added. -/
theorem toList_push (b : Candidates) (c : Candidate) :
    (b.push c).pending.toList = b.pending.toList ++ [c] := by
  simp [push]

/-- The pending pairs that are kept. -/
theorem toList_retain (b : Candidates) (keep : Candidate → Bool) :
    (b.retain keep).pending.toList = b.pending.toList.filter keep := by
  simp [retain]

end Candidates
end RayAdjacency
