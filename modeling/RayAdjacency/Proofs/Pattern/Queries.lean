import RayAdjacency.Proofs.Pattern.Algebra
import RayAdjacency.Proofs.Pattern.Members

/-!
# Word-parallel queries as set algebra

Every query of two patterns treats the words that only one of them has in its own way: they are cut
off, gone on with as empty ones, copied or counted. Read as sets of positions, none of this shows.
`Pattern.Algebraic` says so of two patterns, whatever their widths are.
-/

namespace RayAdjacency.Pattern

variable {p q : Pattern}

/-- Two patterns whose operations and queries are those of the sets that they stand for. -/
structure Algebraic (p q : Pattern) : Prop where
  inter : (p.inter q).positions = p.positions ∩ q.positions
  union : (p.union q).positions = p.positions ∪ q.positions
  absorb : (p.absorb q).positions = p.positions ∪ q.positions
  count : p.count = p.positions.card
  interCount : p.interCount q = (p.positions ∩ q.positions).card
  distance : p.distance q = (symmDiff p.positions q.positions).card
  isSubset : p.isSubset q = true ↔ p.positions ⊆ q.positions
  isStrictSubset : p.isStrictSubset q = true ↔ p.positions ⊂ q.positions
  /-- The members come in increasing order, each once. -/
  members_increasing : p.members.Pairwise (· < ·)
  mem_members : ∀ i, i ∈ p.members ↔ i ∈ p.positions
  /-- Going through a pattern gives the members, and then nothing more. -/
  members_end : ∃ c, p.cursor.Yields p.members c ∧ c.next? = none
  absorb_eq : p.capacity = q.capacity → p.absorb q = p.union q

/-- Well-formed patterns of any widths are operated on and queried like the sets that they stand
for. -/
theorem algebraic_of_wellFormed (hp : p.WellFormed) (hq : q.WellFormed) : p.Algebraic q where
  inter := positions_inter p q
  union := positions_union p q
  absorb := positions_absorb p q
  count := hp.count_eq_card
  interCount := interCount_eq_card p q
  distance := distance_eq_card p q
  isSubset := isSubset_iff hp.sized hq.sized
  isStrictSubset := isStrictSubset_iff hp.sized hq.sized
  members_increasing := p.pairwise_members
  mem_members i := by rw [mem_members, mem_positions]
  members_end := p.cursor.yields_toList
  absorb_eq := absorb_eq_union

/-- Members in the first and the last of three words, with none between them. -/
def gapped : Pattern := ⟨[2#64, 0#64, 5#64], 131, 3⟩

/-- A pattern of one word that is not full. -/
def narrow : Pattern := ⟨[6#64], 3, 2⟩

/-- Patterns of three words and of one. -/
theorem algebraic_of_wellFormed_gapped :
    gapped.WellFormed ∧ narrow.WellFormed ∧ gapped.Algebraic narrow ∧ narrow.Algebraic gapped :=
  have hgapped : gapped.WellFormed := by decide +kernel
  have hnarrow : narrow.WellFormed := by decide
  ⟨hgapped, hnarrow, algebraic_of_wellFormed hgapped hnarrow,
    algebraic_of_wellFormed hnarrow hgapped⟩

end RayAdjacency.Pattern
