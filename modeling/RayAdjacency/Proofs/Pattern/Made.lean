import RayAdjacency.Proofs.Pattern.Members
import RayAdjacency.Proofs.Pattern.Text

/-!
# Patterns made by the operations

Words, width and cardinality are kept in step by each operation separately. The words always are as
many as the width asks for, and the cardinality is always that of the positions in them. That no
position lies at or beyond the width holds as long as each union in place has room for the members
that it takes in: a pattern keeps its own width where it stores as many words, so a narrower one may
take in members beyond it (`Pattern.outgrown`), which some of its answers then show and others hide.
-/

namespace RayAdjacency.Pattern

variable {p q : Pattern} {allowed : Pattern → Pattern → Prop}

/-- The patterns that the operations make out of nothing, where unions in place are taken only of
pairs that are allowed. -/
inductive Made (allowed : Pattern → Pattern → Prop) : Pattern → Prop
  | zeros (capacity : Nat) : Made allowed (zeros capacity)
  | ofPositions {capacity : Nat} {positions : List Nat} {p : Pattern}
      (h : ofPositions capacity positions = .ok p) : Made allowed p
  | parse {text : String} {p : Pattern} (h : parse? text = .ok (some p)) : Made allowed p
  | insert {p q : Pattern} {i : Nat} (hp : Made allowed p) (h : p.insert i = .ok q) :
      Made allowed q
  | inter {p q : Pattern} (hp : Made allowed p) (hq : Made allowed q) : Made allowed (p.inter q)
  | union {p q : Pattern} (hp : Made allowed p) (hq : Made allowed q) : Made allowed (p.union q)
  | absorb {p q : Pattern} (hp : Made allowed p) (hq : Made allowed q) (h : allowed p q) :
      Made allowed (p.absorb q)

/-- A pattern all of whose answers describe one set of positions below its width. -/
structure Describes (p : Pattern) (s : Finset Nat) : Prop where
  lt_capacity : ∀ i ∈ s, i < p.capacity
  contains_iff : ∀ i, p.contains i = true ↔ i ∈ s
  members_increasing : p.members.Pairwise (· < ·)
  mem_members : ∀ i, i ∈ p.members ↔ i ∈ s
  text_eq : p.text.toList = (List.range p.capacity).map fun i ↦ if i ∈ s then '1' else '0'
  count_eq : p.count = s.card

/-- The answers of a well-formed pattern describe the set that it stands for. -/
theorem WellFormed.describes (hp : p.WellFormed) : p.Describes p.positions where
  lt_capacity _ hi := hp.lt_capacity hi
  contains_iff := hp.contains_iff
  members_increasing := p.pairwise_members
  mem_members i := by rw [mem_members, mem_positions]
  text_eq := by
    rw [toList_text]
    apply List.map_congr_left
    intro i _
    simp only [hp.contains_iff]
  count_eq := hp.count_eq_card

/-- Words and cardinality agree with each other and with the width, whatever is united in place. -/
theorem Made.sized (h : Made allowed p) : p.Sized := by
  induction h with
  | zeros capacity => exact (wellFormed_zeros capacity).sized
  | ofPositions h => exact (wellFormed_of_ofPositions h).1.sized
  | parse h => exact (text_of_parse? h).2.1.sized
  | insert _ h ih => exact (ih.gains h).sized
  | inter _ _ ihp _ => exact ihp.inter _
  | union _ _ ihp ihq => exact ihp.union ihq
  | absorb _ _ _ ihp ihq => exact ihp.absorb ihq

/-- Patterns are well formed if all unions in place have had room. -/
theorem Made.wellFormed (hroom : ∀ a b, allowed a b → a.HasRoomFor b) (h : Made allowed p) :
    p.WellFormed := by
  induction h with
  | zeros capacity => exact wellFormed_zeros capacity
  | ofPositions h => exact (wellFormed_of_ofPositions h).1
  | parse h => exact (text_of_parse? h).2.1
  | insert _ h ih => exact ih.of_insert h
  | inter _ _ ihp _ => exact ihp.inter _
  | union _ _ ihp ihq => exact ihp.union ihq
  | absorb _ _ h ihp ihq => exact (wellFormed_absorb_iff ihp ihq).mpr (hroom _ _ h)

/-- What is kept of a pattern by the operations that have made it. -/
structure Represents (allowed : Pattern → Pattern → Prop) (p : Pattern) : Prop where
  sized : p.Sized
  /-- Where all unions in place have had room, the answers of the pattern describe one set. -/
  describes : (∀ a b, allowed a b → a.HasRoomFor b) → p.WellFormed ∧ p.Describes p.positions
  /-- To such a pattern each position below its width can be added. -/
  accepts : (∀ a b, allowed a b → a.HasRoomFor b) → p.capacity < wordLimit →
    ∀ i < p.capacity, ∃ q, p.insert i = .ok q
  /-- Where there is no room, a union in place of well-formed patterns is not well formed. -/
  absorb_iff : p.WellFormed → ∀ q, q.WellFormed → ((p.absorb q).WellFormed ↔ p.HasRoomFor q)

/-- The operations keep words, width and cardinality of all patterns in step, and no position beyond
the width as long as unions in place have room. -/
theorem represents_of_made (h : Made allowed p) : p.Represents allowed where
  sized := h.sized
  describes hroom := ⟨h.wellFormed hroom, (h.wellFormed hroom).describes⟩
  accepts hroom hwidth _ hi := (h.wellFormed hroom).exists_insert hi hwidth
  absorb_iff hp _ hq := wellFormed_absorb_iff hp hq

/-- Two members of three positions. -/
def pair : Pattern := ⟨[6#64], 3, 2⟩

/-- A pattern of two words that takes in one of three positions, and a union of both. -/
theorem represents_of_made_pair :
    Made HasRoomFor (((zeros 70).absorb pair).union pair) ∧
      (((zeros 70).absorb pair).union pair).Represents HasRoomFor := by
  have hread : parse? "011" = .ok (some pair) := by decide +kernel
  have hpair : Made HasRoomFor pair := .parse hread
  have hroom : (zeros 70).HasRoomFor pair := by
    refine .inr fun i hi ↦ ?_
    have : i < 3 := WellFormed.lt_capacity (p := pair) (by decide) hi
    exact Nat.lt_trans this (by decide)
  have hmade : Made HasRoomFor (((zeros 70).absorb pair).union pair) :=
    .union (.absorb (.zeros 70) hpair hroom) hpair
  exact ⟨hmade, represents_of_made hmade⟩

/-- A pattern of one position that has taken in the second of two. -/
def outgrown : Pattern := (zeros 1).absorb ⟨[2#64], 2, 1⟩

/-- A pattern that a narrow one has become by a union in place: its second position is set, listed
and counted, but lies beyond its width, where it is neither tested nor written. -/
theorem made_outgrown : Made (fun _ _ ↦ True) outgrown ∧
    outgrown.bit 1 = true ∧ outgrown.capacity = 1 ∧ outgrown.count = 1 ∧ 1 ∈ outgrown.members ∧
      outgrown.contains 1 = false ∧ outgrown.text = "0" := by
  have hread : parse? "01" = .ok (some ⟨[2#64], 2, 1⟩) := by decide +kernel
  have hbit : outgrown.bit 1 = true := by decide
  exact ⟨.absorb (.zeros 1) (.parse hread) trivial, hbit, rfl, by decide, (mem_members _ _).mpr hbit,
    by decide, by decide⟩

end RayAdjacency.Pattern
