import RayAdjacency.Outcome

/-!
# Zero patterns

A `Pattern` is the zero set of a ray: position `i` belongs to it where coordinate `i` of the ray is
zero. Positions are packed into 64-bit words, and the number of members is kept beside them so that
the leaf test never counts a pattern it already owns.

The raw operations are total on every record. `Pattern.bit` is the view of the stored words,
`Pattern.contains` the view bounded by the width, and `Pattern.WellFormed` says when the three
fields describe one set. The width of a result is decided by each operation in its own way:
an intersection keeps the width of its left operand, a union takes the wider one, and a union in
place adopts the other width only together with additional words.

Models `BitSet` and `BitSetIter`: `ofPositions`, `parse?`, `insert`, `inter`, `union`, `absorb`,
`distance` and `Cursor.next?` are `from_iter`, `from_bit_str`, `set`, `and`, `or`, `union_with`,
`xor_count` and `next`.
-/

namespace RayAdjacency

/-- A word of packed positions. -/
abbrev Word := BitVec 64

namespace Word

/-- Number of ones among the `fuel` lowest binary digits of a number. -/
def onesFrom : Nat → Nat → Nat
  | 0, _ => 0
  | fuel + 1, n => if n = 0 then 0 else n % 2 + onesFrom fuel (n / 2)

/-- Number of positions set in a word. -/
def ones (w : Word) : Nat := onesFrom 64 w.toNat

/-- The word with only position `i % 64` set. -/
def single (i : Nat) : Word := 1#64 <<< (i % 64)

/-- Intersection of packed sets; the left operand keeps its length. -/
def inter : List Word → List Word → List Word
  | a :: as, b :: bs => (a &&& b) :: inter as bs
  | a :: as, [] => (a &&& 0#64) :: inter as []
  | [], _ => []

/-- Combines packed sets word by word; the rest of the longer one is kept. -/
def merge (f : Word → Word → Word) : List Word → List Word → List Word
  | a :: as, b :: bs => f a b :: merge f as bs
  | as, [] => as
  | [], bs => bs

/-- Number of positions set in a packed set. -/
def total : List Word → Nat
  | [] => 0
  | w :: ws => ones w + total ws

/-- Number of positions set in both packed sets. -/
def common : List Word → List Word → Nat
  | a :: as, b :: bs => ones (a &&& b) + common as bs
  | _, _ => 0

/-- Whether every position of the first packed set belongs to the second one. -/
def below : List Word → List Word → Bool
  | a :: as, b :: bs => a &&& ~~~b == 0#64 && below as bs
  | as, [] => as.all (· == 0#64)
  | [], _ => true

/-- The number below that of a word with a position. -/
theorem toNat_sub_one {w : Word} (h : w ≠ 0#64) : (w - 1#64).toNat = w.toNat - 1 := by
  have hpos : w.toNat ≠ 0 := fun h0 ↦ h (BitVec.eq_of_toNat_eq h0)
  rw [BitVec.toNat_sub_of_le]
  · rfl
  · rw [BitVec.le_def]
    exact Nat.pos_of_ne_zero hpos

end Word

/-- How far the positions of a packed set have been gone through: those of the current word that
have not been given yet, the first position of this word, and the words after it. -/
structure Cursor where
  current : Word
  base : Nat
  rest : List Word

namespace Cursor

/-- Gives the lowest position of a word that begins at `base` and goes on without it. Words without
a position are skipped. -/
def seek (current : Word) (base : Nat) (rest : List Word) : Option (Nat × Cursor) :=
  if current = 0#64 then
    match rest with
    | [] => none
    | w :: rest => seek w (base + 64) rest
  else some (base + current.ctz.toNat, ⟨current &&& (current - 1#64), base, rest⟩)

/-- The next position, and where to go on from. -/
def next? (c : Cursor) : Option (Nat × Cursor) := seek c.current c.base c.rest

/-- What is left of a word is smaller than the word. -/
theorem toNat_and_sub_one_lt {w : Word} (h : w ≠ 0#64) : (w &&& (w - 1#64)).toNat < w.toNat := by
  have hpos : w.toNat ≠ 0 := fun h0 ↦ h (BitVec.eq_of_toNat_eq h0)
  have hle : (w &&& (w - 1#64)).toNat ≤ w.toNat - 1 := by
    rw [BitVec.toNat_and, Word.toNat_sub_one h]
    exact Nat.and_le_right
  omega

/-- Going on leaves fewer words, or as many with a smaller current one. -/
theorem lt_of_seek {current : Word} {base : Nat} {rest : List Word} {i : Nat} {c : Cursor}
    (h : seek current base rest = some (i, c)) :
    c.rest.length < rest.length ∨
      c.rest.length = rest.length ∧ c.current.toNat < current.toNat := by
  induction rest generalizing current base with
  | nil =>
    unfold seek at h
    split at h
    · cases h
    · next hne =>
      cases h
      exact .inr ⟨rfl, toNat_and_sub_one_lt hne⟩
  | cons w rest ih =>
    unfold seek at h
    split at h
    · have := ih h
      rw [List.length_cons]
      omega
    · next hne =>
      cases h
      exact .inr ⟨rfl, toNat_and_sub_one_lt hne⟩

/-- All positions from a cursor on. -/
def toList (c : Cursor) : List Nat :=
  match h : c.next? with
  | none => []
  | some (i, c') =>
    have := lt_of_seek h
    i :: toList c'
termination_by (c.rest.length, c.current.toNat)
decreasing_by
  rw [Prod.lex_def]
  exact this

/-- Nothing is listed where there is no next position. -/
theorem toList_of_next?_eq_none {c : Cursor} (h : c.next? = none) : c.toList = [] := by
  rw [toList]
  split
  · rfl
  · next hsome => cases h.symm.trans hsome

/-- The next position is listed before those after it. -/
theorem toList_of_next?_eq_some {c c' : Cursor} {i : Nat} (h : c.next? = some (i, c')) :
    c.toList = i :: c'.toList := by
  rw [toList]
  split
  · next hnone => cases h.symm.trans hnone
  · next hsome =>
    cases h.symm.trans hsome
    rfl

end Cursor

/-- A set of positions below `capacity`, with its cardinality. -/
structure Pattern where
  words : List Word
  capacity : Nat
  count : Nat
deriving Repr, DecidableEq, Inhabited

namespace Pattern

/-- Number of words that hold `capacity` positions. -/
def wordCount (capacity : Nat) : Nat := (capacity + 63) / 64

/-- Whether position `i` is set in the stored words. -/
def bit (p : Pattern) (i : Nat) : Bool := (p.words.getD (i / 64) 0#64).getLsbD (i % 64)

/-- The fields of a pattern describe one set of positions below its width. -/
structure WellFormed (p : Pattern) : Prop where
  length_words : p.words.length = wordCount p.capacity
  count_eq : p.count = Word.total p.words
  lt_of_bit : ∀ i, p.bit i = true → i < p.capacity

/-- The empty set of the given width. -/
def zeros (capacity : Nat) : Pattern := ⟨List.replicate (wordCount capacity) 0#64, capacity, 0⟩

/-- The set of the positions in `words`, counted anew. -/
def ofWords (words : List Word) (capacity : Nat) : Pattern := ⟨words, capacity, Word.total words⟩

/-- Adds a position, which has to lie below the width. A position whose word is not stored leaves
the set as it is. -/
def insert (p : Pattern) (i : Nat) : Outcome Pattern :=
  if i < p.capacity then
    match p.words[i / 64]? with
    | none => .ok p
    | some w =>
      if w &&& Word.single i = 0#64 then do
        let count ← Outcome.add p.count 1
        return { p with words := p.words.set (i / 64) (w ||| Word.single i), count }
      else .ok p
  else Outcome.panic s!"position {i} is outside a pattern of width {p.capacity}"

/-- The set of the given positions, which have to lie below the width. -/
def ofPositions (capacity : Nat) (positions : List Nat) : Outcome Pattern :=
  positions.foldlM insert (zeros capacity)

/-- One step of reading a pattern: the digit of position `i`. -/
def readDigit (p : Pattern) : Char × Nat → ExceptT Unit Outcome Pattern
  | ('1', i) => ExceptT.lift (p.insert i)
  | ('0', _) => pure p
  | _ => throw ()

/-- Reads a pattern written with the digits 0 and 1, position 0 first. Any other character is
refused. -/
def parse? (text : String) : Outcome (Option Pattern) := do
  match ← (text.toList.zipIdx.foldlM readDigit (zeros text.utf8ByteSize)).run with
  | .ok p => return some p
  | .error () => return none

/-- Whether the set has no member. -/
def isEmpty (p : Pattern) : Bool := p.count == 0

/-- Whether position `i` lies below the width and belongs to the set. -/
def contains (p : Pattern) (i : Nat) : Bool := decide (i < p.capacity) && p.bit i

/-- Intersection; the result is as wide as the left operand. -/
def inter (p q : Pattern) : Pattern := ofWords (Word.inter p.words q.words) p.capacity

/-- Union; the result is as wide as the wider operand. -/
def union (p q : Pattern) : Pattern :=
  ofWords (Word.merge (· ||| ·) p.words q.words) (max p.capacity q.capacity)

/-- Union that extends `p`; the width of `q` is adopted only where `q` stores more words. -/
def absorb (p q : Pattern) : Pattern :=
  ofWords (Word.merge (· ||| ·) p.words q.words)
    (if p.words.length < q.words.length then q.capacity else p.capacity)

/-- Cardinality of the intersection. -/
def interCount (p q : Pattern) : Nat := Word.common p.words q.words

/-- Cardinality of the symmetric difference. -/
def distance (p q : Pattern) : Nat := Word.total (Word.merge (· ^^^ ·) p.words q.words)

/-- Whether every member of `p` is a member of `q`. -/
def isSubset (p q : Pattern) : Bool := decide (p.count ≤ q.count) && Word.below p.words q.words

/-- Whether `p` is a subset of `q` with fewer members. -/
def isStrictSubset (p q : Pattern) : Bool := decide (p.count < q.count) && p.isSubset q

/-- The start of the stored words. -/
def cursor (p : Pattern) : Cursor := ⟨p.words.headD 0#64, 0, p.words.tail⟩

/-- The members, as going through the stored words gives them. -/
def members (p : Pattern) : List Nat := p.cursor.toList

/-- The pattern written with the digits 0 and 1, position 0 first. -/
def text (p : Pattern) : String :=
  String.ofList ((List.range p.capacity).map fun i ↦ if p.contains i then '1' else '0')

/-- The form of a pattern in diagnostic output. -/
def describe (p : Pattern) : String := s!"BitSet({p.text}, count={p.count})"

/-- A new pattern holds as many words as its width asks for. -/
theorem length_words_zeros (capacity : Nat) :
    (zeros capacity).words.length = wordCount capacity := by
  simp [zeros]

/-- A new pattern has no member. -/
theorem bit_zeros (capacity i : Nat) : (zeros capacity).bit i = false := by
  simp only [bit, zeros, List.getD_eq_getElem?_getD, List.getElem?_replicate]
  split <;> simp

end Pattern
end RayAdjacency
