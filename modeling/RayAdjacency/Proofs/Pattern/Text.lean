import RayAdjacency.Proofs.Pattern.Insertion

/-!
# Written patterns

A pattern is written with a digit for each position. Reading makes a pattern as wide as the text
takes bytes, adds the positions of the ones, and gives up at the first character that is no digit.
As long as only digits have been read, there have been as many bytes as characters, so what has been
read has the width of the text and its members are the places of the ones (`Pattern.Spells`).
Writing and reading therefore undo each other.
-/

namespace RayAdjacency.Pattern

variable {p q : Pattern} {k : Nat} {cs : List Char} {text : String}

/-- A character that patterns are written with. -/
def IsDigit (c : Char) : Prop := c = '0' ∨ c = '1'

/-- Reads characters into a pattern; the first one stands for position `k`. -/
def readFrom (p : Pattern) (k : Nat) (cs : List Char) : Outcome (Except Unit Pattern) :=
  ((cs.zipIdx k).foldlM readDigit p).run

/-- A text is read into the pattern without members that has a position for each of its bytes. -/
theorem parse?_eq (text : String) :
    parse? text = (do
      match ← readFrom (zeros text.utf8ByteSize) 0 text.toList with
      | .ok p => return some p
      | .error () => return none) := rfl

private theorem readFrom_zero (p : Pattern) (k : Nat) (cs : List Char) :
    readFrom p k ('0' :: cs) = readFrom p (k + 1) cs := rfl

private theorem readFrom_one (p : Pattern) (k : Nat) (cs : List Char) :
    readFrom p k ('1' :: cs) = (do readFrom (← p.insert k) (k + 1) cs) := by
  unfold readFrom
  rw [List.zipIdx_cons, List.foldlM_cons, ExceptT.run_bind]
  cases h : p.insert k with
  | error e => simp [readDigit, h, ExceptT.run_lift]
  | ok q => simp [readDigit, h, ExceptT.run_lift]

private theorem readFrom_other {c : Char} (h : ¬IsDigit c) (p : Pattern) (k : Nat)
    (cs : List Char) : readFrom p k (c :: cs) = .ok (.error ()) := by
  have hone : c ≠ '1' := fun he ↦ h (.inr he)
  have hzero : c ≠ '0' := fun he ↦ h (.inl he)
  have hstep : readDigit p (c, k) = throw () := by
    unfold readDigit
    split
    · next he => exact absurd (Prod.mk.inj he).1 hone
    · next he => exact absurd (Prod.mk.inj he).1 hzero
    · rfl
  unfold readFrom
  rw [List.zipIdx_cons, List.foldlM_cons, hstep]
  rfl

/-- A pattern into which digits have been read from position `k` on. -/
structure Spells (p : Pattern) (k : Nat) (cs : List Char) (q : Pattern) : Prop where
  digits : ∀ c ∈ cs, IsDigit c
  wellFormed : q.WellFormed
  capacity_eq : q.capacity = p.capacity
  mem_iff : ∀ i, i ∈ q.positions ↔ i ∈ p.positions ∨ k ≤ i ∧ cs[i - k]? = some '1'

/-- What has been read: a pattern, or a character that is no digit. -/
def Reads (p : Pattern) (k : Nat) (cs : List Char) : Except Unit Pattern → Prop
  | .ok q => p.Spells k cs q
  | .error () => ∃ c ∈ cs, ¬IsDigit c

private theorem Spells.zero (h : p.Spells (k + 1) cs q) : p.Spells k ('0' :: cs) q where
  digits := List.forall_mem_cons.mpr ⟨.inl rfl, h.digits⟩
  wellFormed := h.wellFormed
  capacity_eq := h.capacity_eq
  mem_iff i := by
    rw [h.mem_iff]
    apply or_congr_right
    rcases Nat.lt_trichotomy i k with hi | rfl | hi
    · exact iff_of_false (fun h ↦ by omega) fun h ↦ by omega
    · exact iff_of_false (fun h ↦ by omega) fun h ↦ by simp at h
    · rw [show i - k = i - (k + 1) + 1 by omega, List.getElem?_cons_succ]
      exact and_congr_left fun _ ↦ by omega

private theorem Spells.one {r : Pattern} (hr : p.Gains k r) (h : r.Spells (k + 1) cs q) :
    p.Spells k ('1' :: cs) q where
  digits := List.forall_mem_cons.mpr ⟨.inr rfl, h.digits⟩
  wellFormed := h.wellFormed
  capacity_eq := h.capacity_eq.trans hr.capacity_eq
  mem_iff i := by
    rw [h.mem_iff, hr.positions_eq, Finset.mem_union, Finset.mem_singleton, or_assoc]
    apply or_congr_right
    rcases Nat.lt_trichotomy i k with hi | rfl | hi
    · exact iff_of_false (fun h ↦ by omega) fun h ↦ by omega
    · exact iff_of_true (.inl rfl) ⟨Nat.le_refl i, by simp⟩
    · rw [show i - k = i - (k + 1) + 1 by omega, List.getElem?_cons_succ,
        or_iff_right (Nat.ne_of_gt hi)]
      exact and_congr_left fun _ ↦ by omega

/-- What reading into a well-formed pattern gives. -/
theorem WellFormed.reads {answer : Except Unit Pattern} (hp : p.WellFormed)
    (h : readFrom p k cs = .ok answer) : p.Reads k cs answer := by
  induction cs generalizing p k with
  | nil =>
    cases h
    exact ⟨fun _ hc ↦ absurd hc List.not_mem_nil, hp, rfl, fun i ↦ by simp⟩
  | cons c cs ih =>
    by_cases hc : IsDigit c
    · rcases hc with rfl | rfl
      · rw [readFrom_zero] at h
        have hrest := ih hp h
        cases answer with
        | ok q => exact Spells.zero hrest
        | error => exact hrest.imp fun c hc ↦ ⟨.tail _ hc.1, hc.2⟩
      · rw [readFrom_one] at h
        cases hr : p.insert k with
        | error e =>
          rw [hr] at h
          cases h
        | ok r =>
          rw [hr] at h
          have hrest := ih (hp.of_insert hr) h
          cases answer with
          | ok q => exact Spells.one (hp.sized.gains hr) hrest
          | error => exact hrest.imp fun c hc ↦ ⟨.tail _ hc.1, hc.2⟩
    · rw [readFrom_other hc] at h
      cases h
      exact ⟨c, .head cs, hc⟩

/-- Characters for which there are positions can be read into a well-formed pattern. -/
theorem WellFormed.exists_readFrom (hp : p.WellFormed) (hlength : k + cs.length ≤ p.capacity)
    (hwidth : p.capacity < wordLimit) : ∃ answer, readFrom p k cs = .ok answer := by
  induction cs generalizing p k with
  | nil => exact ⟨_, rfl⟩
  | cons c cs ih =>
    rw [List.length_cons] at hlength
    by_cases hc : IsDigit c
    · rcases hc with rfl | rfl
      · rw [readFrom_zero]
        exact ih hp (by omega) hwidth
      · obtain ⟨r, hr⟩ := hp.exists_insert (show k < p.capacity by omega) hwidth
        have hcapacity := (hp.sized.gains hr).capacity_eq
        rw [readFrom_one, hr, Outcome.ok_bind]
        exact ih (hp.of_insert hr) (by omega) (by omega)
    · rw [readFrom_other hc]
      exact ⟨_, rfl⟩

/-! ### Texts -/

private theorem utf8ByteSize_cons (c : Char) (cs : List Char) :
    (String.ofList (c :: cs)).utf8ByteSize = c.utf8Size + (String.ofList cs).utf8ByteSize := by
  rw [String.ofList_cons, String.utf8ByteSize_append, String.utf8ByteSize_singleton]

private theorem length_le_utf8ByteSize (cs : List Char) :
    cs.length ≤ (String.ofList cs).utf8ByteSize := by
  induction cs with
  | nil => exact Nat.zero_le _
  | cons c cs ih =>
    have := c.utf8Size_pos
    rw [utf8ByteSize_cons, List.length_cons]
    omega

private theorem utf8ByteSize_of_digits (h : ∀ c ∈ cs, IsDigit c) :
    (String.ofList cs).utf8ByteSize = cs.length := by
  induction cs with
  | nil => rfl
  | cons c cs ih =>
    have hsize : c.utf8Size = 1 := by
      rcases h c (.head cs) with rfl | rfl <;> rfl
    rw [utf8ByteSize_cons, List.length_cons, hsize, ih fun d hd ↦ h d (.tail c hd), Nat.add_comm]

/-- The digits of a written pattern. -/
theorem toList_text (p : Pattern) :
    p.text.toList = (List.range p.capacity).map fun i ↦ if p.contains i then '1' else '0' :=
  String.toList_ofList

/-- A pattern is written with digits only. -/
theorem isDigit_of_mem_text {c : Char} (h : c ∈ p.text.toList) : IsDigit c := by
  rw [toList_text] at h
  obtain ⟨i, -, rfl⟩ := List.mem_map.mp h
  by_cases hi : p.contains i = true
  · exact .inr (if_pos hi)
  · exact .inl (if_neg hi)

/-- A pattern is written with a digit for each position. -/
theorem length_toList_text (p : Pattern) : p.text.toList.length = p.capacity := by
  rw [toList_text, List.length_map, List.length_range]

/-- A digit is a one where the position is a member. -/
theorem getElem?_text {i : Nat} (hi : i < p.capacity) :
    p.text.toList[i]? = some (if p.contains i then '1' else '0') := by
  rw [toList_text, List.getElem?_map, List.getElem?_range hi]
  rfl

/-- Digits that have been read are what is written. -/
theorem Spells.toList_text (h : (zeros cs.length).Spells 0 cs q) : q.text.toList = cs := by
  have hlength : q.text.toList.length = cs.length := by
    rw [length_toList_text, h.capacity_eq]
    rfl
  have hone (i : Nat) : q.contains i = true ↔ cs[i]? = some '1' := by
    rw [h.wellFormed.contains_iff, h.mem_iff, positions_zeros, Nat.sub_zero]
    simp
  apply List.ext_getElem?
  intro i
  by_cases hi : i < cs.length
  · have hcapacity : i < q.capacity := by rwa [← length_toList_text, hlength]
    have hget : cs[i]? = some cs[i] := List.getElem?_eq_getElem hi
    rw [getElem?_text hcapacity]
    by_cases hmem : q.contains i = true
    · rw [if_pos hmem, (hone i).mp hmem]
    · rw [if_neg hmem, hget]
      rcases h.digits _ (List.getElem_mem hi) with hc | hc
      · rw [hc]
      · rw [hone, hget, hc] at hmem
        exact absurd rfl hmem
  · rw [List.getElem?_eq_none (by omega), List.getElem?_eq_none (by omega)]

/-- A text of digits is read into a pattern that is written so. -/
theorem text_of_parse? (h : parse? text = .ok (some p)) :
    (∀ c ∈ text.toList, IsDigit c) ∧ p.WellFormed ∧ p.text = text ∧ p.capacity = text.length := by
  rw [parse?_eq] at h
  cases hread : readFrom (zeros text.utf8ByteSize) 0 text.toList with
  | error e =>
    rw [hread] at h
    cases h
  | ok answer =>
    rw [hread] at h
    cases answer with
    | error => cases h
    | ok q =>
      cases h
      have hspells : (zeros text.utf8ByteSize).Spells 0 text.toList p :=
        (wellFormed_zeros _).reads hread
      have hbytes := utf8ByteSize_of_digits hspells.digits
      rw [String.ofList_toList] at hbytes
      rw [hbytes] at hspells
      refine ⟨hspells.digits, hspells.wellFormed, String.toList_inj.mp hspells.toList_text, ?_⟩
      rw [hspells.capacity_eq, ← String.length_toList]
      rfl

/-- A text with a character that is no digit gives no pattern. -/
theorem not_digits_of_parse? (h : parse? text = .ok none) : ¬∀ c ∈ text.toList, IsDigit c := by
  rw [parse?_eq] at h
  cases hread : readFrom (zeros text.utf8ByteSize) 0 text.toList with
  | error e =>
    rw [hread] at h
    cases h
  | ok answer =>
    rw [hread] at h
    cases answer with
    | ok q => cases h
    | error =>
      obtain ⟨c, hc, hother⟩ := (wellFormed_zeros _).reads hread
      exact fun hdigits ↦ hother (hdigits c hc)

/-- Reading a text does not panic. -/
theorem exists_parse? (h : text.utf8ByteSize < wordLimit) :
    ∃ answer, parse? text = .ok answer := by
  have hlength : 0 + text.toList.length ≤ text.utf8ByteSize := by
    have := length_le_utf8ByteSize text.toList
    rwa [String.ofList_toList, ← Nat.zero_add text.toList.length] at this
  obtain ⟨answer, hread⟩ := (wellFormed_zeros text.utf8ByteSize).exists_readFrom hlength h
  rw [parse?_eq, hread]
  cases answer with
  | ok p => exact ⟨some p, rfl⟩
  | error => exact ⟨none, rfl⟩

/-- A text is read exactly where it has only digits. -/
theorem isSome_iff_of_parse? {answer : Option Pattern} (h : parse? text = .ok answer) :
    answer.isSome = true ↔ ∀ c ∈ text.toList, IsDigit c := by
  cases answer with
  | none => exact iff_of_false Bool.false_ne_true (not_digits_of_parse? h)
  | some p => exact iff_of_true rfl (text_of_parse? h).1

/-- Patterns of one width that are written alike have the same members. -/
theorem contains_eq_of_text_eq (h : p.text = q.text) (hcapacity : p.capacity = q.capacity) {i : Nat}
    (hi : i < p.capacity) : p.contains i = q.contains i := by
  have hget : p.text.toList[i]? = q.text.toList[i]? := by rw [h]
  rw [getElem?_text hi, getElem?_text (hcapacity ▸ hi), Option.some.injEq] at hget
  cases hp : p.contains i <;> cases hq : q.contains i <;> simp_all

/-- Reading what is written gives the pattern back. -/
theorem WellFormed.parse?_text (hp : p.WellFormed) (hwidth : p.capacity < wordLimit) :
    parse? p.text = .ok (some p) := by
  have hdigits : ∀ c ∈ p.text.toList, IsDigit c := fun _ ↦ isDigit_of_mem_text
  have hbytes := utf8ByteSize_of_digits hdigits
  rw [String.ofList_toList, length_toList_text] at hbytes
  obtain ⟨answer, hanswer⟩ := exists_parse? (hbytes ▸ hwidth)
  obtain ⟨q, rfl⟩ := Option.isSome_iff_exists.mp ((isSome_iff_of_parse? hanswer).mpr hdigits)
  obtain ⟨-, hq, htext, hcapacity⟩ := text_of_parse? hanswer
  rw [← String.length_toList, length_toList_text] at hcapacity
  rw [hanswer, hq.eq_of_contains hp hcapacity fun i hi ↦ contains_eq_of_text_eq htext hcapacity hi]

/-- Reading a text never panics, gives a pattern exactly where there are only digits, and this
pattern is as wide as the text and written so; what a well-formed pattern is written as gives that
pattern back. Texts take fewer bytes, and patterns have fewer positions, than there are indices. -/
theorem reads_written :
    (∀ text : String, text.utf8ByteSize < wordLimit → ∃ answer, parse? text = .ok answer ∧
      (answer.isSome = true ↔ ∀ c ∈ text.toList, c = '0' ∨ c = '1') ∧
      ∀ p, answer = some p → p.WellFormed ∧ p.text = text ∧ p.capacity = text.length) ∧
    ∀ p : Pattern, p.WellFormed → p.capacity < wordLimit → parse? p.text = .ok (some p) := by
  constructor
  · intro text htext
    obtain ⟨answer, hanswer⟩ := exists_parse? htext
    refine ⟨answer, hanswer, isSome_iff_of_parse? hanswer, ?_⟩
    rintro p rfl
    exact (text_of_parse? hanswer).2
  · intro p hp hwidth
    exact hp.parse?_text hwidth

/-- The first and the last of 65 positions, which two words hold. -/
def outermost : Pattern := ⟨[1#64, 1#64], 65, 2⟩

/-- A text with a character of two bytes is refused, and a pattern of two words is read back. -/
theorem reads_written_outermost :
    ("1é".utf8ByteSize < wordLimit ∧ ∃ answer, parse? "1é" = .ok answer ∧
      (answer.isSome = true ↔ ∀ c ∈ "1é".toList, c = '0' ∨ c = '1') ∧
      ∀ p, answer = some p → p.WellFormed ∧ p.text = "1é" ∧ p.capacity = "1é".length) ∧
    outermost.WellFormed ∧ outermost.capacity < wordLimit ∧
      parse? outermost.text = .ok (some outermost) :=
  have hbytes : "1é".utf8ByteSize < wordLimit := by decide
  have hpattern : outermost.WellFormed := by decide
  have hwidth : outermost.capacity < wordLimit := by decide
  ⟨⟨hbytes, reads_written.1 "1é" hbytes⟩, hpattern, hwidth, reads_written.2 outermost hpattern hwidth⟩

end RayAdjacency.Pattern
