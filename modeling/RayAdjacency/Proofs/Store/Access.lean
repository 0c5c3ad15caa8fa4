import RayAdjacency.Proofs.Store.Partition

/-!
# Access to a store

A call names a range of indices: that of the ray it reads, from the smaller to the larger of the two
it exchanges, or the window it partitions. A store that refuses nothing answers every call whose
indices lie in it. Any other call is told the range and the number of rays, and changes nothing.

The end of the range is an index of its own, one past the last that the call names. The last index
of the index type has none: to name the range of a call with this index, the store adds past the
limit of the type, and the call panics.
-/

namespace RayAdjacency

namespace StoreCall

/-- What a call asks for. -/
def Value : StoreCall → Type
  | read _ => Ray
  | swap _ _ => Unit
  | partition _ _ _ => Nat

/-- What a call does. -/
def run : (c : StoreCall) → StoreM c.Value
  | read i => Store.read i
  | swap a b => Store.swap a b
  | partition start stop bit => Store.partition start stop bit

/-- The first index that a call names. -/
def start : StoreCall → Nat
  | read i => i
  | swap a b => min a b
  | partition start _ _ => start

/-- The index after the last one that a call names. -/
def stop : StoreCall → Nat
  | read i => i + 1
  | swap a b => max a b + 1
  | partition _ stop _ => stop

/-- Whether the indices of a call lie in a store of so many rays. -/
def Fits (size : Nat) : StoreCall → Prop
  | read i => i < size
  | swap a b => a < size ∧ b < size
  | partition start stop _ => start ≤ stop ∧ stop ≤ size

/-- Whether the arguments of a call are values of the index type. -/
def IsOfWords : StoreCall → Prop
  | read i => i < wordLimit
  | swap a b => a < wordLimit ∧ b < wordLimit
  | partition start stop bit => start < wordLimit ∧ stop < wordLimit ∧ bit < wordLimit

instance (size : Nat) : DecidablePred (Fits size)
  | read i => inferInstanceAs (Decidable (i < size))
  | swap a b => inferInstanceAs (Decidable (a < size ∧ b < size))
  | partition start stop _ => inferInstanceAs (Decidable (start ≤ stop ∧ stop ≤ size))

instance : DecidablePred IsOfWords
  | read i => inferInstanceAs (Decidable (i < wordLimit))
  | swap a b => inferInstanceAs (Decidable (a < wordLimit ∧ b < wordLimit))
  | partition start stop bit =>
    inferInstanceAs (Decidable (start < wordLimit ∧ stop < wordLimit ∧ bit < wordLimit))

/-- What a call that is answered gives, and where it leaves the rays. -/
def Effect (s s' : Store) : (c : StoreCall) → c.Value → Prop
  | read i, ray => s.rays[i]? = some ray ∧ s'.rays = s.rays
  | swap a b, () => ∀ i,
    s'.rays[i]? = if b = i then s.rays[a]? else if a = i then s.rays[b]? else s.rays[i]?
  | partition start stop bit, border =>
    Store.Parted bit start stop border s' ∧ Store.Rearranged start stop s s'

/-- The range of a call ends at the limit of the index type at the latest. -/
theorem stop_le_of_isOfWords {c : StoreCall} (h : c.IsOfWords) : c.stop ≤ wordLimit := by
  cases c <;> simp only [IsOfWords, stop] at h ⊢ <;> omega

end StoreCall

namespace Store

variable {s s' : Store}

/-- A store in which no ray has moved, and which refuses what it refused. -/
structure Untouched (s s' : Store) : Prop where
  rays : s'.rays = s.rays
  refusals : s'.refusals = s.refusals

/-- What the calls of a store come to. -/
structure Accessible (s : Store) : Prop where
  /-- A call whose indices lie in the store is answered. -/
  answers : ∀ c : StoreCall, c.Fits s.size →
    ∃ v s', c.run.run.run s = (.ok v, s') ∧ c.Effect s s' v ∧ s'.refusals = s.refusals
  /-- Any other call whose range can be named is told the range and the number of rays. -/
  refuses : ∀ c : StoreCall, c.IsOfWords → ¬c.Fits s.size → c.stop < wordLimit →
    ∃ s', c.run.run.run s = (.error (.failed (.invalidRange c.start c.stop s.size)), s') ∧
      Untouched s s'
  /-- A call of the index type whose range cannot be named reads or exchanges the last index, and
  panics. -/
  panics : ∀ c : StoreCall, c.IsOfWords → ¬c.Fits s.size → wordLimit ≤ c.stop →
    c.stop = wordLimit ∧ (∀ start stop bit, c ≠ .partition start stop bit) ∧
      ∃ s', c.run.run.run s = (.error (.panicked "attempt to add with overflow"), s') ∧
        Untouched s s'

/-- What a call is told that does not fit. -/
structure Complains (c : StoreCall) (size : Nat) (e : Stop) : Prop where
  named : c.stop < wordLimit → e = .failed (.invalidRange c.start c.stop size)
  unnamed : wordLimit ≤ c.stop → e = .panicked "attempt to add with overflow"

private theorem complains_named {c : StoreCall} {size : Nat} (h : c.stop < wordLimit) :
    Complains c size (.failed (.invalidRange c.start c.stop size)) :=
  ⟨fun _ ↦ rfl, fun hle ↦ absurd h (Nat.not_lt.mpr hle)⟩

private theorem complains_unnamed {c : StoreCall} {size : Nat} (h : ¬c.stop < wordLimit) :
    Complains c size (.panicked "attempt to add with overflow") :=
  ⟨fun hlt ↦ absurd hlt h, fun _ ↦ rfl⟩

private theorem ends_read_outside {i : Nat} (hi : ¬i < s.size) :
    Ends (read i) s (fun _ _ ↦ False) fun e s' ↦
      Complains (.read i) s.size e ∧ Untouched s s' := by
  have hnone : s.rays[i]? = none := Array.getElem?_eq_none (Nat.le_of_not_lt hi)
  simp only [read, ends_bind, ends_get, ends_set, answer, hnone, Outcome.add]
  by_cases h : i + 1 < wordLimit
  · rw [if_pos h]
    exact ⟨complains_named h, rfl, rfl⟩
  · rw [if_neg h]
    exact ⟨complains_unnamed h, rfl, rfl⟩

private theorem ends_swap_outside (hs : s.Answers) {a b : Nat} (h : ¬(a < s.size ∧ b < s.size)) :
    Ends (swap a b) s (fun _ _ ↦ False) fun e s' ↦
      Complains (.swap a b) s.size e ∧ Untouched s s' := by
  simp only [swap, ends_bind, ends_get, ends_set, hs.swap]
  split
  · next hin => exact absurd hin h
  · simp only [ends_bind, Outcome.add]
    by_cases hlt : max a b + 1 < wordLimit
    · rw [if_pos hlt]
      exact ⟨complains_named hlt, rfl, rfl⟩
    · rw [if_neg hlt]
      exact ⟨complains_unnamed hlt, rfl, rfl⟩

private theorem ends_partition_outside {start stop bit : Nat}
    (h : ¬(start ≤ stop ∧ stop ≤ s.size)) :
    Ends (partition start stop bit) s (fun _ _ ↦ False) fun e s' ↦
      e = .failed (.invalidRange start stop s.size) ∧ Untouched s s' := by
  simp only [partition, ends_bind, ends_get, ends_set]
  split
  · next hin => exact absurd hin h
  · exact ⟨rfl, rfl, rfl⟩

private theorem ends_swap_inside (hs : s.Answers) {a b : Nat} (ha : a < s.size)
    (hb : b < s.size) :
    Ends (swap a b) s
      (fun v s' ↦ (StoreCall.swap a b).Effect s s' v ∧ s'.refusals = s.refusals)
      fun _ _ ↦ False := by
  simp only [swap, ends_bind, ends_get, ends_set, hs.swap]
  split
  · exact ⟨getElem?_swapIfInBounds ha hb, rfl⟩
  · next hout => exact absurd ⟨ha, hb⟩ hout

private theorem exists_answer (hs : s.Answers) {c : StoreCall} (h : c.Fits s.size) :
    ∃ v s', c.run.run.run s = (.ok v, s') ∧ c.Effect s s' v ∧ s'.refusals = s.refusals := by
  cases c with
  | read i =>
    have hread : Confined (read i) s i (i + 1) _ := confined_read h
    obtain ⟨ray, s', hrun, hrearranged, hrays, hray⟩ := hread.exists_ok hs
    exact ⟨ray, s', hrun, ⟨hray, hrays⟩, hrearranged.refusals⟩
  | swap a b => exact (ends_swap_inside hs h.1 h.2).exists_ok
  | partition start stop bit =>
    obtain ⟨border, s', hrun, hrearranged, hparted⟩ :=
      (confined_partition bit h.1 h.2).exists_ok hs
    exact ⟨border, s', hrun, ⟨hparted, hrearranged⟩, hrearranged.refusals⟩

private theorem exists_complaint (hs : s.Answers) {c : StoreCall} (hwords : c.IsOfWords)
    (h : ¬c.Fits s.size) : ∃ e s', c.run.run.run s = (.error e, s') ∧
      Complains c s.size e ∧ Untouched s s' := by
  cases c with
  | read i => exact (ends_read_outside h).exists_error
  | swap a b => exact (ends_swap_outside hs h).exists_error
  | partition start stop bit =>
    have hends : Ends (partition start stop bit) s _ _ := ends_partition_outside h
    obtain ⟨e, s', hrun, rfl, huntouched⟩ := hends.exists_error
    exact ⟨_, s', hrun, complains_named hwords.2.1, huntouched⟩

/-- A store that refuses nothing can be accessed with all arguments of the index type. -/
theorem accessible_of_answers (hs : s.Answers) : Accessible s where
  answers _ h := exists_answer hs h
  refuses c hwords h hstop := by
    obtain ⟨e, s', hrun, hcomplains, huntouched⟩ := exists_complaint hs hwords h
    rw [hcomplains.named hstop] at hrun
    exact ⟨s', hrun, huntouched⟩
  panics c hwords h hstop := by
    obtain ⟨e, s', hrun, hcomplains, huntouched⟩ := exists_complaint hs hwords h
    rw [hcomplains.unnamed hstop] at hrun
    refine ⟨Nat.le_antisymm (StoreCall.stop_le_of_isOfWords hwords) hstop, ?_, s', hrun,
      huntouched⟩
    rintro start stop bit rfl
    exact absurd hwords.2.1 (Nat.not_lt.mpr hstop)

/-- Two rays, which are exchanged with each other but not with a sixth. -/
theorem accessible_of_answers_pair : ∃ s : Store,
    s = ofRays [.ofPattern 7 (.zeros 1), .ofPattern 8 (.zeros 1)] ∧ s.Answers ∧
    (∃ s', (swap 0 1).run.run s = (.ok (), s') ∧ s'.rays[0]? = s.rays[1]?) ∧
    ∃ s', (swap 5 0).run.run s = (.error (.failed (.invalidRange 0 6 2)), s') ∧
      s'.rays = s.rays := by
  let s := ofRays [.ofPattern 7 (.zeros 1), .ofPattern 8 (.zeros 1)]
  have hs : s.Answers := ⟨fun _ _ _ ↦ rfl, fun _ ↦ rfl⟩
  have hinside : (StoreCall.swap 0 1).Fits s.size := by decide
  have houtside : ¬(StoreCall.swap 5 0).Fits s.size := by decide
  obtain ⟨⟨⟩, s₁, hrun, heffect, -⟩ := (accessible_of_answers hs).answers _ hinside
  obtain ⟨s₂, hrun', huntouched⟩ :=
    (accessible_of_answers hs).refuses _ (by decide) houtside (by decide)
  exact ⟨s, rfl, hs, ⟨s₁, hrun, heffect 0⟩, s₂, hrun', huntouched.rays⟩

/-- A read at the last index of the index type is not told a range. -/
theorem panics_at_last : ¬∀ (s : Store) (c : StoreCall), s.Answers → c.IsOfWords →
    ¬c.Fits s.size → ∃ start stop s',
      c.run.run.run s = (.error (.failed (.invalidRange start stop s.size)), s') := by
  intro h
  let s := ofRays [.ofPattern 0 (.zeros 4)]
  have hs : s.Answers := ⟨fun _ _ _ ↦ rfl, fun _ ↦ rfl⟩
  have hwords : (StoreCall.read 0xffffffffffffffff).IsOfWords := by decide
  obtain ⟨start, stop, s', hrun⟩ := h s (.read 0xffffffffffffffff) hs hwords (by decide)
  have hpanics : ((StoreCall.read 0xffffffffffffffff).run.run.run s).1 =
      .error (.panicked "attempt to add with overflow") := rfl
  rw [hrun] at hpanics
  cases hpanics

end Store
end RayAdjacency
