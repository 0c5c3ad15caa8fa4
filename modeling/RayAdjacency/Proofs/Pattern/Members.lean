import RayAdjacency.Proofs.Pattern.Positions

/-!
# Going through the members

A cursor gives the positions of packed words one after the other. What it has still to give is
`Cursor.Has`: the positions of the current word, which lies at `base`, and those of the words after
it. One step gives the least of these and goes on without it, or ends where there is none
(`Cursor.Steps`). So all steps together list the positions in increasing order, each once.
-/

namespace RayAdjacency

namespace Word

private theorem testBit_and_pred {n t : Nat} (ht : n.testBit t = true)
    (hlow : ∀ j, j < t → n.testBit j = false) (j : Nat) :
    (n &&& (n - 1)).testBit j = (n.testBit j && decide (j ≠ t)) := by
  -- The number is `2 ^ t` with some digits above, and the number below it has ones instead.
  have hmod : n % 2 ^ (t + 1) = 2 ^ t := by
    apply Nat.eq_of_testBit_eq
    intro k
    rw [Nat.testBit_mod_two_pow, Nat.testBit_two_pow]
    rcases Nat.lt_trichotomy k t with hk | rfl | hk
    · simp [hlow k hk, Nat.ne_of_gt hk]
    · simp [ht]
    · simp [show ¬k < t + 1 by omega, Nat.ne_of_lt hk]
  have hpos : 0 < 2 ^ t := Nat.two_pow_pos t
  have hpow : 2 ^ (t + 1) = 2 * 2 ^ t := by rw [Nat.pow_succ, Nat.mul_comm]
  have hn : n = 2 ^ (t + 1) * (n / 2 ^ (t + 1)) + 2 ^ t := by
    have := Nat.div_add_mod n (2 ^ (t + 1))
    omega
  have hpred : n - 1 = 2 ^ (t + 1) * (n / 2 ^ (t + 1)) + (2 ^ t - 1) := by omega
  rw [Nat.testBit_and]
  rcases Nat.lt_trichotomy j t with hj | rfl | hj
  · simp [hlow j hj]
  · have hclear : (n - 1).testBit j = false := by
      rw [hpred, Nat.testBit_two_pow_mul_add _ (by omega), if_pos (by omega),
        Nat.testBit_two_pow_sub_one]
      simp
    simp [hclear]
  · have hsame : (n - 1).testBit j = n.testBit j := by
      rw [hpred, Nat.testBit_two_pow_mul_add _ (by omega), if_neg (by omega)]
      conv_rhs => rw [hn]
      rw [Nat.testBit_two_pow_mul_add _ (by omega), if_neg (by omega)]
    simp [hsame, Nat.ne_of_gt hj]

/-- A word without its lowest position. -/
theorem getLsbD_and_sub_one {w : Word} (h : w ≠ 0#64) (j : Nat) :
    (w &&& (w - 1#64)).getLsbD j = (w.getLsbD j && decide (j ≠ w.ctz.toNat)) := by
  rw [← BitVec.testBit_toNat, ← BitVec.testBit_toNat, BitVec.toNat_and,
    toNat_sub_one h]
  apply testBit_and_pred
  · rw [BitVec.testBit_toNat]
    exact BitVec.getLsbD_true_ctz_of_ne_zero h
  · intro j hj
    rw [BitVec.testBit_toNat]
    exact BitVec.getLsbD_false_of_lt_ctz hj

/-- The lowest position of a word lies in it. -/
theorem ctz_lt {w : Word} (h : w ≠ 0#64) : w.ctz.toNat < 64 :=
  BitVec.lt_of_getLsbD (BitVec.getLsbD_true_ctz_of_ne_zero h)

end Word

namespace Cursor

/-- A position that is still to be given. -/
def Has (c : Cursor) (i : Nat) : Prop :=
  c.base ≤ i ∧ Word.member (c.current :: c.rest) (i - c.base) = true

/-- What one step of a cursor comes to: it gives the least position that is still to be given, and
goes on with the others; or there is none. -/
def Steps (c : Cursor) : Option (Nat × Cursor) → Prop
  | none => ∀ i, ¬c.Has i
  | some (i, c') => (∀ j, c.Has j ↔ j = i ∨ c'.Has j) ∧ ∀ j, c'.Has j → i < j

private theorem has_skip {base : Nat} {w : Word} {rest : List Word} (i : Nat) :
    Has ⟨0#64, base, w :: rest⟩ i ↔ Has ⟨w, base + 64, rest⟩ i := by
  unfold Has
  dsimp only
  rw [Word.member_cons]
  by_cases h : i - base < 64
  · rw [if_pos h]
    simp only [BitVec.getLsbD_zero, Bool.false_eq_true, and_false, false_iff, not_and]
    omega
  · rw [if_neg h, Nat.sub_add_eq]
    constructor
    · rintro ⟨-, hi⟩
      exact ⟨by omega, hi⟩
    · rintro ⟨hbase, hi⟩
      exact ⟨by omega, hi⟩

private theorem steps_lowest {current : Word} (hne : current ≠ 0#64) (base : Nat)
    (rest : List Word) : Steps ⟨current, base, rest⟩
      (some (base + current.ctz.toNat, ⟨current &&& (current - 1#64), base, rest⟩)) := by
  have hlt := Word.ctz_lt hne
  have hset := BitVec.getLsbD_true_ctz_of_ne_zero hne
  constructor
  · intro j
    unfold Has
    dsimp only
    rw [Word.member_cons, Word.member_cons]
    by_cases hj : j - base < 64
    · rw [if_pos hj, if_pos hj, Word.getLsbD_and_sub_one hne, Bool.and_eq_true, decide_eq_true_eq]
      constructor
      · rintro ⟨hbase, hj⟩
        by_cases hfirst : j - base = current.ctz.toNat
        · exact .inl (by omega)
        · exact .inr ⟨hbase, hj, hfirst⟩
      · rintro (rfl | ⟨hbase, hj, -⟩)
        · rw [Nat.add_sub_cancel_left]
          exact ⟨Nat.le_add_right _ _, hset⟩
        · exact ⟨hbase, hj⟩
    · rw [if_neg hj, if_neg hj, or_iff_right]
      omega
  · rintro j ⟨hbase, hj⟩
    dsimp only at hbase hj
    rw [Word.member_cons] at hj
    split at hj
    · rw [Word.getLsbD_and_sub_one hne, Bool.and_eq_true, decide_eq_true_eq] at hj
      have hnot : ¬j - base < current.ctz.toNat := fun hlow ↦ by
        rw [BitVec.getLsbD_false_of_lt_ctz hlow] at hj
        cases hj.1
      omega
    · omega

/-- A step gives the least position that is still to be given. -/
theorem steps_next (c : Cursor) : c.Steps c.next? := by
  obtain ⟨current, base, rest⟩ := c
  unfold next?
  dsimp only
  induction rest generalizing current base with
  | nil =>
    unfold seek
    split
    · next h =>
      intro i hi
      rw [h, Has, Word.member_cons] at hi
      simp at hi
    · next h => exact steps_lowest h base []
  | cons w rest ih =>
    unfold seek
    split
    · next h =>
      subst h
      dsimp only
      have hrest := ih w (base + 64)
      -- Skipping an empty word leaves the same positions to be given.
      cases hseek : seek w (base + 64) rest with
      | none =>
        rw [hseek] at hrest
        exact fun i hi ↦ hrest i ((has_skip i).mp hi)
      | some found =>
        rw [hseek] at hrest
        exact ⟨fun j ↦ (has_skip j).trans (hrest.1 j), hrest.2⟩
    · next h => exact steps_lowest h base (w :: rest)

/-- A cursor lists exactly the positions that it has. -/
theorem mem_toList (c : Cursor) (i : Nat) : i ∈ c.toList ↔ c.Has i := by
  induction c using toList.induct with
  | case1 c hnone =>
    have hsteps := c.steps_next
    rw [hnone] at hsteps
    rw [toList_of_next?_eq_none hnone]
    exact iff_of_false List.not_mem_nil (hsteps i)
  | case2 c first c' hsome hlt ih =>
    have hsteps := c.steps_next
    rw [hsome] at hsteps
    rw [toList_of_next?_eq_some hsome, List.mem_cons, ih, hsteps.1 i]

/-- A cursor that gives positions one after the other, up to another one. -/
inductive Yields : Cursor → List Nat → Cursor → Prop
  | nil (c : Cursor) : Yields c [] c
  | cons {c c' c'' : Cursor} {i : Nat} {is : List Nat} (next : c.next? = some (i, c'))
      (rest : Yields c' is c'') : Yields c (i :: is) c''

/-- What a cursor lists is what it gives until there is nothing more. -/
theorem yields_toList (c : Cursor) : ∃ c', c.Yields c.toList c' ∧ c'.next? = none := by
  induction c using toList.induct with
  | case1 c hnone =>
    rw [toList_of_next?_eq_none hnone]
    exact ⟨c, .nil c, hnone⟩
  | case2 c first c' hsome hlt ih =>
    obtain ⟨last, hyields, hend⟩ := ih
    rw [toList_of_next?_eq_some hsome]
    exact ⟨last, .cons hsome hyields, hend⟩

/-- A cursor lists its positions in increasing order. -/
theorem pairwise_toList (c : Cursor) : c.toList.Pairwise (· < ·) := by
  induction c using toList.induct with
  | case1 c hnone =>
    rw [toList_of_next?_eq_none hnone]
    exact .nil
  | case2 c first c' hsome hlt ih =>
    have hsteps := c.steps_next
    rw [hsome] at hsteps
    rw [toList_of_next?_eq_some hsome, List.pairwise_cons]
    exact ⟨fun j hj ↦ hsteps.2 j ((mem_toList c' j).mp hj), ih⟩

end Cursor

namespace Pattern

/-- The members of a pattern are the positions set in its words. -/
theorem mem_members (p : Pattern) (i : Nat) : i ∈ p.members ↔ p.bit i = true := by
  rw [members, Cursor.mem_toList, cursor]
  unfold Cursor.Has
  dsimp only
  rw [Nat.sub_zero]
  change 0 ≤ i ∧ Word.member (p.words.headD 0#64 :: p.words.tail) i = true ↔
    Word.member p.words i = true
  rw [and_iff_right (Nat.zero_le i)]
  cases p.words with
  | nil => simp [Word.member_cons]
  | cons w ws => rfl

/-- The members of a pattern are listed in increasing order. -/
theorem pairwise_members (p : Pattern) : p.members.Pairwise (· < ·) :=
  p.cursor.pairwise_toList

end Pattern
end RayAdjacency
