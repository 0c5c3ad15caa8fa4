import Mathlib.Algebra.BigOperators.Intervals
import RayAdjacency.Pattern

/-!
# Packed words as sets of positions

`Word.member` reads a list of packed words as a set of positions, and `Word.positions` is that set.
Every word-parallel operation is characterised by it: intersections and merges position by
position, `Word.total` and `Word.common` as cardinalities, `Word.below` as inclusion. Positions
beyond the stored words do not belong to the set, so words of different lengths compare as if the
shorter list went on with empty words.
-/

namespace RayAdjacency.Word

/-- Whether a position is set in packed words. -/
def member (ws : List Word) (i : Nat) : Bool := (ws.getD (i / 64) 0#64).getLsbD (i % 64)

/-- No position is set in no words. -/
@[simp] theorem member_nil (i : Nat) : member [] i = false := by simp [member]

/-- The first word holds the first 64 positions. -/
theorem member_cons (w : Word) (ws : List Word) (i : Nat) :
    member (w :: ws) i = if i < 64 then w.getLsbD i else member ws (i - 64) := by
  by_cases h : i < 64
  · have h0 : i / 64 = 0 := by omega
    have h1 : i % 64 = i := by omega
    simp [member, h, h0, h1]
  · have h0 : i / 64 = (i - 64) / 64 + 1 := by omega
    have h1 : i % 64 = (i - 64) % 64 := by omega
    simp [member, h, h0, h1]

/-- A set position lies in a stored word. -/
theorem lt_of_member {ws : List Word} {i : Nat} (h : member ws i = true) : i < 64 * ws.length := by
  induction ws generalizing i with
  | nil => simp at h
  | cons w ws ih =>
    rw [member_cons] at h
    rw [List.length_cons]
    split at h
    · omega
    · have := ih h
      omega

/-- The positions that are set in packed words. -/
def positions (ws : List Word) : Finset Nat := (Finset.range (64 * ws.length)).filter (member ws ·)

/-- Membership in the set of positions is the bit test. -/
@[simp] theorem mem_positions {ws : List Word} {i : Nat} : i ∈ positions ws ↔ member ws i = true := by
  simp only [positions, Finset.mem_filter, Finset.mem_range, and_iff_right_iff_imp]
  exact lt_of_member

/-! ### Counting -/

private theorem onesFrom_eq_sum (fuel n : Nat) :
    onesFrom fuel n = ∑ i ∈ Finset.range fuel, (n.testBit i).toNat := by
  induction fuel generalizing n with
  | zero => rfl
  | succ fuel ih =>
    rw [Finset.sum_range_succ', Nat.testBit_zero]
    unfold onesFrom
    split
    · next h => simp [h]
    · rw [ih, Nat.add_comm]
      congr 1
      · exact Finset.sum_congr rfl fun i _ ↦ by rw [Nat.testBit_succ]
      · rcases Nat.mod_two_eq_zero_or_one n with h | h <;> simp [h]

/-- The ones of a word are counted position by position. -/
theorem ones_eq_sum (w : Word) : ones w = ∑ i ∈ Finset.range 64, (w.getLsbD i).toNat := by
  rw [ones, onesFrom_eq_sum]
  exact Finset.sum_congr rfl fun i _ ↦ by rw [BitVec.testBit_toNat]

/-- An empty word has no ones. -/
@[simp] theorem ones_zero : ones 0#64 = 0 := by simp [ones_eq_sum]

private theorem total_eq_sum (ws : List Word) :
    total ws = ∑ i ∈ Finset.range (64 * ws.length), (member ws i).toNat := by
  induction ws with
  | nil => rfl
  | cons w ws ih =>
    have hlen : 64 * (w :: ws).length = 64 + 64 * ws.length := by rw [List.length_cons]; omega
    rw [hlen, Finset.sum_range_add, total, ones_eq_sum, ih]
    refine congrArg₂ (· + ·) (Finset.sum_congr rfl fun i hi ↦ ?_)
      (Finset.sum_congr rfl fun i _ ↦ ?_)
    · rw [member_cons, if_pos (Finset.mem_range.mp hi)]
    · rw [member_cons, if_neg (by omega), Nat.add_sub_cancel_left]

/-- The total of packed words is the number of positions set in them. -/
theorem total_eq_card (ws : List Word) : total ws = (positions ws).card := by
  rw [total_eq_sum, positions, Finset.card_filter]
  exact Finset.sum_congr rfl fun i _ ↦ by cases member ws i <;> rfl

/-! ### Operations -/

/-- An intersection has as many words as its left operand. -/
@[simp] theorem length_inter (as bs : List Word) : (inter as bs).length = as.length := by
  fun_induction inter as bs <;> simp_all

/-- A merge has as many words as the longer operand. -/
@[simp] theorem length_merge (f : Word → Word → Word) (as bs : List Word) :
    (merge f as bs).length = max as.length bs.length := by
  fun_induction merge f as bs <;> simp_all

/-- A position belongs to an intersection if it belongs to both operands. -/
@[simp] theorem member_inter (as bs : List Word) (i : Nat) :
    member (inter as bs) i = (member as i && member bs i) := by
  induction as generalizing bs i with
  | nil => simp [inter]
  | cons a as ih =>
    cases bs with
    | nil => by_cases h : i < 64 <;> simp [inter, member_cons, ih, h]
    | cons b bs => by_cases h : i < 64 <;> simp [inter, member_cons, ih, h]

/-- A merge by an operation that acts on each position, and leaves a position alone where the other
operand does not have it, acts on each position of the sets. -/
theorem member_merge {f : Word → Word → Word} {g : Bool → Bool → Bool}
    (hf : ∀ a b i, (f a b).getLsbD i = g (a.getLsbD i) (b.getLsbD i))
    (hleft : ∀ a, g a false = a) (hright : ∀ b, g false b = b) (as bs : List Word) (i : Nat) :
    member (merge f as bs) i = g (member as i) (member bs i) := by
  induction as generalizing bs i with
  | nil => cases bs <;> simp [merge, hright]
  | cons a as ih =>
    cases bs with
    | nil => simp [merge, hleft]
    | cons b bs =>
      simp only [merge, member_cons]
      split
      · exact hf a b i
      · exact ih bs (i - 64)

/-- A position belongs to a union if it belongs to one of the operands. -/
@[simp] theorem member_merge_or (as bs : List Word) (i : Nat) :
    member (merge (· ||| ·) as bs) i = (member as i || member bs i) :=
  member_merge (fun _ _ _ ↦ BitVec.getLsbD_or) Bool.or_false Bool.false_or as bs i

/-- A position belongs to a symmetric difference if it belongs to exactly one of the operands. -/
@[simp] theorem member_merge_xor (as bs : List Word) (i : Nat) :
    member (merge (· ^^^ ·) as bs) i = (member as i ^^ member bs i) :=
  member_merge (fun _ _ _ ↦ BitVec.getLsbD_xor) Bool.xor_false Bool.false_xor as bs i

/-- The common positions are those of the intersection. -/
theorem common_eq_total_inter (as bs : List Word) : common as bs = total (inter as bs) := by
  induction as generalizing bs with
  | nil => cases bs <;> rfl
  | cons a as ih =>
    cases bs with
    | nil =>
      have h : common as [] = 0 := by cases as <;> rfl
      simp [common, inter, total, ← ih, h]
    | cons b bs => simp [common, inter, total, ih]

private theorem and_not_eq_zero_iff (a b : Word) :
    a &&& ~~~b = 0#64 ↔ ∀ i, i < 64 → a.getLsbD i = true → b.getLsbD i = true := by
  constructor
  · intro h i hi ha
    have hz := congrArg (·.getLsbD i) h
    simpa [hi, ha] using hz
  · intro h
    apply BitVec.eq_of_getLsbD_eq
    intro i hi
    have hb := h i hi
    cases ha : a.getLsbD i <;> simp_all

private theorem forall_member_cons {w : Word} {ws : List Word} {P : Nat → Prop} :
    (∀ i, member (w :: ws) i = true → P i) ↔
      (∀ i, i < 64 → w.getLsbD i = true → P i) ∧ ∀ i, member ws i = true → P (i + 64) := by
  constructor
  · intro h
    refine ⟨fun i hi hw ↦ h i ?_, fun i hw ↦ h (i + 64) ?_⟩
    · rw [member_cons, if_pos hi]
      exact hw
    · rw [member_cons, if_neg (by omega), Nat.add_sub_cancel]
      exact hw
  · rintro ⟨hlow, hhigh⟩ i hi
    rw [member_cons] at hi
    split at hi
    · next h => exact hlow i h hi
    · next h =>
      have := hhigh (i - 64) hi
      rwa [Nat.sub_add_cancel (by omega)] at this

private theorem all_zero_iff (ws : List Word) :
    ws.all (· == 0#64) = true ↔ ∀ i, member ws i = false := by
  induction ws with
  | nil => simp
  | cons w ws ih =>
    have hw : w = 0#64 ↔ ∀ i, i < 64 → w.getLsbD i = true → False := by
      have h := and_not_eq_zero_iff w 0#64
      have hones : w &&& ~~~(0#64) = w := BitVec.and_allOnes
      rw [hones] at h
      simpa using h
    have hcons := @forall_member_cons w ws (fun _ ↦ False)
    simp only [imp_false, Bool.not_eq_true] at hcons hw
    rw [List.all_cons, Bool.and_eq_true, beq_iff_eq, ih, hw, hcons]

/-- One packed set lies below another if each of its positions belongs to the other. -/
theorem below_iff (as bs : List Word) :
    below as bs = true ↔ ∀ i, member as i = true → member bs i = true := by
  induction as generalizing bs with
  | nil => cases bs <;> simp [below]
  | cons a as ih =>
    cases bs with
    | nil =>
      rw [below, all_zero_iff]
      simp
    | cons b bs =>
      rw [below, Bool.and_eq_true, beq_iff_eq, ih, and_not_eq_zero_iff, forall_member_cons]
      refine and_congr ?_ ?_
      · exact forall_congr' fun i ↦ imp_congr_right fun hi ↦ by rw [member_cons, if_pos hi]
      · refine forall_congr' fun i ↦ ?_
        rw [member_cons, if_neg (by omega), Nat.add_sub_cancel]

end RayAdjacency.Word
