import Mathlib.Algebra.Group.Nat.Defs
import RayAdjacency.Bench.Latency

/-!
# What a latency keeps

The slots divide the values: a value that a slot holds has this slot for its own, and a larger value
has no lower one. So the histogram of a `Latency` is the sorted list of the values it has kept, with
each value replaced by its slot, and its percentiles are ranks in this list, known to three digits
(`Latency.keeps_of_sum_lt`).

Not all runs are kept. A run of `Latency.limit` nanoseconds or more, about 18 minutes, has no slot;
it counts as a run and adds to the total, and is missing from the histogram. A run of `2 ^ 64`
nanoseconds or more is taken for a shorter one.
-/

namespace RayAdjacency

namespace Slot

/-- Whether the values of a slot agree to three digits: they differ by at most a thousandth. -/
def IsFine (s : Slot) : Prop := 1000 * (s.high - s.low) ≤ s.low

variable {v w : Nat}

private theorem low_ofValue (v : Nat) :
    (ofValue v).low = v / 2 ^ (ofValue v).scale * 2 ^ (ofValue v).scale := by
  rw [← Nat.shiftRight_eq_div_pow, ← Nat.shiftLeft_eq]
  rfl

private theorem high_ofValue (v : Nat) :
    (ofValue v).high = (ofValue v).low + 2 ^ (ofValue v).scale - 1 := by
  rw [high, Nat.one_shiftLeft]

private theorem scale_ofValue {n : Nat} (hlow : 2 ^ n ≤ v) (hhigh : v < 2 ^ (n + 1)) :
    (ofValue v).scale = n + 1 - precision := by
  have hv : v ≠ 0 := by
    have := Nat.two_pow_pos n
    omega
  have hlog : Nat.log2 v = n := (Nat.log2_eq_iff hv).mpr ⟨hlow, hhigh⟩
  show (if v = 0 then 0 else Nat.log2 v + 1) - precision = _
  rw [if_neg hv, hlog]

private theorem digits_of_holds {n : Nat} (hlow : 2 ^ n ≤ v) (hhigh : v < 2 ^ (n + 1))
    (h : (ofValue v).Holds w) : 2 ^ n ≤ w ∧ w < 2 ^ (n + 1) := by
  obtain ⟨hw, hw'⟩ := h
  rw [high_ofValue] at hw'
  rw [low_ofValue] at hw hw'
  have hscale := scale_ofValue hlow hhigh
  generalize (ofValue v).scale = k at *
  have hk : k ≤ n := by
    rw [hscale, precision]
    omega
  have hsplit : 2 ^ n = 2 ^ (n - k) * 2 ^ k := by
    rw [← Nat.pow_add, Nat.sub_add_cancel hk]
  have hsplit' : 2 ^ (n + 1) = 2 ^ (n + 1 - k) * 2 ^ k := by
    rw [← Nat.pow_add, Nat.sub_add_cancel (by omega)]
  have hpos := Nat.two_pow_pos k
  have hle : 2 ^ (n - k) ≤ v / 2 ^ k := by
    rw [Nat.le_div_iff_mul_le hpos, ← hsplit]
    exact hlow
  have hlt : v / 2 ^ k + 1 ≤ 2 ^ (n + 1 - k) := by
    rw [Nat.succ_le_iff, Nat.div_lt_iff_lt_mul hpos, ← hsplit']
    exact hhigh
  have hle' := Nat.mul_le_mul_right (2 ^ k) hle
  have hlt' := Nat.mul_le_mul_right (2 ^ k) hlt
  rw [Nat.add_mul, Nat.one_mul] at hlt'
  omega

/-- A value has the slot that holds it. -/
theorem ofValue_eq_of_holds (h : (ofValue v).Holds w) : ofValue w = ofValue v := by
  by_cases hv : v = 0
  · rw [hv] at h ⊢
    obtain rfl : w = 0 := Nat.le_zero.mp h.2
    rfl
  · obtain ⟨hlow, hhigh⟩ := digits_of_holds (Nat.log2_self_le hv) Nat.lt_log2_self h
    have hscale : (ofValue w).scale = (ofValue v).scale := by
      rw [scale_ofValue hlow hhigh, scale_ofValue (Nat.log2_self_le hv) Nat.lt_log2_self]
    have hquotient : w / 2 ^ (ofValue v).scale = v / 2 ^ (ofValue v).scale := by
      obtain ⟨hw, hw'⟩ := h
      rw [high_ofValue] at hw'
      rw [low_ofValue] at hw hw'
      have hpos := Nat.two_pow_pos (ofValue v).scale
      apply Nat.div_eq_of_lt_le hw
      rw [Nat.succ_mul]
      omega
    have heq : (ofValue w).low = (ofValue v).low := by
      rw [low_ofValue, low_ofValue, hscale, hquotient]
    show ofValue w = ⟨(ofValue v).low, (ofValue v).scale⟩
    rw [← heq, ← hscale]

private theorem holds_low (v : Nat) : (ofValue v).Holds (ofValue v).low := by
  have hpos := Nat.two_pow_pos (ofValue v).scale
  refine ⟨Nat.le_refl _, ?_⟩
  rw [high_ofValue]
  omega

/-- Slots are told apart by where they begin. -/
theorem ofValue_inj_low (h : (ofValue v).low = (ofValue w).low) : ofValue v = ofValue w := by
  rw [← ofValue_eq_of_holds (holds_low v), h, ofValue_eq_of_holds (holds_low w)]

/-- A larger value has no lower slot. -/
theorem low_mono (h : v ≤ w) : (ofValue v).low ≤ (ofValue w).low := by
  apply Nat.le_of_not_lt
  intro hlt
  have hv := (holds_ofValue v).1
  have hw := (holds_ofValue w).2
  -- The slot of the larger value would hold where that of the smaller one begins.
  have hholds : (ofValue w).Holds (ofValue v).low := ⟨by omega, by omega⟩
  have heq := ofValue_eq_of_holds hholds
  rw [ofValue_eq_of_holds (holds_low v)] at heq
  rw [heq] at hlt
  exact Nat.lt_irrefl _ hlt

/-- The values of a slot agree to three digits. -/
theorem isFine_ofValue (v : Nat) : (ofValue v).IsFine := by
  rw [IsFine, high_ofValue]
  by_cases hv : v = 0
  · rw [hv]
    decide
  · obtain ⟨hlow, -⟩ := digits_of_holds (Nat.log2_self_le hv) Nat.lt_log2_self (holds_low v)
    have hscale := scale_ofValue (Nat.log2_self_le hv) Nat.lt_log2_self
    rw [precision] at hscale
    by_cases hshort : Nat.log2 v ≤ 10
    · have hzero : (ofValue v).scale = 0 := by omega
      rw [hzero]
      omega
    · have hsum : Nat.log2 v = 10 + (ofValue v).scale := by omega
      rw [hsum, Nat.pow_add] at hlow
      omega

end Slot

/-- Spans that fit together are added to the nanosecond. -/
theorem Duration.exists_add {a b : Duration}
    (h : a.toNanos + b.toNanos < wordLimit * nanosPerSecond) :
    ∃ c, a.add b = .ok c ∧ c.toNanos = a.toNanos + b.toNanos := by
  unfold toNanos nanosPerSecond wordLimit at h
  have hwhole : a.secs + b.secs + (a.nanos + b.nanos) / nanosPerSecond < wordLimit := by
    unfold nanosPerSecond wordLimit
    omega
  let c : Duration :=
    ⟨a.secs + b.secs + (a.nanos + b.nanos) / nanosPerSecond, (a.nanos + b.nanos) % nanosPerSecond⟩
  have hadd : a.add b = .ok c := by
    rw [add, ofParts?, if_pos hwhole]
  have hnanos : c.toNanos = a.toNanos + b.toNanos := by
    simp only [toNanos, nanosPerSecond, c]
    omega
  exact ⟨c, hadd, hnanos⟩

namespace Latency

variable {l : Latency} {slots : List (Slot × Nat)} {ds done : List Duration} {d : Duration}

/-! ### The histogram as a list -/

/-- The slots of the values that a histogram holds, one for each value. -/
def expand : List (Slot × Nat) → List Slot
  | [] => []
  | (s, n) :: rest => List.replicate n s ++ expand rest

/-- The histogram of a list of values. -/
def histogram (values : List Nat) : List (Slot × Nat) :=
  (values.map Slot.ofValue).foldr insert []

/-- Slots of values, by increasing values, each once and with at least one value. -/
structure Tidy (slots : List (Slot × Nat)) : Prop where
  increasing : slots.Pairwise fun a b ↦ a.1.low < b.1.low
  ofValues : ∀ a ∈ slots, 0 < a.2 ∧ ∃ v, a.1 = Slot.ofValue v

private theorem Tidy.tail {a : Slot × Nat} (h : Tidy (a :: slots)) : Tidy slots :=
  ⟨(List.pairwise_cons.mp h.increasing).2, fun b hb ↦ h.ofValues b (.tail _ hb)⟩

private theorem length_expand (slots : List (Slot × Nat)) :
    (expand slots).length = slots.foldr (fun (_, n) total ↦ n + total) 0 := by
  induction slots with
  | nil => rfl
  | cons a rest ih => rw [expand, List.length_append, List.length_replicate, ih, List.foldr_cons]

/-- The slot at a rank is the one in this place of the list. -/
theorem slotAt_succ (k : Nat) (slots : List (Slot × Nat)) :
    slotAt (k + 1) slots = (expand slots)[k]? := by
  induction slots generalizing k with
  | nil => rfl
  | cons a rest ih =>
    obtain ⟨s, n⟩ := a
    rw [slotAt, expand]
    by_cases hk : k + 1 ≤ n
    · have hlt : k < (List.replicate n s).length := by
        rw [List.length_replicate]
        omega
      rw [if_pos hk, List.getElem?_append_left hlt, List.getElem?_replicate_of_lt hk]
    · have hrest : k + 1 - n = k - n + 1 := by omega
      rw [if_neg hk, hrest, ih, List.getElem?_append_right (by simp; omega),
        List.length_replicate]

private theorem eq_or_mem_of_mem_insert {slot : Slot} {a : Slot × Nat}
    (h : a ∈ insert slot slots) : (0 < a.2 ∧ a.1 = slot) ∨ ∃ b ∈ slots, b.2 ≤ a.2 ∧ b.1 = a.1 := by
  induction slots with
  | nil =>
    obtain rfl := List.mem_singleton.mp h
    exact .inl ⟨Nat.one_pos, rfl⟩
  | cons b rest ih =>
    obtain ⟨s, n⟩ := b
    rw [insert] at h
    split at h
    · rcases List.mem_cons.mp h with rfl | h
      · exact .inr ⟨_, .head _, Nat.le_succ n, rfl⟩
      · exact .inr ⟨a, .tail _ h, Nat.le_refl _, rfl⟩
    · split at h
      · rcases List.mem_cons.mp h with rfl | h
        · exact .inl ⟨Nat.one_pos, rfl⟩
        · exact .inr ⟨a, h, Nat.le_refl _, rfl⟩
      · rcases List.mem_cons.mp h with rfl | h
        · exact .inr ⟨_, .head _, Nat.le_refl _, rfl⟩
        · rcases ih h with h | ⟨b, hb, h⟩
          · exact .inl h
          · exact .inr ⟨b, .tail _ hb, h⟩

private theorem increasing_insert {slot : Slot}
    (h : slots.Pairwise fun a b ↦ a.1.low < b.1.low) :
    (insert slot slots).Pairwise fun a b ↦ a.1.low < b.1.low := by
  induction slots with
  | nil => exact List.pairwise_singleton _ _
  | cons b rest ih =>
    obtain ⟨s, n⟩ := b
    obtain ⟨hs, hrest⟩ := List.pairwise_cons.mp h
    rw [insert]
    split
    · exact List.pairwise_cons.mpr ⟨hs, hrest⟩
    · split
      · next hlt =>
        apply List.pairwise_cons.mpr
        refine ⟨fun b hb ↦ ?_, h⟩
        rcases List.mem_cons.mp hb with rfl | hb
        · exact hlt
        · exact Nat.lt_trans hlt (hs b hb)
      · next hne hlt =>
        apply List.pairwise_cons.mpr
        refine ⟨fun b hb ↦ ?_, ih hrest⟩
        rcases eq_or_mem_of_mem_insert hb with ⟨-, hb⟩ | ⟨c, hc, -, hb⟩
        · show s.low < b.1.low
          rw [hb]
          omega
        · rw [← hb]
          exact hs c hc

/-- Counting a value keeps a histogram tidy. -/
theorem Tidy.insert (h : Tidy slots) (v : Nat) : Tidy (insert (Slot.ofValue v) slots) where
  increasing := increasing_insert h.increasing
  ofValues a ha := by
    rcases eq_or_mem_of_mem_insert ha with ⟨hpos, ha⟩ | ⟨b, hb, hle, ha⟩
    · exact ⟨hpos, v, ha⟩
    · obtain ⟨hpos, w, hw⟩ := h.ofValues b hb
      exact ⟨Nat.lt_of_lt_of_le hpos hle, w, ha ▸ hw⟩

/-- Counting a value adds its slot and nothing else. -/
theorem expand_insert_perm (h : Tidy slots) (v : Nat) :
    (expand (insert (Slot.ofValue v) slots)).Perm (Slot.ofValue v :: expand slots) := by
  induction slots with
  | nil => exact .refl _
  | cons b rest ih =>
    obtain ⟨s, n⟩ := b
    rw [Latency.insert]
    split
    · next heq =>
      obtain ⟨-, w, hw⟩ := h.ofValues (s, n) (.head _)
      obtain rfl : s = Slot.ofValue w := hw
      rw [Slot.ofValue_inj_low heq]
      exact .refl _
    · split
      · exact .refl _
      · exact ((ih h.tail).append_left _).trans List.perm_middle

private theorem mem_of_mem_expand {s : Slot} (h : s ∈ expand slots) : ∃ a ∈ slots, a.1 = s := by
  induction slots with
  | nil => cases h
  | cons b rest ih =>
    obtain ⟨t, n⟩ := b
    rcases List.mem_append.mp h with h | h
    · obtain rfl := List.eq_of_mem_replicate h
      exact ⟨_, .head _, rfl⟩
    · obtain ⟨a, ha, hs⟩ := ih h
      exact ⟨a, .tail _ ha, hs⟩

private theorem Tidy.pairwise_expand (h : Tidy slots) :
    (expand slots).Pairwise fun s t ↦ s.low ≤ t.low := by
  induction slots with
  | nil => exact .nil
  | cons b rest ih =>
    obtain ⟨s, n⟩ := b
    obtain ⟨hs, -⟩ := List.pairwise_cons.mp h.increasing
    apply List.pairwise_append.mpr
    refine ⟨?_, ih h.tail, fun t ht u hu ↦ ?_⟩
    · exact List.pairwise_replicate.mpr (.inr (Nat.le_refl _))
    · obtain rfl := List.eq_of_mem_replicate ht
      obtain ⟨a, ha, rfl⟩ := mem_of_mem_expand hu
      exact Nat.le_of_lt (hs a ha)

private theorem insert_of_lt {slot : Slot} (h : ∀ a ∈ slots, slot.low < a.1.low) :
    insert slot slots = (slot, 1) :: slots := by
  cases slots with
  | nil => rfl
  | cons a rest =>
    have hlt := h a (.head _)
    rw [insert, if_neg (Nat.ne_of_gt hlt), if_pos hlt]

private theorem foldr_insert_replicate {slot : Slot} (h : ∀ a ∈ slots, slot.low < a.1.low)
    (n : Nat) : (List.replicate (n + 1) slot).foldr insert slots = (slot, n + 1) :: slots := by
  induction n with
  | zero => exact insert_of_lt h
  | succ n ih =>
    rw [List.replicate_succ, List.foldr_cons, ih, insert, if_pos rfl]

/-- A tidy histogram is that of the values it holds. -/
theorem Tidy.foldr_expand (h : Tidy slots) : (expand slots).foldr Latency.insert [] = slots := by
  induction slots with
  | nil => rfl
  | cons a rest ih =>
    obtain ⟨s, n⟩ := a
    obtain ⟨hs, -⟩ := List.pairwise_cons.mp h.increasing
    obtain ⟨hpos, -⟩ := h.ofValues (s, n) (.head _)
    have hn : n = n - 1 + 1 := by
      simp only at hpos
      omega
    rw [expand, List.foldr_append, ih h.tail, hn]
    exact foldr_insert_replicate hs (n - 1)

/-! ### Recording runs -/

/-- The values that stand for the runs, of those that have a slot. -/
def kept (ds : List Duration) : List Nat := (ds.map sample).filter fun v ↦ decide (v < limit)

/-- Number of runs whose value has no slot. -/
def lost (ds : List Duration) : Nat := (ds.map sample).countP fun v ↦ decide ¬v < limit

/-- The nanoseconds of all runs. -/
def nanosOf (ds : List Duration) : Nat := ds.foldr (fun d total ↦ d.toNanos + total) 0

/-- The kept values in order of size. -/
def ranking (ds : List Duration) : List Nat := (kept ds).mergeSort fun v w ↦ decide (v ≤ w)

/-- The value in milliseconds that `p` percent of the values of a sorted list do not pass, as far as
its slot tells. -/
def quantile (values : List Nat) (p : Float) : Float :=
  let quotient := p / 100.0
  let share := if quotient > 1.0 then 1.0 else quotient
  let rank := max 1 (share * Binary64.ofCount values.length).ceil.toUInt64.toNat
  match values[rank - 1]? with
  | none => 0.0
  | some v =>
    let s := Slot.ofValue v
    Binary64.ofCount (if share == 0.0 then s.low else s.high) / nanosPerMilli

/-- A latency after the runs `done`. -/
structure Records (done : List Duration) (l : Latency) : Prop where
  runs_eq : l.runs = done.length
  total_eq : l.total.toNanos = nanosOf done
  tidy : Tidy l.slots
  perm : (expand l.slots).Perm ((kept done).map Slot.ofValue)

/-- Spans put together take as long as their parts. -/
theorem nanosOf_append (ds es : List Duration) : nanosOf (ds ++ es) = nanosOf ds + nanosOf es := by
  induction ds with
  | nil => exact (Nat.zero_add _).symm
  | cons d ds ih =>
    show d.toNanos + nanosOf (ds ++ es) = d.toNanos + nanosOf ds + nanosOf es
    rw [ih, Nat.add_assoc]

private theorem nanosOf_singleton (d : Duration) : nanosOf [d] = d.toNanos := by
  rw [nanosOf, List.foldr_cons, List.foldr_nil, Nat.add_zero]

private theorem kept_append (ds es : List Duration) : kept (ds ++ es) = kept ds ++ kept es := by
  rw [kept, List.map_append, List.filter_append, kept, kept]

private theorem kept_singleton (d : Duration) :
    kept [d] = if sample d < limit then [sample d] else [] := by
  rw [kept, List.map_singleton, List.filter_cons]
  simp only [decide_eq_true_eq, List.filter_nil]

/-- A recorder that is new has recorded nothing. -/
theorem records_nil : Records [] {} where
  runs_eq := rfl
  total_eq := rfl
  tidy := ⟨.nil, fun _ h ↦ nomatch h⟩
  perm := .refl _

private theorem Records.perm_record (h : Records done l) (d : Duration) :
    let slots := if sample d < limit then insert (Slot.ofValue (sample d)) l.slots else l.slots
    Tidy slots ∧ (expand slots).Perm ((kept (done ++ [d])).map Slot.ofValue) := by
  rw [kept_append, kept_singleton]
  by_cases hd : sample d < limit
  · simp only [if_pos hd]
    apply And.intro (h.tidy.insert _)
    rw [List.map_append, List.map_singleton]
    have hinsert := expand_insert_perm h.tidy (sample d)
    exact hinsert.trans ((h.perm.cons _).trans (List.perm_append_singleton _ _).symm)
  · simp only [if_neg hd, List.append_nil]
    exact ⟨h.tidy, h.perm⟩

/-- One more run is recorded if the total fits. -/
theorem Records.record (h : Records done l)
    (hsum : nanosOf (done ++ [d]) < wordLimit * Duration.nanosPerSecond) :
    ∃ l', l.record d = .ok l' ∧ Records (done ++ [d]) l' := by
  have hsplit : nanosOf (done ++ [d]) = l.total.toNanos + d.toNanos := by
    rw [nanosOf_append, h.total_eq, nanosOf_singleton]
  rw [hsplit] at hsum
  obtain ⟨total, hadd, htotal⟩ := Duration.exists_add hsum
  obtain ⟨htidy, hperm⟩ := h.perm_record d
  have hrecord : l.record d = .ok
      ⟨if sample d < limit then insert (Slot.ofValue (sample d)) l.slots else l.slots, total,
        l.runs + 1⟩ := by
    unfold Latency.record
    generalize sample d = v
    rw [hadd]
    rfl
  have hruns : l.runs + 1 = (done ++ [d]).length := by
    rw [h.runs_eq, List.length_append, List.length_singleton]
  exact ⟨_, hrecord, hruns, htotal.trans hsplit.symm, htidy, hperm⟩

/-- Runs are recorded one after the other. -/
theorem Records.foldlM (h : Records done l)
    (hsum : nanosOf (done ++ ds) < wordLimit * Duration.nanosPerSecond) :
    ∃ l', ds.foldlM Latency.record l = .ok l' ∧ Records (done ++ ds) l' := by
  induction ds generalizing done l with
  | nil => exact ⟨l, rfl, by rwa [List.append_nil]⟩
  | cons d ds ih =>
    rw [List.append_cons] at hsum ⊢
    have hfirst : nanosOf (done ++ [d]) < wordLimit * Duration.nanosPerSecond := by
      rw [nanosOf_append] at hsum
      omega
    obtain ⟨l₁, hrecord, h₁⟩ := h.record hfirst
    obtain ⟨l₂, hrest, h₂⟩ := ih h₁ hsum
    refine ⟨l₂, ?_, h₂⟩
    rw [List.foldlM_cons, hrecord]
    exact hrest

/-! ### The percentiles -/

/-- The ranking is sorted. -/
theorem pairwise_ranking (ds : List Duration) : (ranking ds).Pairwise (· ≤ ·) := by
  have hpairwise : (ranking ds).Pairwise fun v w ↦ decide (v ≤ w) = true := by
    apply List.pairwise_mergeSort
    · intro u v w huv hvw
      exact decide_eq_true (Nat.le_trans (of_decide_eq_true huv) (of_decide_eq_true hvw))
    · intro v w
      rw [Bool.or_eq_true, decide_eq_true_eq, decide_eq_true_eq]
      exact Nat.le_total v w
  exact hpairwise.imp of_decide_eq_true

private theorem perm_ranking (ds : List Duration) : (ranking ds).Perm (kept ds) :=
  List.mergeSort_perm _ _

/-- Each run is kept or lost. -/
theorem length_kept_add_lost (ds : List Duration) : (kept ds).length + lost ds = ds.length := by
  have hlength : (ds.map sample).length = ds.length := List.length_map _
  rw [List.length_eq_countP_add_countP fun v ↦ decide (v < limit)] at hlength
  simp only [decide_eq_true_eq] at hlength
  rw [kept, lost, ← List.countP_eq_length_filter]
  exact hlength

/-- The histogram lists the slots of the kept values by size. -/
theorem Records.expand_eq (h : Records ds l) :
    expand l.slots = (ranking ds).map Slot.ofValue := by
  have hperm : (expand l.slots).Perm ((ranking ds).map Slot.ofValue) :=
    h.perm.trans ((perm_ranking ds).symm.map _)
  have hsorted : ((ranking ds).map Slot.ofValue).Pairwise fun s t ↦ s.low ≤ t.low := by
    apply List.pairwise_map.mpr
    exact (pairwise_ranking ds).imp Slot.low_mono
  apply List.Perm.eq_of_pairwise _ h.tidy.pairwise_expand hsorted hperm
  intro s t hs ht hst hts
  obtain ⟨v, -, rfl⟩ := List.mem_map.mp (hperm.mem_iff.mp hs)
  obtain ⟨w, -, rfl⟩ := List.mem_map.mp ht
  exact Slot.ofValue_inj_low (Nat.le_antisymm hst hts)

/-- So it does not depend on the order of the runs. -/
theorem Records.slots_eq (h : Records ds l) : l.slots = histogram (ranking ds) := by
  rw [histogram, ← h.expand_eq, h.tidy.foldr_expand]

/-- The number of values is that of the runs that are kept. -/
theorem Records.count_eq (h : Records ds l) : l.count + lost ds = l.runs := by
  rw [count, ← length_expand, h.expand_eq, List.length_map, (perm_ranking ds).length_eq,
    h.runs_eq]
  exact length_kept_add_lost ds

/-- A percentile is a rank among the kept values. -/
theorem Records.percentile_eq (h : Records ds l) (p : Float) :
    l.percentile p = quantile (ranking ds) p := by
  have hcount : l.count = (ranking ds).length := by
    rw [count, ← length_expand, h.expand_eq, List.length_map]
  have hslot (rank : Nat) :
      slotAt (max 1 rank) l.slots = ((ranking ds)[max 1 rank - 1]?).map Slot.ofValue := by
    have hrank : max 1 rank = max 1 rank - 1 + 1 := by omega
    rw [hrank, slotAt_succ, h.expand_eq, List.getElem?_map, Nat.add_sub_cancel]
  rw [percentile, quantile]
  simp only [hcount, hslot]
  generalize (ranking ds)[(_ : Nat)]? = v
  cases v <;> rfl

/-- What a latency tells of the runs it has recorded. -/
structure Keeps (ds : List Duration) (l : Latency) : Prop where
  runs_eq : l.runs = ds.length
  total_eq : l.total.toNanos = nanosOf ds
  /-- A run is missing from the histogram if its value has no slot, and only then. -/
  count_eq : l.count + lost ds = l.runs
  /-- The histogram is that of the kept values in order of size, whatever the order of the runs. -/
  slots_eq : l.slots = histogram (ranking ds)
  /-- It lists their slots. -/
  expand_eq : expand l.slots = (ranking ds).map Slot.ofValue
  sorted : (ranking ds).Pairwise (· ≤ ·)
  percentile_eq : ∀ p, l.percentile p = quantile (ranking ds) p
  /-- A slot tells a value to three digits. -/
  fine : ∀ v ∈ ranking ds, (Slot.ofValue v).Holds v ∧ (Slot.ofValue v).IsFine
  /-- Nothing is missing if the nanoseconds of each run, as a 64-bit number, have a slot. -/
  count_eq_iff : l.count = l.runs ↔ ∀ d ∈ ds, d.toNanos % wordLimit < limit
  /-- The kept values are then the nanoseconds of the runs, unless a run has no 64-bit number of
  nanoseconds. -/
  perm : (∀ d ∈ ds, d.toNanos < limit) → (ranking ds).Perm (ds.map fun d ↦ max 1 d.toNanos)

private theorem sample_lt_limit : sample d < limit ↔ d.toNanos % wordLimit < limit := by
  unfold sample limit
  omega

/-- The value of a run is the number of its nanoseconds, if this is a 64-bit number. -/
theorem sample_eq (h : d.toNanos < wordLimit) : sample d = max 1 d.toNanos := by
  rw [sample, Nat.mod_eq_of_lt h]

/-- A run of 584 years is taken for one of five nanoseconds. -/
example : sample ⟨18446744073, 709551621⟩ = 5 := by decide

private theorem lost_eq_zero : lost ds = 0 ↔ ∀ d ∈ ds, d.toNanos % wordLimit < limit := by
  rw [lost, List.countP_eq_zero, List.forall_mem_map]
  simp only [decide_eq_true_eq, Decidable.not_not, sample_lt_limit]

private theorem perm_of_lt_limit (h : ∀ d ∈ ds, d.toNanos < limit) :
    (ranking ds).Perm (ds.map fun d ↦ max 1 d.toNanos) := by
  have hword (d) (hd : d ∈ ds) : d.toNanos < wordLimit :=
    Nat.lt_trans (h d hd) (by decide)
  have hkept : kept ds = ds.map sample := by
    apply List.filter_eq_self.mpr
    intro v hv
    obtain ⟨d, hd, rfl⟩ := List.mem_map.mp hv
    rw [decide_eq_true_eq, sample_lt_limit, Nat.mod_eq_of_lt (hword d hd)]
    exact h d hd
  have hsample : ds.map sample = ds.map fun d ↦ max 1 d.toNanos :=
    List.map_congr_left fun d hd ↦ sample_eq (hword d hd)
  rw [← hsample, ← hkept]
  exact perm_ranking ds

/-- Runs whose total fits are recorded, and the latency keeps those that have a slot. -/
theorem keeps_of_sum_lt (h : nanosOf ds < wordLimit * Duration.nanosPerSecond) :
    ∃ l, ds.foldlM record {} = .ok l ∧ Keeps ds l := by
  obtain ⟨l, hrun, hl⟩ := records_nil.foldlM h
  rw [List.nil_append] at hl
  refine ⟨l, hrun, ?keeps⟩
  exact {
    runs_eq := hl.runs_eq
    total_eq := hl.total_eq
    count_eq := hl.count_eq
    slots_eq := hl.slots_eq
    expand_eq := hl.expand_eq
    sorted := pairwise_ranking ds
    percentile_eq := hl.percentile_eq
    fine := fun v _ ↦ ⟨Slot.holds_ofValue v, Slot.isFine_ofValue v⟩
    count_eq_iff := by
      rw [← lost_eq_zero, ← hl.count_eq]
      omega
    perm := perm_of_lt_limit }

/-- Three runs, the longest of which is not kept. -/
theorem keeps_of_sum_lt_mixed : ∃ ds : List Duration,
    ds = [⟨0, 4000000⟩, ⟨2000, 0⟩, ⟨0, 1000000⟩] ∧
    nanosOf ds < wordLimit * Duration.nanosPerSecond ∧
    ∃ l, ds.foldlM record {} = .ok l ∧ l.runs = 3 ∧ l.count = 2 ∧
      expand l.slots = [Slot.ofValue 1000000, Slot.ofValue 4000000] := by
  let ds : List Duration := [⟨0, 4000000⟩, ⟨2000, 0⟩, ⟨0, 1000000⟩]
  have hsum : nanosOf ds < wordLimit * Duration.nanosPerSecond := by decide
  obtain ⟨l, hrun, hl⟩ := keeps_of_sum_lt hsum
  have hlost : lost ds = 1 := by decide
  have hcount : l.count + lost ds = 3 := hl.count_eq.trans hl.runs_eq
  have hperm : (ranking ds).Perm [1000000, 4000000] := (perm_ranking ds).trans (.swap _ _ _)
  have hranking : ranking ds = [1000000, 4000000] :=
    hperm.eq_of_pairwise (fun _ _ _ _ ↦ Nat.le_antisymm) hl.sorted (by decide)
  have hexpand := hl.expand_eq
  rw [hranking] at hexpand
  exact ⟨ds, rfl, hsum, l, hrun, hl.runs_eq, by omega, hexpand⟩

/-- A run of 2000 seconds is counted and totalled, and missing from the histogram. -/
theorem loses_long : ¬∀ ds : List Duration, nanosOf ds < wordLimit * Duration.nanosPerSecond →
    ∃ l, ds.foldlM record {} = .ok l ∧ l.count = l.runs := by
  intro h
  obtain ⟨l, hrun, hcount⟩ := h [⟨2000, 0⟩] (by decide)
  have hlong : ([⟨2000, 0⟩].foldlM record {}).toOption.map (fun l ↦ (l.count, l.runs)) =
      some (0, 1) := by
    decide +kernel
  rw [hrun] at hlong
  obtain ⟨hzero, hone⟩ := Prod.mk.inj (Option.some.inj hlong)
  omega

end Latency
end RayAdjacency
