import Mathlib.Algebra.BigOperators.Group.Multiset.Basic
import RayAdjacency.Proofs.Leaf.Interference
import RayAdjacency.Proofs.Traversal.Visits

/-!
# Duties of a search

A visit consists of duties: to ask for admission, to leave what has been entered, to compare two
terminal nodes, and to hand the accepted pairs to the sink. Each duty adds its share to the tally
and to the sink, whoever does it and when. The duties of a search are those of its visits, so they
are the same for every strategy.
-/

namespace RayAdjacency

namespace Tally

instance : Zero Tally := ⟨{}⟩

/-- Where nothing is counted every counter is zero. -/
theorem get_zero (c : Counter) : (0 : Tally).get c = 0 := by
  cases c <;> rfl

instance : AddCommMonoid Tally where
  add_assoc a b c := by
    apply ext_get
    intro d
    simp only [get_plus, Nat.add_assoc]
  zero_add a := by
    apply ext_get
    intro d
    simp only [get_plus, get_zero, Nat.zero_add]
  add_zero a := by
    apply ext_get
    intro d
    simp only [get_plus, get_zero, Nat.add_zero]
  add_comm a b := by
    apply ext_get
    intro d
    simp only [get_plus, Nat.add_comm]
  nsmul := nsmulRec

/-- Adding to a counter is adding a tally of that counter alone. -/
theorem add_eq_plus (t : Tally) (c : Counter) (n : Nat) : t.add c n = t + (0 : Tally).add c n := by
  apply ext_get
  intro d
  simp only [get_add, get_plus, get_zero, Nat.zero_add]

end Tally

namespace Root

variable (r : Root) (p : NodePair) (t : Tally)

/-- A pair is admitted whatever has been counted before. -/
theorem enter_fst : (r.enter p t).1 = r.admits p := by
  rw [enter]
  by_cases h : r.admits p = true <;> simp [h]

/-- Asking for admission counts the same whatever has been counted before. -/
theorem enter_snd : (r.enter p t).2 = t + (r.enter p 0).2 := by
  simp only [enter]
  split
  · exact Tally.add_eq_plus t .enterCalls 1
  · apply Tally.ext_get
    intro c
    simp only [Tally.bump, Tally.get_add, Tally.get_plus, Tally.get_zero]
    omega

end Root

/-- Whether a counter counts what a search does, and not how it is shared among threads. -/
def Counter.isOfSearch : Counter → Bool
  | .threadsSpawned | .jobsQueued | .jobsRun | .barrierBreaks => false
  | _ => true

/-- What a comparison of two terminal nodes comes to, without interference. -/
def SearchSite.compared (site : SearchSite) (p : NodePair) : Outcome Unit × Batch :=
  (Batch.compare site {} p).run.run {}

/-- What a comparison that does not stop accepts. -/
def SearchSite.accepted (site : SearchSite) (p : NodePair) : Array IndexPair :=
  match (site.compared p).1 with
  | .ok () => (site.compared p).2.accepted
  | .error _ => #[]

/-- A part of what a visit has to do. -/
inductive Duty where
  /-- To ask for admission. -/
  | ask (pair : NodePair)
  /-- To leave an entered pair. -/
  | leave (pair : NodePair)
  /-- To compare the rays of two terminal nodes. -/
  | compare (pair : NodePair)
  /-- To append pairs to the sink. -/
  | emit (pairs : Array IndexPair)

namespace Duty

/-- What a duty adds to the tally. -/
def tally (site : SearchSite) : Duty → Tally
  | ask p => (site.root.enter p 0).2
  | leave _ => Tally.bump 0 .leaves
  | compare p => (site.compared p).2.tally
  | emit pairs => Tally.add 0 .pairsEmitted pairs.size

/-- What a duty appends to the sink. -/
def pairs : Duty → List IndexPair
  | emit pairs => pairs.toList
  | _ => []

/-- The questions that a duty puts to the delegate. -/
def questions (site : SearchSite) : Duty → List Question
  | compare p => (site.compared p).2.asked.toList
  | _ => []

/-- Whether a duty can be done: a comparison must not stop. -/
def CanEnd (site : SearchSite) : Duty → Prop
  | compare p => (site.compared p).1 = .ok ()
  | _ => True

end Duty

namespace SearchSite

variable {site : SearchSite} {p : NodePair}

/-- The duties of a comparison. -/
def compareDuties (site : SearchSite) (p : NodePair) : List Duty :=
  if (site.accepted p).isEmpty then [.compare p]
  else [.compare p, .emit (site.accepted p)]

/-- The duties of one visit. -/
def visitDuties (site : SearchSite) (p : NodePair) : List Duty :=
  if site.root.admits p then
    [.ask p, .leave p] ++ if site.root.compares p then site.compareDuties p else []
  else [.ask p]

/-- The duties of a search from a node pair. -/
def duties (site : SearchSite) (p : NodePair) : Multiset Duty :=
  ((site.root.visits p).flatMap site.visitDuties : List Duty)

/-- The duties of searches from several node pairs. -/
def dutiesOf (site : SearchSite) (ps : List NodePair) : Multiset Duty := (ps.map site.duties).sum

/-- No pairs have no duties. -/
@[simp] theorem dutiesOf_nil : site.dutiesOf [] = 0 := rfl

/-- Pairs have the duties of the first one and those of the others. -/
@[simp] theorem dutiesOf_cons (ps : List NodePair) :
    site.dutiesOf (p :: ps) = site.duties p + site.dutiesOf ps := by
  simp [dutiesOf]

/-- Pairs put together have the duties of both. -/
@[simp] theorem dutiesOf_append (ps qs : List NodePair) :
    site.dutiesOf (ps ++ qs) = site.dutiesOf ps + site.dutiesOf qs := by
  simp [dutiesOf]

/-- The duties of one of several pairs are among theirs. -/
theorem mem_dutiesOf {ps : List NodePair} {d : Duty} (hp : p ∈ ps) (hd : d ∈ site.duties p) :
    d ∈ site.dutiesOf ps := by
  induction ps with
  | nil => cases hp
  | cons q ps ih =>
    rw [dutiesOf_cons, Multiset.mem_add]
    rcases List.mem_cons.mp hp with rfl | hp
    · exact .inl hd
    · exact .inr (ih hp)

/-- A comparison is among its duties. -/
theorem compare_mem_compareDuties :
    Duty.compare p ∈ (site.compareDuties p : Multiset Duty) := by
  rw [compareDuties]
  split <;> simp

private theorem coe_flatMap_visits (ps : List NodePair) :
    (((ps.flatMap site.root.visits).flatMap site.visitDuties : List Duty) : Multiset Duty)
      = site.dutiesOf ps := by
  induction ps with
  | nil => rfl
  | cons q ps ih =>
    rw [List.flatMap_cons, List.flatMap_append, ← Multiset.coe_add, ih, dutiesOf_cons, duties]

private theorem duties_eq (site : SearchSite) (p : NodePair) : site.duties p =
    (site.visitDuties p : Multiset Duty) +
      if site.root.admits p && !p.isEmpty then site.dutiesOf p.children else 0 := by
  rw [duties, Root.visits_eq, List.flatMap_cons, ← Multiset.coe_add]
  split
  · rw [coe_flatMap_visits]
  · rfl

/-- A pair that is not admitted only asks. -/
theorem duties_of_not_admits (h : site.root.admits p = false) : site.duties p = {.ask p} := by
  simp [duties_eq, visitDuties, h]

/-- An admitted pair without rays is left at once. -/
theorem duties_of_isEmpty (h : site.root.admits p = true) (hp : p.isEmpty = true) :
    site.duties p = {.ask p} + {.leave p} := by
  have hvisit : site.visitDuties p = [.ask p, .leave p] := by
    simp [visitDuties, Root.compares, h, hp]
  rw [duties_eq, hvisit, h, hp]
  rfl

/-- An admitted pair with an internal node owes the duties of the pairs below. -/
theorem duties_of_isInternal (h : site.root.admits p = true) (hp : p.isEmpty = false)
    (hinternal : p.isInternal = true) :
    site.duties p = {.ask p} + {.leave p} + site.dutiesOf p.children := by
  have hvisit : site.visitDuties p = [.ask p, .leave p] := by
    simp [visitDuties, Root.compares, h, hp, hinternal]
  rw [duties_eq, hvisit, h, hp]
  rfl

/-- An admitted pair of terminal nodes owes a comparison. -/
theorem duties_of_terminal (h : site.root.admits p = true) (hp : p.isEmpty = false)
    (hinternal : p.isInternal = false) :
    site.duties p = {.ask p} + {.leave p} + (site.compareDuties p : Multiset Duty) := by
  have hchildren : p.children = [] := by
    rw [NodePair.children, hinternal]
    rfl
  have hvisit : site.visitDuties p = [.ask p, .leave p] ++ site.compareDuties p := by
    simp [visitDuties, Root.compares, h, hp, hinternal]
  rw [duties_eq, hvisit, hchildren, dutiesOf_nil, ite_self, add_zero, ← Multiset.coe_add]
  rfl

/-! ### What duties come to -/

/-- What several duties add to the tally. -/
def tallyOf (site : SearchSite) (ds : Multiset Duty) : Tally := (ds.map (Duty.tally site)).sum

/-- What several duties append to the sink. -/
def pairsOf (ds : Multiset Duty) : Multiset IndexPair := ds.bind fun d ↦ (d.pairs : Multiset IndexPair)

/-- The questions that duties put to the delegate. -/
def questionsOf (site : SearchSite) (ds : Multiset Duty) : Multiset Question :=
  ds.bind fun d ↦ (d.questions site : Multiset Question)

/-- No duties count nothing. -/
@[simp] theorem tallyOf_zero : site.tallyOf 0 = 0 := rfl

/-- Duties put together count what they count each. -/
@[simp] theorem tallyOf_add (ds es : Multiset Duty) :
    site.tallyOf (ds + es) = site.tallyOf ds + site.tallyOf es := by
  simp [tallyOf]

/-- One duty counts what it counts. -/
@[simp] theorem tallyOf_singleton (d : Duty) : site.tallyOf {d} = d.tally site := by
  simp [tallyOf]

/-- No duties find nothing. -/
@[simp] theorem pairsOf_zero : pairsOf 0 = 0 := rfl

/-- Duties put together find what they find each. -/
@[simp] theorem pairsOf_add (ds es : Multiset Duty) : pairsOf (ds + es) = pairsOf ds + pairsOf es := by
  simp [pairsOf]

/-- One duty finds its pairs. -/
@[simp] theorem pairsOf_singleton (d : Duty) : pairsOf {d} = (d.pairs : Multiset IndexPair) := by
  simp [pairsOf]

/-- No duties ask nothing. -/
@[simp] theorem questionsOf_zero : site.questionsOf 0 = 0 := rfl

/-- Duties put together ask what they ask each. -/
@[simp] theorem questionsOf_add (ds es : Multiset Duty) :
    site.questionsOf (ds + es) = site.questionsOf ds + site.questionsOf es := by
  rw [questionsOf, Multiset.add_bind]
  rfl

/-- One duty asks its questions. -/
@[simp] theorem questionsOf_singleton (d : Duty) :
    site.questionsOf {d} = (d.questions site : Multiset Question) := by
  rw [questionsOf, Multiset.singleton_bind]

/-- The pairs that a search from a node pair finds, in the order of one thread. -/
def found (site : SearchSite) (p : NodePair) : List IndexPair :=
  (site.root.visits p).flatMap fun q ↦
    if site.root.compares q then (site.accepted q).toList else []

private theorem found_eq (site : SearchSite) (p : NodePair) : site.found p =
    (if site.root.compares p then (site.accepted p).toList else []) ++
      if site.root.admits p && !p.isEmpty then p.children.flatMap site.found else [] := by
  rw [found, Root.visits_eq, List.flatMap_cons]
  congr 1
  split
  · rw [List.flatMap_assoc]
    rfl
  · rfl

/-- Below a pair that is not admitted nothing is found. -/
theorem found_of_not_admits (h : site.root.admits p = false) : site.found p = [] := by
  simp [found_eq, Root.compares, h]

/-- In a pair with an empty side nothing is found. -/
theorem found_of_isEmpty (hp : p.isEmpty = true) : site.found p = [] := by
  simp [found_eq, Root.compares, hp]

/-- Below an inner pair is found what is found below its children. -/
theorem found_of_isInternal (h : site.root.admits p = true) (hp : p.isEmpty = false)
    (hinternal : p.isInternal = true) : site.found p = p.children.flatMap site.found := by
  simp [found_eq site p, Root.compares, h, hp, hinternal]

/-- In a terminal pair is found what its comparison accepts. -/
theorem found_of_terminal (h : site.root.admits p = true) (hp : p.isEmpty = false)
    (hinternal : p.isInternal = false) :
    site.found p = (site.accepted p).toList := by
  simp [found_eq site p, Root.compares, h, hp, hinternal, NodePair.children]

private theorem flatMap_pairs_visitDuties (q : NodePair) :
    (site.visitDuties q).flatMap Duty.pairs =
      if site.root.compares q then (site.accepted q).toList else [] := by
  rw [visitDuties]
  by_cases hadmits : site.root.admits q = true
  · rw [if_pos hadmits]
    by_cases hcompares : site.root.compares q = true
    · rw [if_pos hcompares, if_pos hcompares, compareDuties]
      split
      · next hempty =>
        rw [Array.isEmpty_iff.mp hempty]
        simp [Duty.pairs]
      · simp [Duty.pairs]
    · simp [hcompares, Duty.pairs]
  · rw [if_neg hadmits, Root.compares]
    simp [hadmits, Duty.pairs]

/-- The duties of a search append what it finds. -/
theorem pairsOf_duties (p : NodePair) :
    pairsOf (site.duties p) = (site.found p : Multiset IndexPair) := by
  rw [pairsOf, duties, found, Multiset.coe_bind]
  simp only [List.flatMap_assoc, flatMap_pairs_visitDuties]

/-! ### What a search counts -/

/-- A comparison counts leaf tests alone. -/
theorem get_tally_compared (p : NodePair) {c : Counter} (hc : c.isOfLeaves = false) :
    (site.compared p).2.tally.get c = 0 := by
  have hkept : Batch.Mirrors (Batch.compare site {} p) (Batch.compare site {} p) :=
    Batch.mirrors_compare p
  have hkept := hkept {}
  rw [compared]
  unfold Ends at hkept
  split at hkept
  · next hrun =>
    rw [hrun]
    exact (hkept.2 c hc).trans (Tally.get_zero c)
  · next hrun =>
    rw [hrun]
    exact (hkept c hc).trans (Tally.get_zero c)

/-- The counter of emitted pairs counts what is appended. -/
theorem get_tallyOf_pairsEmitted (ds : Multiset Duty) :
    (site.tallyOf ds).get .pairsEmitted = (pairsOf ds).card := by
  induction ds using Multiset.induction_on with
  | empty => rfl
  | cons d ds ih =>
    rw [← Multiset.singleton_add, tallyOf_add, pairsOf_add, Tally.get_plus, ih, Multiset.card_add,
      tallyOf_singleton, pairsOf_singleton, Multiset.coe_card]
    congr 1
    cases d with
    | ask p =>
      rw [Duty.tally, Root.enter]
      split <;> rfl
    | leave p => rfl
    | compare p => exact site.get_tally_compared p rfl
    | emit pairs =>
      rw [Duty.tally, Tally.get_add, Tally.get_zero, if_pos rfl, Nat.zero_add]
      rfl

private theorem get_tally_compareDuties (q : NodePair) {c : Counter} (hc : c.isOfLeaves = false)
    (hemit : c ≠ .pairsEmitted) : (site.tallyOf (site.compareDuties q)).get c = 0 := by
  have hcompare := site.get_tally_compared q hc
  have hne : Counter.pairsEmitted ≠ c := hemit.symm
  rw [compareDuties]
  split <;> simp [tallyOf, Duty.tally, Tally.get_plus, Tally.get_add, Tally.get_zero, hcompare, hne]

private theorem get_tally_visitDuties (q : NodePair) :
    (site.tallyOf (site.visitDuties q)).get .enterCalls = 1 ∧
      (site.tallyOf (site.visitDuties q)).get .pruned
        + (site.tallyOf (site.visitDuties q)).get .leaves = 1 := by
  have hcompare {c : Counter} (hc : c.isOfLeaves = false) (hemit : c ≠ .pairsEmitted) :
      (site.tallyOf ((if site.root.compares q then site.compareDuties q else [] : List Duty) :
        Multiset Duty)).get c = 0 := by
    split
    · exact get_tally_compareDuties q hc hemit
    · exact Tally.get_zero c
  rw [visitDuties]
  by_cases hadmits : site.root.admits q = true
  · rw [if_pos hadmits, ← Multiset.coe_add, tallyOf_add, Tally.get_plus, Tally.get_plus,
      Tally.get_plus, hcompare rfl (by decide), hcompare rfl (by decide), hcompare rfl (by decide)]
    simp [tallyOf, Duty.tally, Root.enter, hadmits, Tally.bump, Tally.get_plus, Tally.get_add,
      Tally.get_zero]
  · rw [if_neg hadmits]
    simp [tallyOf, Duty.tally, Root.enter, hadmits, Tally.bump, Tally.get_add, Tally.get_zero]

/-- Each visited pair asks once, and is either turned away or left. -/
theorem get_tally_duties (p : NodePair) :
    (site.tallyOf (site.duties p)).get .enterCalls = (site.root.visits p).length ∧
      (site.tallyOf (site.duties p)).get .pruned + (site.tallyOf (site.duties p)).get .leaves
        = (site.root.visits p).length := by
  rw [duties]
  induction site.root.visits p with
  | nil => exact ⟨rfl, rfl⟩
  | cons q qs ih =>
    have hvisit := site.get_tally_visitDuties q
    rw [List.flatMap_cons, ← Multiset.coe_add, tallyOf_add, Tally.get_plus, Tally.get_plus,
      Tally.get_plus, List.length_cons]
    omega

end SearchSite
end RayAdjacency
