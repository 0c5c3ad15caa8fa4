import RayAdjacency.Proofs.Leaf.Reading

/-!
# Comparisons under interference

Interference can make a comparison stop, and nothing else: a comparison that ends in spite of it
has done what it does without. However it ends, it has counted leaf tests alone.
-/

namespace RayAdjacency

/-- Whether a counter counts what a comparison of leaves does. -/
def Counter.isOfLeaves : Counter → Bool
  | .leafPairs | .immediateAdjacent | .pendingCandidates | .filteredOut | .rankRejected => true
  | _ => false

namespace Batch

variable {α β : Type} {b b' b'' : Batch}

/-- Batches that agree on all counters but those of comparisons. -/
def Kept (b b' : Batch) : Prop := ∀ c, c.isOfLeaves = false → b'.tally.get c = b.tally.get c

/-- A batch that nobody touches is kept. -/
theorem Kept.refl (b : Batch) : Kept b b := fun _ _ ↦ rfl

/-- What is kept twice in a row is kept. -/
theorem Kept.trans (h : Kept b b') (h' : Kept b' b'') : Kept b b'' := fun c hc ↦
  (h' c hc).trans (h c hc)

/-- A batch with the same counts is kept. -/
theorem Kept.of_tally_eq (h : b'.tally = b.tally) : Kept b b' := fun _ _ ↦ by rw [h]

/-- A computation that does what another one does, unless it stops, and counts leaf tests alone. -/
def Mirrors (m m' : BatchM α) : Prop :=
  ∀ b, Ends m b (fun a b' ↦ m'.run.run b = (.ok a, b') ∧ Kept b b') fun _ b' ↦ Kept b b'

namespace Mirrors

variable {m m' : BatchM α} {f f' : α → BatchM β}

/-- Sequences mirror each other if their steps do. -/
theorem bind (hm : Mirrors m m') (hf : ∀ a, Mirrors (f a) (f' a)) :
    Mirrors (m >>= f) (m' >>= f') := by
  intro b
  refine ends_bind.mpr ((hm b).mono ?_ fun _ _ h ↦ h)
  rintro a b' ⟨hrun, hkept⟩
  refine (hf a b').mono ?_ fun _ _ h ↦ hkept.trans h
  rintro c b'' ⟨hrun', hkept'⟩
  refine ⟨?_, hkept.trans hkept'⟩
  rw [ExceptT.run_bind, StateT.run_bind, hrun]
  exact hrun'

/-- A value mirrors itself. -/
theorem pure (a : α) : Mirrors (Pure.pure a) (Pure.pure a) := fun b ↦ ⟨rfl, .refl b⟩

/-- Whatever is thrown mirrors everything, since it keeps the batch. -/
theorem throw (stop : Stop) : Mirrors (throw stop : BatchM α) m' := fun b ↦ .refl b

/-- An outcome mirrors itself. -/
theorem liftExcept (o : Outcome α) : Mirrors (liftExcept o) (liftExcept o) := fun b ↦ by
  cases o with
  | ok a => exact ⟨rfl, .refl b⟩
  | error stop => exact .refl b

/-- Reading the batch mirrors itself. -/
theorem get : Mirrors get get := fun b ↦ ⟨rfl, .refl b⟩

/-- A change that keeps the batch mirrors itself. -/
theorem modify {f : Batch → Batch} (h : ∀ b, Kept b (f b)) : Mirrors (modify f) (modify f) :=
  fun b ↦ ⟨rfl, h b⟩

/-- A choice mirrors the same choice between what mirrors its branches. -/
theorem ite {p : Prop} [Decidable p] {n n' : BatchM α} (hm : Mirrors m m') (hn : Mirrors n n') :
    Mirrors (if p then m else n) (if p then m' else n') := by
  split
  · exact hm
  · exact hn

/-- A loop mirrors a loop whose rounds its own mirror. -/
theorem forM {l : List β} {f f' : β → BatchM Unit} (hf : ∀ x, Mirrors (f x) (f' x)) :
    Mirrors (l.forM f) (l.forM f') := by
  induction l with
  | nil => exact .pure _
  | cons x l ih => exact (hf x).bind fun _ ↦ ih

end Mirrors

variable {site : SearchSite} {env : Interference} {side : Side}

private theorem mirrors_bump {c : Counter} (hc : c.isOfLeaves = true) : Mirrors (bump c) (bump c) := by
  refine .modify fun b d hd ↦ ?_
  rw [Tally.bump, Tally.get_add, if_neg, Nat.add_zero]
  rintro rfl
  rw [hc] at hd
  cases hd

private theorem run_read (env : Interference) (i : Nat) (b : Batch) :
    (read site env side i).run.run b =
      ((site.stores.side side).answer b.reads i >>= fun ray ↦
        match env.read b.reads side i with
        | some failure => .error (.failed failure)
        | none => .ok ray, { b with reads := b.reads + 1 }) := by
  change (liftExcept ((site.stores.side side).answer b.reads i) >>= fun ray ↦
    (match env.read b.reads side i with
      | some failure => throw (.failed failure)
      | none => return ray : BatchM Ray)).run.run { b with reads := b.reads + 1 } = _
  rw [ExceptT.run_bind, StateT.run_bind]
  cases (site.stores.side side).answer b.reads i with
  | error stop => rfl
  | ok ray => cases env.read b.reads side i <;> rfl

private theorem mirrors_read (i : Nat) : Mirrors (read site env side i) (read site {} side i) := by
  intro b
  rw [Ends, run_read, run_read]
  cases (site.stores.side side).answer b.reads i with
  | error stop => exact Kept.of_tally_eq rfl
  | ok ray =>
    cases env.read b.reads side i with
    | some failure => exact Kept.of_tally_eq rfl
    | none => exact ⟨rfl, .of_tally_eq rfl⟩

private theorem mirrors_readFrom (count i : Nat) :
    Mirrors (readFrom site env side count i) (readFrom site {} side count i) := by
  induction count generalizing i with
  | zero => exact .pure _
  | succ count ih => exact (mirrors_read i).bind fun _ ↦ (ih (i + 1)).bind fun _ ↦ .pure _

private theorem mirrors_collect (n : Node) :
    Mirrors (collect site env side n) (collect site {} side n) := by
  cases n with
  | leaf union start stop =>
    rw [collect_leaf, collect_leaf]
    exact mirrors_readFrom _ _
  | _ => exact .pure _

private theorem mirrors_reserve (n : Node) : Mirrors (reserve n) (reserve n) :=
  (Mirrors.liftExcept _).bind fun _ ↦ .liftExcept _

private theorem mirrors_filterTerminal (n : Node) :
    Mirrors (filterTerminal site env side n) (filterTerminal site {} side n) :=
  (mirrors_reserve n).bind fun _ ↦ (mirrors_collect n).bind fun _ ↦
    .forM fun _ ↦ .modify fun _ ↦ .of_tally_eq rfl

private theorem mirrors_ifConcerns {cut u : Pattern} {m m' : BatchM Unit} (h : Mirrors m m') :
    Mirrors (do if (← get).concerns cut u then m) (do if (← get).concerns cut u then m') :=
  Mirrors.get.bind fun _ ↦ h.ite (.pure _)

private theorem mirrors_filterNodes {cut : Pattern} {ns : List Node}
    (h : ∀ n ∈ ns, Mirrors (filterNode site env side cut n) (filterNode site {} side cut n)) :
    Mirrors (filterNodes site env side cut ns) (filterNodes site {} side cut ns) := by
  induction ns with
  | nil => exact .pure _
  | cons n ns ih =>
    rw [filterNodes, filterNodes]
    exact (h n (.head ns)).bind fun _ ↦ ih fun m hm ↦ h m (.tail n hm)

private theorem mirrors_filterNode (cut : Pattern) (n : Node) :
    Mirrors (filterNode site env side cut n) (filterNode site {} side cut n) := by
  induction n using Node.children_induction with
  | step n ih =>
    cases n with
    | fork u left right =>
      rw [filterNode, filterNode]
      exact mirrors_ifConcerns ((ih left (.head _)).bind fun _ ↦ ih right (.tail _ (.head _)))
    | wide u ns =>
      rw [filterNode, filterNode]
      exact mirrors_ifConcerns (mirrors_filterNodes ih)
    | leaf u start stop =>
      rw [filterNode, filterNode]
      exact mirrors_ifConcerns (mirrors_filterTerminal _)
    | single u i =>
      rw [filterNode, filterNode]
      exact mirrors_ifConcerns (mirrors_filterTerminal _)
    | empty u =>
      rw [filterNode, filterNode]
      exact mirrors_ifConcerns (mirrors_filterTerminal _)

private theorem mirrors_filterSides (cut : Pattern) (sides : List Side) :
    Mirrors (filterSides site env cut sides) (filterSides site {} cut sides) := by
  induction sides with
  | nil => exact .pure _
  | cons side sides ih =>
    exact Mirrors.get.bind fun _ ↦ (Mirrors.pure _).ite ((mirrors_filterNode cut _).bind fun _ ↦ ih)

/-- The filter under interference. -/
theorem mirrors_filter : Mirrors (filter site env) (filter site {}) := by
  refine Mirrors.get.bind fun b ↦ ?_
  dsimp only
  split
  · exact .pure _
  · refine (mirrors_filterSides _ _).bind fun _ ↦ Mirrors.get.bind fun _ ↦
      (Mirrors.liftExcept _).bind fun removed ↦ ?_
    refine .modify fun b c hc ↦ ?_
    rw [Tally.get_add, if_neg, Nat.add_zero]
    rintro rfl
    cases hc

private theorem mirrors_accept (p n : Nat) : Mirrors (accept p n) (accept p n) :=
  .modify fun _ ↦ .of_tally_eq rfl

private theorem mirrors_testExcess (p : Nat) (zp : Pattern) (n : Nat) (zn : Pattern)
    (shared : Nat) : Mirrors (testExcess p zp n zn shared) (testExcess p zp n zn shared) :=
  (Mirrors.liftExcept _).bind fun _ ↦ (Mirrors.liftExcept _).bind fun _ ↦
    ((mirrors_bump rfl).bind fun _ ↦ mirrors_accept p n).ite
      ((mirrors_bump rfl).bind fun _ ↦ .modify fun _ ↦ .of_tally_eq rfl)

private theorem mirrors_testRank (judge : Ray → Ray → Pattern → Outcome Bool) (p : Nat)
    (zp : Pattern) (n : Nat) (zn : Pattern) :
    Mirrors (testRank site env judge p zp n zn) (testRank site {} judge p zp n zn) := by
  refine (mirrors_read p).bind fun positive ↦ (mirrors_read n).bind fun negative ↦
    Mirrors.get.bind fun b ↦ ?_
  dsimp only
  refine Mirrors.bind (.modify fun _ ↦ .of_tally_eq rfl) fun _ ↦ ?_
  cases env.judge b.asked.size with
  | some stop => exact .throw stop
  | none =>
    exact (Mirrors.liftExcept _).bind fun verdict ↦ (mirrors_accept p n).ite (mirrors_bump rfl)

private theorem mirrors_testPair (p : Nat) (zp : Pattern) (n : Nat) (zn : Pattern) :
    Mirrors (testPair site env p zp n zn) (testPair site {} p zp n zn) := by
  refine (mirrors_bump rfl).bind fun _ ↦ Mirrors.ite ?_ (.pure _)
  cases site.test with
  | combinatorial => exact mirrors_testExcess _ _ _ _ _
  | rank judge => exact mirrors_testRank _ _ _ _ _

private theorem mirrors_settle : Mirrors (settle site env) (settle site {}) := by
  refine Mirrors.get.bind fun b ↦ Mirrors.ite (mirrors_filter.bind fun _ ↦ ?_) (.pure _)
  exact .modify fun _ ↦ .of_tally_eq rfl

/-- A comparison that ends in spite of interference has done what it does without. -/
theorem mirrors_compare (pair : NodePair) :
    Mirrors (compare site env pair) (compare site {} pair) :=
  (mirrors_reserve _).bind fun _ ↦ (mirrors_collect _).bind fun _ ↦
    (mirrors_reserve _).bind fun _ ↦ (mirrors_collect _).bind fun _ ↦
      (Mirrors.forM fun _ ↦ .forM fun _ ↦ mirrors_testPair _ _ _ _).bind fun _ ↦ mirrors_settle

end Batch
end RayAdjacency
