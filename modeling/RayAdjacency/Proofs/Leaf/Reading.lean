import RayAdjacency.LeafTest
import RayAdjacency.Proofs.Root.Build

/-!
# Reading the rays of terminal nodes

A comparison of leaves collects the rays of its two nodes before it tests any pair. Collecting is
reading one ray after the other (`Batch.readFrom`); a node of a single ray needs no read. What is
collected are the indices of the node with their patterns.
-/

namespace RayAdjacency

namespace Batch

variable {site : SearchSite} {env : Interference} {side : Side} {b : Batch}

/-- Reads `count` rays from index `i` on. -/
def readFrom (site : SearchSite) (env : Interference) (side : Side) :
    Nat → Nat → BatchM (List (Nat × Pattern))
  | 0, _ => return []
  | count + 1, i => do
    let ray ← read site env side i
    let rest ← readFrom site env side count (i + 1)
    return (i, ray.pattern) :: rest

private theorem run_collectFrom (count i : Nat) (b : Batch) :
    (match (Node.collectFrom (fun i ↦ (read site env side i).run) count i).run b with
      | ((rays, .ok ()), b') => (Except.ok rays, b')
      | ((_, .error stop), b') => (.error stop, b')) = (readFrom site env side count i).run.run b := by
  induction count generalizing i b with
  | zero => rfl
  | succ count ih =>
    rw [readFrom, Node.collectFrom, StateT.run_bind, ExceptT.run_bind, StateT.run_bind]
    rcases hread : (read site env side i).run.run b with ⟨stop | ray, b'⟩
    · rfl
    · have hrest := ih (i + 1) b'
      change (match (Node.collectFrom (fun i ↦ (read site env side i).run) count (i + 1) >>=
          fun x ↦ pure ((i, ray.pattern) :: x.1, x.2)).run b' with
        | ((rays, .ok ()), b') => (Except.ok rays, b')
        | ((_, .error stop), b') => (.error stop, b')) =
          (readFrom site env side count (i + 1) >>= fun rest ↦ pure ((i, ray.pattern) :: rest)).run.run b'
      rw [StateT.run_bind, ExceptT.run_bind, StateT.run_bind, ← hrest]
      rcases (Node.collectFrom (fun i ↦ (read site env side i).run) count (i + 1)).run b' with
        ⟨⟨rest, stop | _⟩, b''⟩ <;> rfl

/-- Collecting the rays of a leaf is reading its window. -/
theorem collect_leaf (union : Pattern) (start stop : Nat) :
    collect site env side (.leaf union start stop) = readFrom site env side (stop - start) start := by
  funext b
  change _ = (readFrom site env side (stop - start) start).run.run b
  rw [← run_collectFrom]
  change ((Node.collectFrom (fun i ↦ (read site env side i).run) (stop - start) start >>= fun x ↦
    (liftExcept x.2 >>= fun _ ↦ pure x.1 : BatchM _).run).run b) = _
  rw [StateT.run_bind]
  rcases (Node.collectFrom (fun i ↦ (read site env side i).run) (stop - start) start).run b with
    ⟨⟨rays, stop | _⟩, b'⟩ <;> rfl

end Batch

/-- The rays of each store lie in one buffer, and a ray takes more than two words. -/
def Stores.InMemory (s : Stores) : Prop := ∀ side, 16 * (s.side side).size ≤ bufferLimit

/-- A site whose comparisons never stop: no read is refused, and a delegate always answers. -/
structure SearchSite.Quiet (site : SearchSite) (env : Interference) : Prop where
  answers : ∀ side, (site.stores.side side).Readable
  read : ∀ k side i, env.read k side i = none
  judge : ∀ k, env.judge k = none
  decides : ∀ decide, site.test = .rank decide → ∀ p n z, ∃ verdict, decide p n z = .ok verdict
  inMemory : site.stores.InMemory

/-- A site whose rays can all be read, whatever becomes of exchanges and of the delegate. -/
structure SearchSite.Readable (site : SearchSite) (env : Interference) : Prop where
  answers : ∀ side, (site.stores.side side).Readable
  read : ∀ k side i, env.read k side i = none
  inMemory : site.stores.InMemory

/-- Where nothing is refused no read is. -/
theorem SearchSite.Quiet.readable {site : SearchSite} {env : Interference} (h : site.Quiet env) :
    site.Readable env :=
  ⟨h.answers, h.read, h.inMemory⟩

namespace Batch

variable {site : SearchSite} {env : Interference} {side : Side} {b b' b'' : Batch}

/-- A batch in which only reads have been counted. -/
def OnlyRead (b b' : Batch) : Prop := b' = { b with reads := b'.reads }

/-- Nothing has been read of a batch that nobody touches. -/
theorem OnlyRead.refl (b : Batch) : OnlyRead b b := rfl

/-- What is only read twice in a row is only read. -/
theorem OnlyRead.trans (h : OnlyRead b b') (h' : OnlyRead b' b'') : OnlyRead b b'' := by
  rw [OnlyRead] at h h' ⊢
  rw [h', h]

/-- Reading gives the ray at the index, unless it is refused. -/
theorem ends_read (side : Side) {i : Nat} (hi : i < (site.stores.side side).size) :
    Ends (read site env side i) b
      (fun ray b' ↦ OnlyRead b b' ∧ (site.stores.side side).rays[i]? = some ray)
      fun _ _ ↦ ¬site.Readable env := by
  have hget : (site.stores.side side).rays[i]? = some _ := Array.getElem?_eq_getElem hi
  simp only [read, ends_bind, ends_get, ends_set, Store.answer, hget]
  cases hstore : (site.stores.side side).refusals.read b.reads i (site.stores.side side).rays[i] with
  | some failure =>
    change ¬site.Readable env
    intro hreadable
    rw [hreadable.answers side _ _ _ hget] at hstore
    cases hstore
  | none =>
    rw [ends_liftExcept_ok]
    cases henv : env.read b.reads side i with
    | some failure =>
      change ¬site.Readable env
      intro hreadable
      rw [hreadable.read] at henv
      cases henv
    | none => exact ⟨rfl, rfl⟩

/-- Reading a window of the store gives its rays in order. -/
theorem ends_readFrom {count i : Nat} (hi : i + count ≤ (site.stores.side side).size) :
    Ends (readFrom site env side count i) b
      (fun rays b' ↦ OnlyRead b b' ∧ rays.map Prod.fst = List.range' i count ∧
        ∀ ray ∈ rays, (site.stores.side side).pattern? ray.1 = some ray.2)
      fun _ _ ↦ ¬site.Readable env := by
  induction count generalizing i b with
  | zero => exact ⟨.refl b, rfl, fun _ h ↦ absurd h List.not_mem_nil⟩
  | succ count ih =>
    refine (ends_read side (by omega)).bind ?_
    rintro ray b₁ ⟨hb₁, hray⟩
    refine (ih (by omega)).bind ?_
    rintro rays b₂ ⟨hb₂, hindices, hpatterns⟩
    refine ⟨hb₁.trans hb₂, ?_, fun x hx ↦ ?_⟩
    · rw [List.map_cons, hindices, List.range'_succ]
    · rcases List.mem_cons.mp hx with rfl | hx
      · rw [Store.pattern?, hray, Option.map_some]
      · exact hpatterns x hx

/-- The rays of a terminal node: its indices with their patterns. -/
structure Collected (store : Store) (n : Node) (rays : List (Nat × Pattern)) : Prop where
  indices_eq : rays.map Prod.fst = n.indices
  pattern_eq : ∀ ray ∈ rays, store.pattern? ray.1 = some ray.2

/-- Collecting gives the rays of a terminal node, unless a read is refused. -/
theorem ends_collect (side : Side) {n : Node} (hn : n.isInternal = false)
    (h : n.Covers (site.stores.side side)) : Ends (collect site env side n) b
      (fun rays b' ↦ OnlyRead b b' ∧ Collected (site.stores.side side) n rays)
      fun _ _ ↦ ¬site.Readable env := by
  cases n with
  | fork union left right => cases hn
  | wide union children => cases hn
  | leaf union start stop =>
    rw [collect_leaf]
    rcases Nat.lt_or_ge start stop with hlt | hge
    · have hlast : stop - 1 ∈ (Node.leaf union start stop).indices := by
        rw [Node.indices, Node.mem_indicesFrom]
        omega
      obtain ⟨z, hz, -⟩ := h.subset_union _ hlast
      have hsize := Store.lt_size_of_pattern hz
      refine (ends_readFrom (by omega)).mono (fun rays b' hrays ↦ ?_) fun _ _ hbad ↦ hbad
      exact ⟨hrays.1, by rw [hrays.2.1, Node.indices, Node.indicesFrom], hrays.2.2⟩
    · rw [Nat.sub_eq_zero_of_le hge]
      refine ⟨.refl b, ?_, fun _ h ↦ absurd h List.not_mem_nil⟩
      rw [Node.indices, Node.indicesFrom, Nat.sub_eq_zero_of_le hge]
      rfl
  | single union index =>
    refine ⟨.refl b, rfl, fun ray hray ↦ ?_⟩
    obtain rfl := List.mem_singleton.mp hray
    exact h.single union index rfl
  | empty union => exact ⟨.refl b, rfl, fun _ h ↦ absurd h List.not_mem_nil⟩

private theorem ends_liftExcept_of_readable {α : Type} {o : Outcome α} {a : α}
    (h : site.Readable env → o = .ok a) :
    Ends (liftExcept o : BatchM α) b (fun _ b' ↦ b' = b) fun _ _ ↦ ¬site.Readable env := by
  cases o with
  | ok a => rfl
  | error stop => exact fun hreadable ↦ by cases h hreadable

/-- The buffer for the rays of a terminal node can be set up. -/
theorem ends_reserve (side : Side) {n : Node} (h : n.Covers (site.stores.side side)) :
    Ends (reserve n) b (fun _ b' ↦ b' = b) fun _ _ ↦ ¬site.Readable env := by
  have hinside {i : Nat} (hi : i ∈ n.indices) : i < (site.stores.side side).size := by
    obtain ⟨z, hz, -⟩ := h.subset_union i hi
    exact Store.lt_size_of_pattern hz
  have hbuffer {size : Nat} (hsize : size ≤ (site.stores.side side).size)
      (hreadable : site.Readable env) : Outcome.reserve 16 size = .ok () :=
    Outcome.reserve_of_le (Nat.le_trans (Nat.mul_le_mul_left _ hsize) (hreadable.inMemory side))
  cases n with
  | leaf union start stop =>
    refine ends_liftExcept_of_readable (hbuffer ?_)
    rcases Nat.lt_or_ge start stop with hlt | hge
    · have hlast : stop - 1 < (site.stores.side side).size := hinside (by
        rw [Node.indices, Node.mem_indicesFrom]
        omega)
      omega
    · omega
  | single union index =>
    have hlt : index < (site.stores.side side).size := hinside (by rw [Node.indices]; exact .head _)
    rw [reserve, Node.window]
    by_cases hlimit : index + 1 < wordLimit
    · rw [Outcome.add_of_lt hlimit]
      exact ends_liftExcept_of_readable (hbuffer (by omega))
    · rw [Outcome.add, if_neg hlimit]
      change ¬site.Readable env
      intro hreadable
      have := hreadable.inMemory side
      rw [bufferLimit] at this
      rw [wordLimit] at hlimit
      omega
  | fork union left right => exact ends_liftExcept_of_readable (hbuffer (Nat.zero_le _))
  | wide union children => exact ends_liftExcept_of_readable (hbuffer (Nat.zero_le _))
  | empty union => exact ends_liftExcept_of_readable (hbuffer (Nat.zero_le _))

/-- What only a refused read stops, nothing stops where nothing is refused. -/
theorem ends_quietly {α : Type} {m : BatchM α} {good : α → Batch → Prop}
    (h : Ends m b good fun _ _ ↦ ¬site.Readable env) :
    Ends m b good fun _ _ ↦ ¬site.Quiet env :=
  h.mono (fun _ _ h ↦ h) fun _ _ hbad hquiet ↦ hbad hquiet.readable

end Batch
end RayAdjacency
