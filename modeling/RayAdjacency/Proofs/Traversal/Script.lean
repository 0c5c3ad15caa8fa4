import Mathlib.Logic.Relation
import RayAdjacency.Proofs.Traversal.Ending

/-!
# Scripted searches

Neither a store nor a delegate has to answer twice in the same way. A `Script` says how they answer
during each comparison, by the number of comparisons begun before it. Where comparisons are made in
one order, that number stands for all that has happened before, so the scripts cover all ways in
which stores and a delegate may behave.

A thread on its own can do nothing but its next step. `Takes` counts such steps; every run under the
script comes to where they lead.
-/

namespace RayAdjacency

/-- How stores and delegate answer during one comparison. -/
structure Episode where
  stores : Stores
  test : AdjacencyTest
  interference : Interference := {}

/-- How stores and delegate answer, by the number of comparisons begun before. -/
abbrev Script := Nat → Episode

/-- A site as it is during one comparison. -/
def SearchSite.during (site : SearchSite) (e : Episode) : SearchSite :=
  { site with stores := e.stores, test := e.test }

/-- The script of stores and a delegate that never change. -/
def SearchSite.steady (site : SearchSite) : Script := fun _ ↦ ⟨site.stores, site.test, {}⟩

/-- A plan as it is during one comparison. -/
def Plan.during (plan : Plan) (e : Episode) : Plan := { plan with site := plan.site.during e }

/-- What a search has found: the pairs appended, the questions asked, and the number of comparisons
begun. -/
structure Findings where
  sink : Array IndexPair := #[]
  asked : Array Question := #[]
  begun : Nat := 0

namespace SearchSite

variable (site : SearchSite) (script : Script)

/-- Compares the rays of two terminal nodes. Nothing is appended if the comparison fails. -/
def compareNext (p : NodePair) : ExceptT Stop (StateM Findings) Unit := do
  let f ← get
  let e := script f.begun
  let (outcome, batch) := (Batch.compare (site.during e) e.interference p).run.run {}
  set { f with asked := f.asked ++ batch.asked, begun := f.begun + 1 }
  liftExcept outcome
  modify fun f ↦ { f with sink := f.sink ++ batch.accepted }

/-- Makes comparisons in order, up to the first that fails. -/
def compareAll (ps : List NodePair) : ExceptT Stop (StateM Findings) Unit :=
  ps.forM (site.compareNext script)

/-- Pairs put together are compared one after the other. -/
theorem compareAll_append (ps qs : List NodePair) : site.compareAll script (ps ++ qs) =
    site.compareAll script ps >>= fun _ ↦ site.compareAll script qs := by
  simp only [compareAll, List.forM_eq_forM, List.forM_append]

variable {site script}

/-- A comparison appends what it accepts, unless it fails. -/
theorem run_compareAll_singleton {p : NodePair} {f : Findings} {o : Outcome Unit} {batch : Batch}
    (h : (Batch.compare (site.during (script f.begun)) (script f.begun).interference p).run.run {}
      = (o, batch)) :
    (site.compareAll script [p]).run.run f =
      (o, { sink := if o.isOk then f.sink ++ batch.accepted else f.sink
            asked := f.asked ++ batch.asked
            begun := f.begun + 1 }) := by
  have hnext : (site.compareNext script p).run.run f =
      (o, { sink := if o.isOk then f.sink ++ batch.accepted else f.sink
            asked := f.asked ++ batch.asked
            begun := f.begun + 1 }) := by
    have hget : (get : ExceptT Stop (StateM Findings) Findings).run.run f = (.ok f, f) := rfl
    rw [compareNext, run_bind, hget]
    dsimp only
    rw [h]
    cases o <;> rfl
  change (site.compareNext script p >>= fun _ ↦ site.compareAll script []).run.run f = _
  rw [run_bind, hnext]
  cases o <;> rfl

end SearchSite

/-- The number of comparisons that a thread begins in its next step. -/
def Thread.comparing (t : Thread) : Nat :=
  match t.task with
  | .compare _ => 1
  | _ => 0

/-- A moment of a scripted search: the threads, and the number of comparisons begun. -/
structure Scene where
  machine : Machine
  begun : Nat := 0

namespace Scene

/-- What has been found so far. -/
def findings (c : Scene) : Findings := ⟨c.machine.shared.sink, c.machine.shared.asked, c.begun⟩

/-- A step of any thread under a script. Besides stores and delegate, the environment decides what
it likes. -/
inductive Next (plan : Plan) (script : Script) (c : Scene) : Scene → Prop
  | step {choice : Choice} {t : Thread} {m : Machine} (hactor : c.machine.actor choice = some t)
      (hscript : choice.interference = (script c.begun).interference)
      (hstep : c.machine.step (plan.during (script c.begun)) choice = some m) :
      Next plan script c ⟨m, c.begun + t.comparing⟩

/-- A run of any length. -/
def Runs (plan : Plan) (script : Script) : Scene → Scene → Prop :=
  Relation.ReflTransGen (Next plan script)

/-- All runs come to one outcome, with the same findings. -/
structure ComesTo (plan : Plan) (script : Script) (c : Scene) (o : Outcome Unit) (f : Findings) :
    Prop where
  /-- No run goes on for ever. -/
  finite : Acc (fun d c ↦ Next plan script c d) c
  /-- A run that cannot go on has come to the outcome. -/
  ended : ∀ d, Runs plan script c d → (∀ e, ¬Next plan script d e) → d.machine.outcome? = some o
  /-- No run comes to anything else. -/
  unique : ∀ d, Runs plan script c d → ∀ o', d.machine.outcome? = some o' →
    o' = o ∧ d.findings = f

end Scene

/-! ### One thread -/

/-- What the threads share, and the number of comparisons begun. -/
structure Setting where
  shared : Shared
  begun : Nat := 0

namespace Setting

/-- What has been found so far. -/
def findings (a : Setting) : Findings := ⟨a.shared.sink, a.shared.asked, a.begun⟩

/-- A thread on its own. -/
def scene (a : Setting) (t : Thread) : Scene := ⟨⟨t, [], a.shared⟩, a.begun⟩

end Setting

/-- The next step of a thread on its own, whatever the environment decides besides the script. -/
structure Forced (plan : Plan) (script : Script) (t : Thread) (a : Setting) (t' : Thread)
    (a' : Setting) : Prop where
  ready : ∀ chance, t.isBlocked (plan.during (script a.begun)) chance true a.shared = false
  move : ∀ chance, chance.interference = (script a.begun).interference →
    t.advance (plan.during (script a.begun)) chance true a.shared = ⟨some t', a'.shared, none⟩
  begun_eq : a'.begun = a.begun + t.comparing

/-- The steps of a thread on its own. -/
inductive Takes (plan : Plan) (script : Script) : Nat → Thread → Setting → Thread → Setting → Prop
  | refl (t : Thread) (a : Setting) : Takes plan script 0 t a t a
  | step {n : Nat} {t t' t'' : Thread} {a a' a'' : Setting} (h : Forced plan script t a t' a')
      (hrest : Takes plan script n t' a' t'' a'') : Takes plan script (n + 1) t a t'' a''

variable {plan : Plan} {script : Script} {limit : Option Nat} {now : Duration} {n n' : Nat}
  {t t' t'' : Thread} {a a' a'' : Setting}

namespace Forced

/-- A forced step is a run of one step. -/
theorem takes (h : Forced plan script t a t' a') : Takes plan script 1 t a t' a' :=
  .step h (.refl t' a')

/-- No other step can be taken. -/
theorem next_iff (h : Forced plan script t a t' a') {c : Scene} :
    Scene.Next plan script (a.scene t) c ↔ c = a'.scene t' := by
  constructor
  · rintro ⟨hactor, hscript, hstep⟩
    have hmove := h.move _ hscript
    obtain ⟨u, hu, hmoved⟩ := Machine.moved_of_step (fun hnone ↦ by
      cases (congrArg Move.thread hmove).symm.trans hnone) hstep
    obtain rfl := Option.some.inj (hu.symm.trans hactor)
    cases hmoved with
    | caller hready hcaller =>
      obtain ⟨ht, hs, hstarted⟩ := Move.mk.inj (hmove.symm.trans hcaller)
      cases ht
      subst hs hstarted
      exact congrArg (Scene.mk _) h.begun_eq.symm
    | worker hworkers hready hworker => simp [Setting.scene] at hworkers
  · rintro rfl
    let chance : Chance := { interference := (script a.begun).interference }
    have hready : (⟨t, [], a.shared⟩ : Machine).isReady (plan.during (script a.begun)) chance t
        = true := by simp [Machine.isReady, h.ready chance]
    have hstep : (⟨t, [], a.shared⟩ : Machine).step (plan.during (script a.begun))
        { chance with worker := none } = some ⟨t', [], a'.shared⟩ := by
      change Machine.stepCaller _ chance _ = _
      rw [Machine.stepCaller, if_pos hready]
      simp [h.move chance rfl]
    change Scene.Next plan script (a.scene t) ⟨⟨t', [], a'.shared⟩, a'.begun⟩
    rw [h.begun_eq]
    exact .step rfl rfl hstep

end Forced

namespace Takes

/-- The steps of a thread on its own can be put together. -/
theorem trans (h : Takes plan script n t a t' a') (h' : Takes plan script n' t' a' t'' a'') :
    Takes plan script (n + n') t a t'' a'' := by
  induction h with
  | refl => rwa [Nat.zero_add]
  | step h _ ih =>
    rw [Nat.add_right_comm]
    exact .step h (ih h')

private theorem not_next_of_outcome {o : Outcome Unit}
    (ho : (a.scene t).machine.outcome? = some o) (c : Scene) :
    ¬Scene.Next plan script (a.scene t) c := by
  obtain ⟨hframes, htask⟩ := Thread.outcome?_eq_some ho
  have hblocked (chance : Chance) :
      t.isBlocked (plan.during (script a.begun)) chance true a.shared = true := by
    change t.frames = [] at hframes
    change t.task = .ret o at htask
    simp [Thread.isBlocked, htask, hframes]
  rintro ⟨hactor, hscript, hstep⟩
  rename_i choice u m
  cases hworker : choice.worker with
  | none =>
    rw [Machine.step, hworker] at hstep
    change Machine.stepCaller _ choice.toChance _ = some m at hstep
    rw [Machine.stepCaller, Machine.isReady] at hstep
    have hready := hblocked choice.toChance
    change t.isBlocked _ _ true a.shared = true at hready
    simp [Setting.scene, hready] at hstep
  | some i =>
    rw [Machine.actor, hworker] at hactor
    simp [Setting.scene] at hactor

/-- Every run comes to where the steps of a thread on its own lead. -/
theorem comesTo (h : Takes plan script n t a t' a') {o : Outcome Unit}
    (ho : t'.outcome? = some o) : (a.scene t).ComesTo plan script o a'.findings := by
  induction h with
  | refl t a =>
    have hstuck : ∀ c, ¬Scene.Next plan script (a.scene t) c := not_next_of_outcome ho
    have hsame {d : Scene} (hd : Scene.Runs plan script (a.scene t) d) : d = a.scene t := by
      rcases Relation.ReflTransGen.cases_head hd with rfl | ⟨c, hc, -⟩
      · rfl
      · exact absurd hc (hstuck c)
    constructor
    · exact ⟨_, fun c hc ↦ absurd hc (hstuck c)⟩
    · intro d hd _
      rw [hsame hd]
      exact ho
    · intro d hd o' ho'
      rw [hsame hd] at ho' ⊢
      exact ⟨Option.some.inj (ho'.symm.trans ho), rfl⟩
  | @step n t t' _ a a' _ hforced _ ih =>
    have ih := ih ho
    constructor
    · exact ⟨_, fun c hc ↦ hforced.next_iff.mp hc ▸ ih.finite⟩
    · intro d hd hrest
      rcases Relation.ReflTransGen.cases_head hd with rfl | ⟨c, hc, hd⟩
      · exact absurd (hforced.next_iff.mpr rfl) (hrest _)
      · obtain rfl := hforced.next_iff.mp hc
        exact ih.ended d hd hrest
    · intro d hd o' ho'
      rcases Relation.ReflTransGen.cases_head hd with rfl | ⟨c, hc, hd⟩
      · exact absurd (hforced.next_iff.mpr rfl) (not_next_of_outcome ho' _)
      · obtain rfl := hforced.next_iff.mp hc
        exact ih.unique d hd o' ho'

/-- The fixed order follows the script of stores and a delegate that never change. -/
theorem reaches (h : Takes plan plan.site.steady n t a t' a') :
    Machine.Reaches plan limit now n ⟨t, [], a.shared⟩ ⟨t', [], a'.shared⟩ := by
  induction h with
  | refl => exact .refl _
  | step h _ ih =>
    rw [Nat.add_comm]
    exact (Machine.reaches_step (h.ready _) (h.move _ rfl)).trans ih

end Takes
end RayAdjacency
