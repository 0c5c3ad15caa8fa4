import RayAdjacency.Proofs.Sharing.Roster
import RayAdjacency.Sharing.Nursery

/-!
# Children and their registry

Who has registered a child owes its end until the child has a thread of its own; from then on the
child does. The number of active children is the number of those who owe an end
(`Nursery.Orderly.counted`). Since a child that registers one of its own is active itself, the
number stays zero once it is, as long as only children start children, and whoever has joined by
then has waited for all (`Nursery.Quiet.onward`).
-/

namespace RayAdjacency

namespace Member

/-- Whether a member is a child that has not been signed off. -/
def isUnfinished : Member → Bool
  | ⟨some _, .over⟩ => false
  | ⟨name, _⟩ => name.isSome

/-- Whether a member has registered a child that has no thread. -/
def isOwing (m : Member) : Bool :=
  match m.pursuit with
  | .hiring _ | .refused => true
  | _ => false

/-- How many children a member keeps active. -/
def owed (m : Member) : Nat := (if m.isUnfinished then 1 else 0) + if m.isOwing then 1 else 0

/-- How many children several members keep active. -/
def owedBy (members : List Member) : Nat := members.countP isUnfinished + members.countP isOwing

variable {members : List Member} {i : Nat} {m m' : Member}

/-- When a member turns to something else, what all owe changes by what it owes. -/
theorem owedBy_set_add (h : members[i]? = some m) (m' : Member) :
    owedBy (members.set i m') + m.owed = owedBy members + m'.owed := by
  have hunfinished := Roster.countP_set_add h isUnfinished m'
  have howing := Roster.countP_set_add h isOwing m'
  simp only [owedBy, owed]
  omega

/-- It does not change if the member owes as much as before. -/
theorem owedBy_set_of_eq (h : members[i]? = some m) (howed : m'.owed = m.owed) :
    owedBy (members.set i m') = owedBy members := by
  have := owedBy_set_add h m'
  omega

/-- Members put together owe the sum of what they owe. -/
theorem owedBy_append (members others : List Member) :
    owedBy (members ++ others) = owedBy members + owedBy others := by
  simp only [owedBy, List.countP_append]
  omega

/-- No member owes more than all do. -/
theorem le_owedBy (h : members[i]? = some m) : m.owed ≤ owedBy members := by
  have := owedBy_set_add h ⟨none, .running⟩
  have hnone : owed ⟨none, .running⟩ = 0 := rfl
  omega

/-- Those who are woken owe what they owed. -/
theorem owedBy_map_rouse (members : List Member) :
    owedBy (members.map rouse) = owedBy members := by
  have hrouse (m : Member) :
      m.rouse.isUnfinished = m.isUnfinished ∧ m.rouse.isOwing = m.isOwing := by
    rcases m with ⟨name, pursuit⟩
    cases name <;> cases pursuit <;> exact ⟨rfl, rfl⟩
  simp only [owedBy, List.countP_map]
  congr 2
  · exact funext fun m ↦ (hrouse m).1
  · exact funext fun m ↦ (hrouse m).2

/-- Nothing is owed just if every member has finished and owes no sign. -/
theorem owedBy_eq_zero : owedBy members = 0 ↔
    ∀ m ∈ members, m.isUnfinished = false ∧ m.isOwing = false := by
  simp only [owedBy, Nat.add_eq_zero_iff, List.countP_eq_zero, Bool.not_eq_true, ← forall_and]

end Member

/-! ### Steps -/

/-- What a member turns to without a look at the registry. -/
inductive Pursuit.Moves : Pursuit → Pursuit → Prop
  | refuse (name : String) : Moves (.hiring name) .refused
  | join : Moves .running (.joining false)
  | wake : Moves (.joining true) (.joining false)
  | leave (outcome : Except Failure Unit) : Moves (.joined outcome) .running

/-- What a member turns to when it signs a child off. -/
inductive Pursuit.Signs : Option String → Pursuit → Pursuit → Prop
  /-- The child has been refused a thread. -/
  | retract (self : Option String) : Signs self .refused .running
  /-- The child is the member itself. -/
  | finish (name : String) : Signs (some name) .running .over

section

variable {self : Option String} {pursuit next : Pursuit}

/-- A member that goes on by itself owes what it owed. -/
theorem Pursuit.Moves.owed_eq (h : Moves pursuit next) (self : Option String) :
    Member.owed ⟨self, next⟩ = Member.owed ⟨self, pursuit⟩ := by
  cases h <;> cases self <;> rfl

/-- A member that signs off owes one sign less. -/
theorem Pursuit.Signs.owed_eq (h : Signs self pursuit next) :
    Member.owed ⟨self, pursuit⟩ = Member.owed ⟨self, next⟩ + 1 := by
  cases h with
  | retract => cases self <;> rfl
  | finish => rfl

end

namespace FailureEvent

/-- The failure that has been recorded in an event. -/
def recorded? : FailureEvent → Option Failure
  | recorded failure => some failure
  | taken _ => none

/-- The failure that has been handed out in an event. -/
def taken? : FailureEvent → Option Failure
  | taken (.error failure) => some failure
  | _ => none

/-- The failures that have been recorded since a join has last taken one, the latest at the head. -/
def sinceTaken : List FailureEvent → List Failure
  | recorded failure :: events => failure :: sinceTaken events
  | _ => []

/-- The first of the failures that have been recorded since a join has last taken one. -/
def verdict (history : List FailureEvent) : Except Failure Unit :=
  match (sinceTaken history).getLast? with
  | some failure => .error failure
  | none => .ok ()

/-- A failure is the one at hand after some events: it is the first one since a join has taken one,
and each failure at hand or handed out has been recorded for itself. -/
structure Leads (history : List FailureEvent) (slot : Option Failure) : Prop where
  first : slot = (sinceTaken history).getLast?
  once : (slot.toList ++ history.filterMap taken?).Sublist (history.filterMap recorded?)

namespace Leads

variable {history : List FailureEvent} {slot : Option Failure}

/-- Without a history there is no failure. -/
theorem start : Leads [] none := ⟨rfl, .slnil⟩

/-- A failure that is recorded is at hand unless there is one. -/
theorem record (h : Leads history slot) (failure : Failure) :
    Leads (.recorded failure :: history) (slot <|> some failure) := by
  refine ⟨?_, ?_⟩
  · rw [sinceTaken, List.getLast?_cons, ← h.first]
    cases slot <;> rfl
  · have honce := h.once
    cases slot with
    | none => exact honce.cons_cons failure
    | some first => exact honce.cons failure

/-- A join leaves none. -/
theorem take (h : Leads history slot) : Leads (.taken (verdict history) :: history) none := by
  refine ⟨rfl, ?_⟩
  have honce := h.once
  rw [verdict, ← h.first]
  cases slot <;> exact honce

end Leads

end FailureEvent

/-- A join hands out the verdict of the history, and forgets the failure. -/
theorem Children.join_eq {c : Children} {history : List FailureEvent}
    (h : FailureEvent.Leads history c.failure) :
    c.join = (FailureEvent.verdict history, { c with failure := none }) := by
  rw [join, FailureEvent.verdict, ← h.first]
  rcases c with ⟨active, spawned, _ | failure⟩ <;> rfl

namespace Nursery

open FailureEvent (recorded? taken? sinceTaken verdict)

variable {members : Nat} {n n' : Nursery} {act : NurseryStep}

/-- What one step does, by what it does to the registry. -/
inductive Turned (n : Nursery) : NurseryStep → Nursery → Prop
  | registered {i : Nat} {self : Option String} {name : String}
      (h : n.members[i]? = some ⟨self, .running⟩) : Turned n (.register i name)
        ({ n with registry := n.registry.register }.setMember i self (.hiring name))
  | launched {act : NurseryStep} {i : Nat} {self : Option String} {name : String}
      (h : n.members[i]? = some ⟨self, .hiring name⟩) : Turned n act
        { n with members := n.members.set i ⟨self, .running⟩ ++ [⟨some name, .running⟩] }
  | moved {act : NurseryStep} {i : Nat} {self : Option String} {pursuit next : Pursuit}
      (h : n.members[i]? = some ⟨self, pursuit⟩) (hmoves : pursuit.Moves next) :
      Turned n act (n.setMember i self next)
  | signed {act : NurseryStep} {i : Nat} {self : Option String} {pursuit next : Pursuit}
      {outcome : Except Failure Unit} (h : n.members[i]? = some ⟨self, pursuit⟩)
      (hsigns : pursuit.Signs self next) : Turned n act ((n.setMember i self next).signOff outcome)
  | recorded {act : NurseryStep} {failure : Failure} : Turned n act
      { n with registry := n.registry.record failure, history := .recorded failure :: n.history }
  | slept {act : NurseryStep} {i : Nat} {self : Option String}
      (h : n.members[i]? = some ⟨self, .joining false⟩) (hactive : 0 < n.registry.active) :
      Turned n act (n.setMember i self (.joining true))
  | took {act : NurseryStep} {i : Nat} {self : Option String}
      (h : n.members[i]? = some ⟨self, .joining false⟩) (hactive : n.registry.active = 0) :
      Turned n act { n.setMember i self (.joined n.registry.join.1) with
        registry := n.registry.join.2
        history := .taken n.registry.join.1 :: n.history }

/-- Whatever step is taken, it is one of these. -/
theorem turned_of_step (hstep : n.step act = some n') : Turned n act n' := by
  cases act with
  | look i =>
    rw [step] at hstep
    split at hstep
    · next hmember =>
      split at hstep
      · next hactive =>
        cases hstep
        exact .slept hmember hactive
      · next hactive =>
        cases hstep
        exact .took hmember (Nat.eq_zero_of_not_pos hactive)
    · cases hstep
  | record i failure =>
    rw [step] at hstep
    split at hstep <;> cases hstep <;> exact .recorded
  | _ =>
    rw [step] at hstep
    split at hstep
    · next hmember =>
      cases hstep
      first
        | exact .registered hmember
        | exact .launched hmember
        | exact .signed hmember (.retract _)
        | exact .signed hmember (.finish _)
        | exact .moved hmember (.refuse _)
        | exact .moved hmember .join
        | exact .moved hmember .wake
        | exact .moved hmember (.leave _)
    · cases hstep

/-- What is true of a nursery between two steps: as many children are active as its members keep
so, the failure at hand is the one that the events lead to, and nobody sleeps unless a child is
active. -/
structure Orderly (n : Nursery) : Prop where
  counted : n.registry.active = Member.owedBy n.members
  leads : FailureEvent.Leads n.history n.registry.failure
  awake : ∀ m ∈ n.members, m.pursuit = .joining true → 0 < n.registry.active

/-- At the start there is no child. -/
theorem orderly_ofMembers (members : Nat) : (ofMembers members).Orderly where
  counted := (Member.owedBy_eq_zero.mpr fun m hm ↦ by
    rw [List.eq_of_mem_replicate hm]
    exact ⟨rfl, rfl⟩).symm
  leads := .start
  awake m hm hasleep := by
    rw [List.eq_of_mem_replicate hm] at hasleep
    cases hasleep

private theorem awake_set {i : Nat} {m m' : Member} (h : n.Orderly)
    (hnext : m'.pursuit ≠ .joining true) (hm : m ∈ n.members.set i m')
    (hasleep : m.pursuit = .joining true) : 0 < n.registry.active := by
  rcases List.mem_or_eq_of_mem_set hm with hold | rfl
  · exact h.awake m hold hasleep
  · exact absurd hasleep hnext

namespace Orderly

/-- Signing a child off keeps a nursery in order. -/
theorem signed {i : Nat} {self : Option String} {pursuit next : Pursuit}
    {outcome : Except Failure Unit} (h : n.Orderly) (hi : n.members[i]? = some ⟨self, pursuit⟩)
    (hsigns : pursuit.Signs self next) : ((n.setMember i self next).signOff outcome).Orderly := by
  have hactive : (n.registry.finish outcome).active = n.registry.active - 1 := by
    cases outcome <;> rfl
  have howed := Member.owedBy_set_add hi ⟨self, next⟩
  have hcounted : n.registry.active - 1 = Member.owedBy (n.members.set i ⟨self, next⟩) := by
    rw [h.counted]
    rw [hsigns.owed_eq] at howed
    omega
  have hnext : next ≠ .joining true := by cases hsigns <;> exact Pursuit.noConfusion
  refine ⟨?_, ?_, fun m hm hasleep ↦ ?_⟩
  · show (n.registry.finish outcome).active = Member.owedBy (if _ then _ else _)
    split
    · rw [Member.owedBy_map_rouse, hactive]
      exact hcounted
    · rw [hactive]
      exact hcounted
  · cases outcome with
    | ok => exact h.leads
    | error failure => exact h.leads.record failure
  · change m ∈ (if (n.registry.finish outcome).active = 0 then _ else _) at hm
    show 0 < (n.registry.finish outcome).active
    split at hm
    · obtain ⟨⟨name, sleeper⟩, -, rfl⟩ := List.mem_map.mp hm
      cases sleeper <;> cases hasleep
    · omega

/-- Every step keeps a nursery in order. -/
theorem turned (h : n.Orderly) (hturned : Turned n act n') : n'.Orderly := by
  cases hturned with
  | @registered i self name hi =>
    have howed := Member.owedBy_set_add hi ⟨self, .hiring name⟩
    have hself : Member.owed ⟨self, .hiring name⟩ = Member.owed ⟨self, .running⟩ + 1 := by
      cases self <;> rfl
    refine ⟨?_, h.leads, fun m hm hasleep ↦ Nat.succ_pos _⟩
    show n.registry.active + 1 = Member.owedBy (n.members.set i ⟨self, .hiring name⟩)
    rw [h.counted]
    omega
  | @launched _ i self name hi =>
    have howed := Member.owedBy_set_add hi ⟨self, .running⟩
    have hself : Member.owed ⟨self, .hiring name⟩ = Member.owed ⟨self, .running⟩ + 1 := by
      cases self <;> rfl
    refine ⟨?_, h.leads, fun m hm hasleep ↦ ?_⟩
    · have hchild : Member.owedBy [⟨some name, .running⟩] = 1 := rfl
      rw [Member.owedBy_append, h.counted]
      omega
    · rcases List.mem_append.mp hm with hm | hm
      · exact (awake_set h Pursuit.noConfusion hm hasleep : 0 < n.registry.active)
      · obtain rfl := List.mem_singleton.mp hm
        cases hasleep
  | @moved _ i self pursuit next hi hmoves =>
    have hnext : next ≠ .joining true := by cases hmoves <;> simp
    exact ⟨h.counted.trans (Member.owedBy_set_of_eq hi (hmoves.owed_eq self)).symm, h.leads,
      fun m hm hasleep ↦ (awake_set h hnext hm hasleep : 0 < n.registry.active)⟩
  | signed hi hsigns => exact h.signed hi hsigns
  | @recorded _ failure => exact ⟨h.counted, h.leads.record failure, h.awake⟩
  | @slept _ i self hi hactive =>
    have howed : Member.owed ⟨self, .joining true⟩ = Member.owed ⟨self, .joining false⟩ := by
      cases self <;> rfl
    exact ⟨h.counted.trans (Member.owedBy_set_of_eq hi howed).symm, h.leads, fun _ _ _ ↦ hactive⟩
  | @took _ i self hi hactive =>
    rw [Children.join_eq h.leads]
    have howed : Member.owed ⟨self, .joined (verdict n.history)⟩ =
        Member.owed ⟨self, .joining false⟩ := by
      cases self <;> rfl
    exact ⟨h.counted.trans (Member.owedBy_set_of_eq hi howed).symm, h.leads.take,
      fun m hm hasleep ↦
        (awake_set h Pursuit.noConfusion hm hasleep : 0 < n.registry.active)⟩

end Orderly

/-- What can be reached is in order. -/
theorem Reachable.orderly (h : Reachable members n) : n.Orderly := by
  induction h with
  | start => exact orderly_ofMembers members
  | step _ hstep ih => exact ih.turned (turned_of_step hstep)

/-! ### Joining -/

/-- No child is registered that has not been signed off. -/
def Quiet (n : Nursery) : Prop :=
  ∀ m ∈ n.members, m.isUnfinished = false ∧ m.isOwing = false

/-- What a nursery may come to while only children start children. -/
inductive Onward (n : Nursery) : Nursery → Prop
  | refl : Onward n n
  | step {m m' : Nursery} {act : NurseryStep} (h : Onward n m) (hstep : m.step act = some m')
      (hchild : ∀ i name, act = .register i name →
        ∃ self pursuit, m.members[i]? = some ⟨some self, pursuit⟩) : Onward n m'

/-- Nobody is left to start a child once no child is active. -/
theorem Quiet.turned (h : n.Quiet) (hturned : Turned n act n')
    (hchild : ∀ i name, act = .register i name →
      ∃ self pursuit, n.members[i]? = some ⟨some self, pursuit⟩) : n'.Quiet := by
  have hnone {i : Nat} {m : Member} (hi : n.members[i]? = some m) : m.owed = 0 := by
    obtain ⟨hunfinished, howing⟩ := h m (List.mem_of_getElem? hi)
    rw [Member.owed, hunfinished, howing]
    rfl
  have hset {i : Nat} {m m' : Member} (hi : n.members[i]? = some m) (howed : m'.owed = m.owed) :
      ∀ x ∈ n.members.set i m', x.isUnfinished = false ∧ x.isOwing = false := by
    rw [← Member.owedBy_eq_zero, Member.owedBy_set_of_eq hi howed]
    exact Member.owedBy_eq_zero.mpr h
  cases hturned with
  | @registered i self name hi =>
    obtain ⟨self, pursuit, hself⟩ := hchild i name rfl
    rw [hi] at hself
    cases hself
    exact absurd (hnone hi) Nat.one_ne_zero
  | @launched _ i self name hi => exact absurd (h _ (List.mem_of_getElem? hi)).2 Bool.noConfusion
  | @moved _ i self pursuit next hi hmoves => exact hset hi (hmoves.owed_eq self)
  | @signed _ i self pursuit next outcome hi hsigns =>
    have := hnone hi
    rw [hsigns.owed_eq] at this
    cases this
  | recorded => exact h
  | @slept _ i self hi hactive => exact hset hi (by cases self <;> rfl)
  | @took _ i self hi hactive => exact hset hi (by cases self <;> rfl)

/-- Whoever joins goes on with that unless no child is active. -/
theorem Turned.joining (h : Turned n act n') (horderly : n.Orderly) {i : Nat}
    {name : Option String} {asleep : Bool} (hi : n.members[i]? = some ⟨name, .joining asleep⟩) :
    (∃ asleep, n'.members[i]? = some ⟨name, .joining asleep⟩) ∨ n.Quiet := by
  have hset {k : Nat} {m : Member} (m' : Member) (hk : n.members[k]? = some m)
      (hm : ∀ name asleep, m ≠ ⟨name, .joining asleep⟩) :
      (n.members.set k m')[i]? = some ⟨name, .joining asleep⟩ := by
    rw [List.getElem?_set_ne, hi]
    rintro rfl
    rw [hi] at hk
    exact hm name asleep (Option.some.inj hk).symm
  cases h with
  | registered hk => exact .inl ⟨asleep, hset _ hk (by simp)⟩
  | @launched _ k self _ hk =>
    have hold := hset ⟨self, .running⟩ hk (by simp)
    have hlt := (List.getElem?_eq_some_iff.mp hold).1
    exact .inl ⟨asleep, (List.getElem?_append_left hlt).trans hold⟩
  | @moved _ k self pursuit next hk hmoves =>
    by_cases hki : k = i
    · subst hki
      rw [hi] at hk
      cases hk
      cases hmoves
      exact .inl ⟨false, List.getElem?_set_self (List.getElem?_eq_some_iff.mp hi).1⟩
    · exact .inl ⟨asleep, (List.getElem?_set_ne hki).trans hi⟩
  | @signed _ k self _ next outcome hk hsigns =>
    have hold := hset ⟨self, next⟩ hk (by cases hsigns <;> simp)
    left
    dsimp only [signOff, setMember]
    split
    · exact ⟨false, by rw [List.getElem?_map, hold]; rfl⟩
    · exact ⟨asleep, hold⟩
  | recorded => exact .inl ⟨asleep, hi⟩
  | @slept _ k self hk hactive =>
    by_cases hki : k = i
    · subst hki
      rw [hi] at hk
      cases hk
      exact .inl ⟨true, List.getElem?_set_self (List.getElem?_eq_some_iff.mp hi).1⟩
    · exact .inl ⟨asleep, (List.getElem?_set_ne hki).trans hi⟩
  | took hk hactive =>
    refine .inr (Member.owedBy_eq_zero.mp ?_)
    rw [← horderly.counted, hactive]

/-- What is reached onward is reached. -/
theorem Onward.reachable (h : n.Onward n') (hn : Reachable members n) : Reachable members n' := by
  induction h with
  | refl => exact hn
  | step _ hstep _ ih => exact .step ih hstep

/-- As long as only children start children, whoever joins goes on with that until none is left. -/
theorem Onward.joining (h : n.Onward n') (hn : Reachable members n) {i : Nat}
    {name : Option String} {asleep : Bool} (hi : n.members[i]? = some ⟨name, .joining asleep⟩) :
    (∃ asleep, n'.members[i]? = some ⟨name, .joining asleep⟩) ∨ n'.Quiet := by
  induction h with
  | refl => exact .inl ⟨asleep, hi⟩
  | @step m m' act h hstep hchild ih =>
    have hturned := turned_of_step hstep
    rcases ih with ⟨asleep, hm⟩ | hquiet
    · exact (hturned.joining (h.reachable hn).orderly hm).imp_right (·.turned hturned hchild)
    · exact .inr (hquiet.turned hturned hchild)

/-- What a member hands out at the end of its join is the first failure recorded since a join has
last taken one; it takes it when no child is active. -/
theorem Turned.handsOut (h : Turned n act n') (horderly : n.Orderly) {i : Nat}
    {name : Option String} {outcome : Except Failure Unit}
    (hi : n'.members[i]? = some ⟨name, .joined outcome⟩) :
    n.members[i]? = some ⟨name, .joined outcome⟩ ∨
      (n.members[i]? = some ⟨name, .joining false⟩ ∧ n.registry.active = 0 ∧
        outcome = verdict n.history ∧ n'.history = .taken outcome :: n.history) := by
  have hset {k : Nat} {m : Member} (hm : ∀ name outcome, m ≠ ⟨name, .joined outcome⟩)
      (hi : (n.members.set k m)[i]? = some ⟨name, .joined outcome⟩) :
      n.members[i]? = some ⟨name, .joined outcome⟩ := by
    rcases Roster.of_getElem?_set hi with ⟨-, hnew⟩ | ⟨-, hold⟩
    · exact absurd hnew.symm (hm name outcome)
    · exact hold
  cases h with
  | registered hk => exact .inl (hset (by simp) hi)
  | @launched _ k self child hk =>
    dsimp only at hi
    rw [List.getElem?_append] at hi
    split at hi
    · exact .inl (hset (by simp) hi)
    · rw [List.getElem?_singleton] at hi
      split at hi <;> cases hi
  | moved hk hmoves => exact .inl (hset (by cases hmoves <;> simp) hi)
  | @signed _ k self _ next outcome' hk hsigns =>
    refine .inl (@hset k ⟨self, next⟩ (by cases hsigns <;> simp) ?_)
    dsimp only [signOff, setMember] at hi
    split at hi
    · rw [List.getElem?_map] at hi
      obtain ⟨⟨name', pursuit⟩, hold, hrouse⟩ := Option.map_eq_some_iff.mp hi
      rw [hold]
      cases pursuit <;> cases hrouse
      rfl
    · exact hi
  | recorded => exact .inl hi
  | slept hk hactive => exact .inl (hset (by simp) hi)
  | @took _ k self hk hactive =>
    rw [Children.join_eq horderly.leads] at hi ⊢
    rcases Roster.of_getElem?_set hi with ⟨rfl, hnew⟩ | ⟨-, hold⟩
    · cases hnew
      exact .inr ⟨hk, hactive, rfl, rfl⟩
    · exact .inl hold

/-- Signing off starts from a registry with an active child. -/
theorem Reachable.active_pos (h : Reachable members n) {i : Nat} {outcome : Outcome Unit}
    (hact : act = .retract i ∨ act = .finish i outcome) (hstep : n.step act = some n') :
    0 < n.registry.active := by
  rw [h.orderly.counted]
  rcases hact with rfl | rfl
  · rw [Nursery.step] at hstep
    split at hstep
    · next self hi =>
      have := Member.le_owedBy hi
      rw [(Pursuit.Signs.retract self).owed_eq] at this
      omega
    · cases hstep
  · rw [Nursery.step] at hstep
    split at hstep
    · next name hi =>
      have := Member.le_owedBy hi
      rw [(Pursuit.Signs.finish name).owed_eq] at this
      omega
    · cases hstep

/-- What a registry of children is to the threads that share it. -/
structure Tends (members : Nat) : Prop where
  /-- Active are the children that have not been signed off: those with a thread and those without,
  yet or at all. -/
  counted : ∀ {n : Nursery}, Reachable members n →
    n.registry.active = n.members.countP Member.isUnfinished + n.members.countP Member.isOwing
  /-- Whoever signs a child off finds an active one in the registry. -/
  active_pos : ∀ {n n' : Nursery} {act : NurseryStep} {i : Nat} {outcome : Outcome Unit},
    Reachable members n → act = .retract i ∨ act = .finish i outcome → n.step act = some n' →
    0 < n.registry.active
  /-- A join that has been called is not over before all children are, if from then on only children
  start children. -/
  waits : ∀ {n n' : Nursery} {i : Nat} {name : Option String} {asleep : Bool},
    Reachable members n → n.members[i]? = some ⟨name, .joining asleep⟩ → n.Onward n' →
    (∀ asleep, n'.members[i]? ≠ some ⟨name, .joining asleep⟩) → n'.Quiet
  /-- Nobody sleeps while no child is active. -/
  awake : ∀ {n : Nursery} {i : Nat} {name : Option String}, Reachable members n →
    n.members[i]? = some ⟨name, .joining true⟩ → 0 < n.registry.active
  /-- A join hands out the first failure recorded since a join has last taken one, if any. -/
  hands_out : ∀ {n n' : Nursery} {act : NurseryStep} {i : Nat} {name : Option String}
      {outcome : Except Failure Unit}, Reachable members n → n.step act = some n' →
    n'.members[i]? = some ⟨name, .joined outcome⟩ →
    n.members[i]? = some ⟨name, .joined outcome⟩ ∨
      (n.members[i]? = some ⟨name, .joining false⟩ ∧ n.registry.active = 0 ∧
        outcome = verdict n.history ∧ n'.history = .taken outcome :: n.history)
  /-- What has been handed out has been recorded, each failure for itself. -/
  once : ∀ {n : Nursery}, Reachable members n →
    (n.history.filterMap taken?).Sublist (n.history.filterMap recorded?)

/-- A registry is so to any number of threads, with any children. -/
theorem tends (members : Nat) : Tends members where
  counted h := h.orderly.counted
  active_pos h hact hstep := h.active_pos hact hstep
  waits h hi honward hover :=
    (honward.joining h hi).resolve_left fun ⟨asleep, hjoining⟩ ↦ hover asleep hjoining
  awake h hi := h.orderly.awake _ (List.mem_of_getElem? hi) rfl
  hands_out h hstep hi := (turned_of_step hstep).handsOut h.orderly hi
  once h := (List.sublist_append_right _ _).trans h.orderly.leads.once

/-- A child starts a child of its own, which panics before a failure is recorded in another way. The
join sleeps until both are over, and hands the panic out. -/
example :
    (([.register 0 "a", .launch 0, .join 0, .look 0, .register 1 "b", .launch 1,
      .finish 2 (.error (.panicked "boom")), .record 1 (.permitUnavailable 1), .finish 1 (.ok ()),
      .look 0] : List NurseryStep).foldlM step (ofMembers 1)).map (·.members.map Member.pursuit) =
    some [.joined (.error (.workerPanicked "b" "boom")), .over, .over] := rfl

end Nursery
end RayAdjacency
