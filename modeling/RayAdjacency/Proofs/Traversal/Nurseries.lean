import RayAdjacency.Proofs.Sharing.Nursery
import RayAdjacency.Proofs.Traversal.Registry

/-!
# The threads of a search as a nursery

The threads of a search that have not ended are the members of a nursery that are not over: a thread
that has registered a child hires, until it has a thread for the child or signs it off, and the
calling thread joins at the end. Every step of a search is none, one or two steps of its nursery
(`Thread.attained_advance`), so whatever holds of every nursery holds of the registry of a search
and of its threads (`Machine.attained`).
-/

namespace RayAdjacency

/-- Whether a member can still take a step. -/
def Member.isPresent (m : Member) : Bool :=
  match m.pursuit with
  | .over => false
  | _ => true

/-- Waking a member does not make it leave. -/
theorem Member.isPresent_rouse (m : Member) : m.rouse.isPresent = m.isPresent := by
  rcases m with ⟨name, pursuit⟩
  cases pursuit <;> rfl

namespace Nursery

/-- Some nursery that can be reached has this registry, and these members are present in it. -/
def Attained (members : Nat) (registry : Children) (present : List Member) : Prop :=
  ∃ n, Reachable members n ∧ n.registry = registry ∧
    (n.members.filter Member.isPresent).Perm present

namespace Attained

variable {members : Nat} {registry : Children} {present others rest : List Member}
  {self : Option String} {name : String} {pursuit next : Pursuit}

/-- In which order the members are listed does not matter. -/
theorem perm (h : Attained members registry present) (hperm : present.Perm others) :
    Attained members registry others := by
  obtain ⟨n, hn, hregistry, hpresent⟩ := h
  exact ⟨n, hn, hregistry, hpresent.trans hperm⟩

/-- A member registers a child. -/
theorem register (h : Attained members registry (⟨self, .running⟩ :: rest)) (name : String) :
    Attained members registry.register (⟨self, .hiring name⟩ :: rest) := by
  obtain ⟨n, hn, rfl, hpresent⟩ := h
  obtain ⟨i, hi, hset⟩ := Roster.exists_set_filter hpresent
  have hstep : n.step (.register i name) =
      some ({ n with registry := n.registry.register }.setMember i self (.hiring name)) := by
    rw [Nursery.step, hi]
  exact ⟨_, hn.step hstep, rfl, hset _⟩

/-- The child starts. -/
theorem launch (h : Attained members registry (⟨self, .hiring name⟩ :: rest)) :
    Attained members registry (⟨self, .running⟩ :: ⟨some name, .running⟩ :: rest) := by
  obtain ⟨n, hn, rfl, hpresent⟩ := h
  obtain ⟨i, hi, hset⟩ := Roster.exists_set_filter hpresent
  have hstep : n.step (.launch i) = some
      { n with members := n.members.set i ⟨self, .running⟩ ++ [⟨some name, .running⟩] } := by
    rw [Nursery.step, hi]
    rfl
  refine ⟨_, hn.step hstep, rfl, ?_⟩
  rw [List.filter_append]
  exact ((hset _).append_right _).trans (List.perm_append_comm.cons _)

/-- A member turns to something without a look at the registry. -/
theorem move (h : Attained members registry (⟨self, pursuit⟩ :: rest))
    (hmoves : pursuit.Moves next) : Attained members registry (⟨self, next⟩ :: rest) := by
  obtain ⟨n, hn, rfl, hpresent⟩ := h
  obtain ⟨i, hi, hset⟩ := Roster.exists_set_filter hpresent
  have hstep : ∃ act, n.step act = some (n.setMember i self next) := by
    cases hmoves with
    | refuse name => exact ⟨.refuse i, by rw [Nursery.step, hi]⟩
    | join => exact ⟨.join i, by rw [Nursery.step, hi]⟩
    | wake => exact ⟨.wake i, by rw [Nursery.step, hi]⟩
    | leave outcome => exact ⟨.leave i, by rw [Nursery.step, hi]⟩
  obtain ⟨act, hstep⟩ := hstep
  have hnext : [Member.mk self next].filter Member.isPresent = [⟨self, next⟩] := by
    cases hmoves <;> rfl
  exact ⟨_, hn.step hstep, rfl, (hset _).trans (.of_eq (by rw [hnext]; rfl))⟩

/-- A member records a failure while it runs or has been refused a thread. -/
theorem record (h : Attained members registry (⟨self, pursuit⟩ :: rest))
    (hpursuit : pursuit = .running ∨ pursuit = .refused) (failure : Failure) :
    Attained members (registry.record failure) (⟨self, pursuit⟩ :: rest) := by
  obtain ⟨n, hn, rfl, hpresent⟩ := h
  obtain ⟨i, hi, -⟩ := Roster.exists_set_filter hpresent
  have hstep : n.step (.record i failure) = some { n with
      registry := n.registry.record failure
      history := .recorded failure :: n.history } := by
    rcases hpursuit with rfl | rfl <;> rw [Nursery.step, hi]
  exact ⟨_, hn.step hstep, rfl, hpresent⟩

private theorem signOff {n : Nursery} {act : NurseryStep} {i : Nat} {outcome : Except Failure Unit}
    (hn : Reachable members n)
    (hstep : n.step act = some ((n.setMember i self next).signOff outcome))
    (hset : ((n.members.set i ⟨self, next⟩).filter Member.isPresent).Perm present)
    (hawake : ∀ m ∈ present, m.rouse = m) :
    Attained members (n.registry.finish outcome) present := by
  refine ⟨_, hn.step hstep, rfl, ?_⟩
  dsimp only [Nursery.signOff, setMember]
  split
  · have hpresent : Member.isPresent ∘ Member.rouse = Member.isPresent :=
      funext Member.isPresent_rouse
    rw [List.filter_map, hpresent]
    refine (hset.map Member.rouse).trans (.of_eq ?_)
    exact (List.map_congr_left hawake).trans (List.map_id present)
  · exact hset

/-- A member signs off the child that it has been refused. -/
theorem retract (h : Attained members registry (⟨self, .refused⟩ :: rest))
    (hrest : ∀ m ∈ rest, m.rouse = m) :
    Attained members (registry.finish (.ok ())) (⟨self, .running⟩ :: rest) := by
  obtain ⟨n, hn, rfl, hpresent⟩ := h
  obtain ⟨i, hi, hset⟩ := Roster.exists_set_filter hpresent
  have hstep : n.step (.retract i) = some ((n.setMember i self .running).signOff (.ok ())) := by
    rw [Nursery.step, hi]
  exact signOff hn hstep (hset _) (List.forall_mem_cons.mpr ⟨rfl, hrest⟩)

/-- A child signs off, and leaves. -/
theorem finish (h : Attained members registry (⟨some name, .running⟩ :: rest))
    (hrest : ∀ m ∈ rest, m.rouse = m) (outcome : Outcome Unit) :
    Attained members (registry.finish (Children.settle name outcome)) rest := by
  obtain ⟨n, hn, rfl, hpresent⟩ := h
  obtain ⟨i, hi, hset⟩ := Roster.exists_set_filter hpresent
  have hstep : n.step (.finish i outcome) = some
      ((n.setMember i (some name) .over).signOff (Children.settle name outcome)) := by
    rw [Nursery.step, hi]
  exact signOff hn hstep (hset _) hrest

/-- A join that finds no child active returns. -/
theorem join (h : Attained members registry (⟨self, .joining false⟩ :: rest))
    (hactive : registry.active = 0) :
    Attained members registry.join.2 (⟨self, .running⟩ :: rest) := by
  obtain ⟨n, hn, rfl, hpresent⟩ := h
  obtain ⟨i, hi, hset⟩ := Roster.exists_set_filter hpresent
  have hstep : n.step (.look i) = some { n.setMember i self (.joined n.registry.join.1) with
      registry := n.registry.join.2
      history := .taken n.registry.join.1 :: n.history } := by
    rw [Nursery.step, hi]
    exact if_neg (Nat.not_lt.mpr (Nat.le_of_eq hactive))
  exact move ⟨_, hn.step hstep, rfl, hset ⟨self, .joined n.registry.join.1⟩⟩ (.leave _)

/-- A guard of a thread goes out of use. -/
theorem dropGuard {token : Token} {count : Nat}
    (h : Attained members token.children (⟨self, pursuit⟩ :: rest))
    (hpursuit : pursuit = .running ∨ pursuit = .refused) :
    Attained members (token.dropGuard count).1.children (⟨self, pursuit⟩ :: rest) := by
  rw [Token.dropGuard]
  split
  · exact h
  · split
    · next hrelease =>
      rw [Token.children_of_release hrelease]
      exact h
    · exact h.record hpursuit _

end Attained
end Nursery

/-- What a task is to the registry of children. -/
def Task.pursuit : Task → Pursuit
  | launch child => .hiring child.label
  | retract _ | unregister _ => .refused
  | joinAll _ => .joining false
  | _ => .running

/-- Whether a task leads to a task that is something else to the registry. -/
def Task.isPlain : Task → Bool
  | register _ | launch _ | retract _ | unregister _ | giveBack _ | joinAll _ => false
  | _ => true

namespace Thread

variable {plan : Plan} {chance : Chance} {caller alone : Bool} {t t' : Thread} {s : Shared}

private theorem label_enterPair (pair : NodePair)
    (ht' : (enterPair plan t s pair).thread = some t') : t'.label = t.label := by
  revert ht'
  fun_cases enterPair plan t s pair <;> rintro ⟨⟩ <;> rfl

private theorem label_comparePair (env : Interference) (pair : NodePair)
    (ht' : (comparePair plan env t s pair).thread = some t') : t'.label = t.label := by
  revert ht'
  fun_cases comparePair plan env t s pair <;> rintro ⟨⟩ <;> rfl

private theorem label_resume (frame : Frame) (outcome : Outcome Unit)
    (ht' : (resume plan caller t s frame outcome).thread = some t') : t'.label = t.label := by
  revert ht'
  fun_cases resume plan caller t s frame outcome <;> rintro ⟨⟩ <;> rfl

/-- No thread changes its name. -/
theorem label_advance (ht' : (t.advance plan chance caller s).thread = some t') :
    t'.label = t.label := by
  revert ht'
  fun_cases advance plan chance caller t s
  all_goals try
    rintro ⟨⟩
    rfl
  all_goals intro ht'
  · exact label_enterPair _ ht'
  · exact label_comparePair _ _ ht'
  · cases ht'
    rcases afterStart_eq plan.config.strategy t with ⟨-, hafter⟩ | ⟨-, hafter⟩
    all_goals
      have hlabel := congrArg Thread.label hafter
      exact hlabel
  · cases ht'
    rcases afterRefund_eq plan.config.strategy t ‹Failure› with ⟨-, hafter⟩ | ⟨-, hafter⟩
    all_goals
      have hlabel := congrArg Thread.label hafter
      exact hlabel
  · next outcome _ frame frames _ =>
    exact @label_resume plan caller { t with frames } t' s frame outcome ht'

private theorem pursuit_enterPair (pair : NodePair)
    (ht' : (enterPair plan t s pair).thread = some t') : t'.task.pursuit = .running := by
  rcases enterPair_eq plan t s pair with ⟨-, hmove⟩ | ⟨-, task, hfollows, hmove⟩ <;>
    rw [hmove] at ht' <;> cases ht'
  · rfl
  · cases hfollows <;> rfl

private theorem pursuit_comparePair (env : Interference) (pair : NodePair)
    (ht' : (comparePair plan env t s pair).thread = some t') : t'.task.pursuit = .running := by
  revert ht'
  fun_cases comparePair plan env t s pair <;> rintro ⟨⟩ <;> rfl

private theorem pursuit_resume (frame : Frame) (outcome : Outcome Unit)
    (ht' : (resume plan caller t s frame outcome).thread = some t') :
    t'.task.pursuit = .running := by
  revert ht'
  fun_cases resume plan caller t s frame outcome <;> rintro ⟨⟩ <;> rfl

/-- After a plain task a thread runs. -/
theorem pursuit_advance (hplain : t.task.isPlain = true)
    (ht' : (t.advance plan chance caller s).thread = some t') : t'.task.pursuit = .running := by
  revert ht'
  fun_cases advance plan chance caller t s
  all_goals try
    rw [‹t.task = _›] at hplain
    cases hplain
    done
  all_goals try
    rintro ⟨⟩
    rfl
  all_goals intro ht'
  · cases ht'
    fun_cases openingTask plan <;> rfl
  · exact pursuit_enterPair _ ht'
  · exact pursuit_comparePair _ _ ht'
  · cases ht'
    rcases afterStart_eq plan.config.strategy t with ⟨-, hafter⟩ | ⟨-, hafter⟩
    all_goals exact congrArg (·.task.pursuit) hafter
  · cases ht'
    rcases afterRefund_eq plan.config.strategy t ‹Failure› with ⟨-, hafter⟩ | ⟨-, hafter⟩
    all_goals exact congrArg (·.task.pursuit) hafter
  · exact pursuit_resume _ _ ht'
  · cases ht'
    rw [‹t.task = _›]
    rfl

/-- A thread as a member of a nursery. -/
def member (self : Option String) (t : Thread) : Member := ⟨self, t.task.pursuit⟩

/-- The members of a search are awake. -/
theorem rouse_member (self : Option String) (t : Thread) :
    (t.member self).rouse = t.member self := by
  rw [member]
  cases t.task <;> rfl

/-- The name of a thread in its nursery. -/
def nurseryName (caller : Bool) (t : Thread) : Option String :=
  if caller then none else some t.label

/-- What is left of a thread after a step, as members of a nursery. -/
def membersAfter (caller : Bool) (move : Move) : List Member :=
  move.thread.toList.map (fun t ↦ t.member (t.nurseryName caller)) ++
    move.started.toList.map fun t ↦ t.member (some t.label)

private theorem pursuit_of_isPlain {task : Task} (h : task.isPlain = true) :
    task.pursuit = .running := by
  cases task <;> first | rfl | cases h

private theorem membersAfter_of_isPlain (hplain : t.task.isPlain = true)
    (hlast : ∀ outcome frames, t.task = .ret outcome → t.frames ≠ .child :: frames) :
    membersAfter caller (t.advance plan chance caller s) = [⟨t.nurseryName caller, .running⟩] := by
  have hstarted : (t.advance plan chance caller s).started = none :=
    started_eq_none fun child htask ↦ by
      rw [htask] at hplain
      cases hplain
  have hthread : ∃ t', (t.advance plan chance caller s).thread = some t' := by
    cases hthread : (t.advance plan chance caller s).thread with
    | some t' => exact ⟨t', rfl⟩
    | none =>
      obtain ⟨outcome, frames, htask, hframes⟩ := ended_of_advance hthread
      exact absurd hframes (hlast outcome frames htask)
  obtain ⟨t', ht'⟩ := hthread
  have hname : t'.nurseryName caller = t.nurseryName caller := by
    rw [nurseryName, nurseryName, label_advance ht']
  rw [membersAfter, hstarted, ht', Option.toList_some, List.map_singleton, member, hname,
    pursuit_advance hplain ht']
  rfl

private theorem attained_childrenAfter {members : Nat} {self : Option String} {rest : List Member}
    (hplain : t.task.isPlain = true)
    (hlast : ∀ outcome frames, t.task = .ret outcome → t.frames ≠ .child :: frames)
    (h : Nursery.Attained members s.token.children (⟨self, .running⟩ :: rest)) :
    Nursery.Attained members (t.childrenAfter s) (⟨self, .running⟩ :: rest) := by
  rw [childrenAfter]
  split
  · rw [‹t.task = _›] at hplain
    cases hplain
  · rw [‹t.task = _›] at hplain
    cases hplain
  · rw [‹t.task = _›] at hplain
    cases hplain
  · exact h.dropGuard (.inl rfl)
  · exact h.dropGuard (.inl rfl)
  · exact h.dropGuard (.inl rfl)
  · exact absurd ‹t.frames = _› (hlast _ _ ‹t.task = _›)
  · exact h

/-- A step of a thread is none, one or two steps of its nursery. -/
theorem attained_advance {members : Nat} {rest : List Member}
    (htyped : t.Typed plan.config.strategy caller)
    (hready : t.isBlocked plan chance alone s = false) (hrest : ∀ m ∈ rest, m.rouse = m)
    (h : Nursery.Attained members s.token.children (t.member (t.nurseryName caller) :: rest)) :
    Nursery.Attained members (t.childrenAfter s)
      (membersAfter caller (t.advance plan chance caller s) ++ rest) := by
  have hplain (hplain : t.task.isPlain = true)
      (hlast : ∀ outcome frames, t.task = .ret outcome → t.frames ≠ .child :: frames) :
      Nursery.Attained members (t.childrenAfter s)
        (membersAfter caller (t.advance plan chance caller s) ++ rest) := by
    rw [member, pursuit_of_isPlain hplain] at h
    rw [membersAfter_of_isPlain hplain hlast]
    exact attained_childrenAfter hplain hlast h
  cases htask : t.task with
  | register child =>
    rw [member, htask] at h
    rw [childrenAfter, advance, htask]
    exact h.register child.label
  | launch child =>
    rw [member, htask] at h
    rw [childrenAfter, advance, htask]
    dsimp only
    split
    · exact h.move (.refuse child.label)
    · have hchild :
          child.thread.member (some child.thread.label) = ⟨some child.label, .running⟩ := by
        obtain ⟨label, errand⟩ := child
        cases errand <;> rfl
      change Nursery.Attained members _
        (⟨_, .running⟩ :: child.thread.member (some child.thread.label) :: rest)
      rw [hchild]
      exact h.launch
  | retract child =>
    rw [member, htask] at h
    rw [childrenAfter, advance, htask]
    exact h.dropGuard (.inr rfl)
  | unregister child =>
    rw [member, htask] at h
    rw [childrenAfter, advance, htask]
    exact h.retract hrest
  | giveBack searched =>
    rw [member, htask] at h
    rw [childrenAfter, advance, htask]
    dsimp only
    split <;> exact h.move .join
  | joinAll searched =>
    rw [isBlocked, htask] at hready
    rw [member, htask] at h
    rw [childrenAfter, advance, htask]
    exact h.join (Nat.eq_zero_of_not_pos (of_decide_eq_false hready))
  | ret outcome =>
    by_cases hlast : ∃ frames, t.frames = .child :: frames
    · obtain ⟨frames, hframes⟩ := hlast
      have hreturns := htyped.returns htask
      rw [hframes] at hreturns
      obtain ⟨rfl, rfl⟩ := stands_gone hreturns.2.2
      rw [member, htask] at h
      rw [childrenAfter, advance, htask, hframes]
      exact h.finish hrest outcome
    · exact hplain (by rw [htask]; rfl) fun _ frames _ hframes ↦ hlast ⟨frames, hframes⟩
  | _ =>
    refine hplain (by rw [htask]; rfl) fun outcome _ hret _ ↦ ?_
    rw [htask] at hret
    cases hret

end Thread

namespace Machine

variable {plan : Plan} {m : Machine}

/-- The threads of a search as members of a nursery. -/
def members (m : Machine) : List Member :=
  m.caller.member none :: m.workers.map fun t ↦ t.member (some t.label)

/-- Whatever the threads of a search may come to, the members of a nursery may. -/
theorem attained (h : Reachable plan m) : Nursery.Attained 1 m.shared.token.children m.members := by
  refine h.induction ⟨_, .start, rfl, .refl _⟩ fun {m m' chance t} _ htyped hmoved ih ↦ ?_
  have hrouse (ts : List Thread) :
      ∀ x ∈ ts.map fun t ↦ t.member (some t.label), x.rouse = x := by
    simp only [List.forall_mem_map]
    exact fun t _ ↦ t.rouse_member _
  cases hmoved with
  | @caller t s started hready hmove =>
    have hstep := @Thread.attained_advance plan chance true _ m.caller m.shared 1 _ htyped.caller
      hready (hrouse m.workers) ih
    rw [← @Thread.children_advance plan chance true, hmove] at hstep
    refine hstep.perm (.cons _ ?_)
    rw [List.map_append]
    exact List.perm_append_comm
  | @worker before after t move hworkers hready hmove =>
    subst hmove
    let others := m.caller.member none :: (before ++ after).map fun t ↦ t.member (some t.label)
    have hothers : ∀ x ∈ others, x.rouse = x :=
      List.forall_mem_cons.mpr ⟨m.caller.rouse_member none, hrouse (before ++ after)⟩
    have hperm : m.members.Perm (t.member (some t.label) :: others) := by
      rw [members, hworkers, List.map_append, List.map_cons]
      refine (List.perm_middle.cons _).trans ((List.Perm.swap _ _ _).trans (.of_eq ?_))
      rw [← List.map_append]
    have hstep := @Thread.attained_advance plan chance false _ t m.shared 1 others
      (htyped.workers t (hworkers ▸ by simp)) hready hothers (ih.perm hperm)
    rw [← @Thread.children_advance plan chance false] at hstep
    refine hstep.perm ?_
    simp only [members, Thread.membersAfter, others, List.map_append]
    exact List.perm_middle.trans ((splice_perm _ _ _ _).symm.cons _)

end Machine
end RayAdjacency
