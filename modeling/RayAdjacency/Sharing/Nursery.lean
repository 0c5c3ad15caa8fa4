import RayAdjacency.Sharing.Children

/-!
# Threads that share a registry of children

Any thread may start a child, a child included, so the children form a forest of any depth. A child
is registered first; its thread is asked for afterwards, and may be refused, in which case the child
is signed off by the one who has registered it. Whoever joins gives the lock of the registry up and
sleeps as long as a child is active; it may also wake for no reason.

A `Nursery` is a registry with the threads that share it, in a state in which nobody has its lock.
It also records the failures that have been offered to the registry and what the joins have handed
out; no step looks at these records.

Models `spawn_child`, `record_failure`, `join_all` and `child_finished` of `ConcurrencyToken` among
several callers.
-/

namespace RayAdjacency

/-- What a member of a nursery does between two steps. -/
inductive Pursuit where
  /-- It runs. -/
  | running
  /-- It has registered a child of the given name, and asks for a thread. -/
  | hiring (name : String)
  /-- It has registered a child that it has been refused a thread for. -/
  | refused
  /-- It joins, and sleeps or is about to look at the registry. -/
  | joining (asleep : Bool)
  /-- Its join is about to return. -/
  | joined (outcome : Except Failure Unit)
  /-- It is a child that has been signed off. -/
  | over
deriving Repr

/-- A thread that shares a registry. -/
structure Member where
  /-- The name of a child; the others have been there before. -/
  name : Option String
  pursuit : Pursuit
deriving Repr

/-- What happens to the failure in a registry. -/
inductive FailureEvent where
  /-- A failure is recorded, which is to no effect if there is one. -/
  | recorded (failure : Failure)
  /-- A join takes it. -/
  | taken (outcome : Except Failure Unit)
deriving Repr

/-- A registry of children with the threads that share it. -/
structure Nursery where
  registry : Children := {}
  members : List Member
  /-- What has happened to the failure, the latest event at the head. -/
  history : List FailureEvent := []
deriving Repr

/-- One step of a member. -/
inductive NurseryStep where
  /-- It registers a child. -/
  | register (member : Nat) (name : String)
  /-- It gets a thread for the child. -/
  | launch (member : Nat)
  /-- It is refused a thread for the child. -/
  | refuse (member : Nat)
  /-- It signs the child off. -/
  | retract (member : Nat)
  /-- It records a failure. -/
  | record (member : Nat) (failure : Failure)
  /-- It is a child, and what it has been started for is over. -/
  | finish (member : Nat) (outcome : Outcome Unit)
  /-- It calls to join. -/
  | join (member : Nat)
  /-- It looks at the registry, and sleeps or takes the failure. -/
  | look (member : Nat)
  /-- It wakes for no reason. -/
  | wake (member : Nat)
  /-- Its join returns. -/
  | leave (member : Nat)
deriving Repr

/-- Wakes a member that is joining. -/
def Member.rouse (m : Member) : Member :=
  match m.pursuit with
  | .joining _ => { m with pursuit := .joining false }
  | _ => m

namespace Nursery

/-- A new registry that so many threads share, without a child. -/
def ofMembers (members : Nat) : Nursery where
  members := List.replicate members ⟨none, .running⟩

/-- A member turns to something else. -/
def setMember (n : Nursery) (i : Nat) (name : Option String) (pursuit : Pursuit) : Nursery :=
  { n with members := n.members.set i ⟨name, pursuit⟩ }

/-- Signs a child off. The last one wakes whoever joins. -/
def signOff (n : Nursery) (outcome : Except Failure Unit) : Nursery :=
  let registry := n.registry.finish outcome
  { registry
    members := if registry.active = 0 then n.members.map Member.rouse else n.members
    history :=
      match outcome with
      | .ok () => n.history
      | .error failure => .recorded failure :: n.history }

/-- One step, if the member that takes it may. A member whose thread has been refused may record
failures before it signs the child off: whatever the child was to own goes out of use first. -/
def step (n : Nursery) : NurseryStep → Option Nursery
  | .register i name =>
    match n.members[i]? with
    | some ⟨self, .running⟩ =>
      some ({ n with registry := n.registry.register }.setMember i self (.hiring name))
    | _ => none
  | .launch i =>
    match n.members[i]? with
    | some ⟨self, .hiring name⟩ =>
      let n := n.setMember i self .running
      some { n with members := n.members ++ [⟨some name, .running⟩] }
    | _ => none
  | .refuse i =>
    match n.members[i]? with
    | some ⟨self, .hiring _⟩ => some (n.setMember i self .refused)
    | _ => none
  | .retract i =>
    match n.members[i]? with
    | some ⟨self, .refused⟩ => some ((n.setMember i self .running).signOff (.ok ()))
    | _ => none
  | .record i failure =>
    match n.members[i]? with
    | some ⟨_, .running⟩ | some ⟨_, .refused⟩ =>
      some { n with
        registry := n.registry.record failure
        history := .recorded failure :: n.history }
    | _ => none
  | .finish i outcome =>
    match n.members[i]? with
    | some ⟨some name, .running⟩ =>
      some ((n.setMember i (some name) .over).signOff (Children.settle name outcome))
    | _ => none
  | .join i =>
    match n.members[i]? with
    | some ⟨self, .running⟩ => some (n.setMember i self (.joining false))
    | _ => none
  | .look i =>
    match n.members[i]? with
    | some ⟨self, .joining false⟩ =>
      if 0 < n.registry.active then some (n.setMember i self (.joining true))
      else
        let (outcome, registry) := n.registry.join
        some { n.setMember i self (.joined outcome) with
          registry
          history := .taken outcome :: n.history }
    | _ => none
  | .wake i =>
    match n.members[i]? with
    | some ⟨self, .joining true⟩ => some (n.setMember i self (.joining false))
    | _ => none
  | .leave i =>
    match n.members[i]? with
    | some ⟨self, .joined _⟩ => some (n.setMember i self .running)
    | _ => none

/-- What a new registry and its members may come to. -/
inductive Reachable (members : Nat) : Nursery → Prop
  | start : Reachable members (ofMembers members)
  | step {n n' : Nursery} {act : NurseryStep} (h : Reachable members n)
      (hstep : n.step act = some n') : Reachable members n'

end Nursery
end RayAdjacency
