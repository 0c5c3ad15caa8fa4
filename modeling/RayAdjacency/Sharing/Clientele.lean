import RayAdjacency.Sharing.Children
import RayAdjacency.Sharing.Contention

/-!
# Clients of a token

Any number of clients may call a token at once. A call that takes permits or gives them back goes on
access by access, as `PermitCall` says, and other clients may take their steps in between. A guard
belongs to one client at a time, which may release it or let it go out of use. Releasing a guard
empties it first; the empty guard goes out of use when the call returns.

A `Clientele` is the free permits of a token with its clients and guards, between two steps. It also
records when calls turn to the permits, when they are answered and when they return; no step looks
at these records.

Models `try_acquire`, `acquire_initial`, `release`, `permit` and `guard` of `ConcurrencyToken`, and
`release` and the drop of `PermitGuard`, among several callers.
-/

namespace RayAdjacency

/-- What a client calls. -/
inductive TokenCall where
  /-- Take up to so many permits. -/
  | tryAcquire (n : Nat)
  /-- Take the permit of the calling thread. -/
  | acquireInitial
  /-- Give so many permits back. -/
  | release (n : Nat)
  /-- Take a permit in a new guard. -/
  | permit
  /-- Put so many permits into a new guard, whether they have been taken or not. -/
  | wrap (n : Nat)
  /-- Give the permits of a guard back. -/
  | releaseGuard (guard : Nat)
  /-- Let a guard go out of use. -/
  | dropGuard (guard : Nat)
deriving Repr, DecidableEq

/-- A guard that has been made. -/
structure Guard where
  /-- The permits that it has been made with; no step looks at them. -/
  made : Nat
  /-- The permits that it holds. -/
  count : Nat
  /-- Whether a client may still use it. -/
  owned : Bool
deriving Repr, DecidableEq

/-- What a client does between two steps. -/
inductive Client where
  | idle
  /-- It is in a call that accesses the free permits. -/
  | inside (call : TokenCall) (access : PermitCall)
  /-- It is about to record that the permits of a guard have been refused. -/
  | recording (failure : Failure)
deriving Repr, DecidableEq

/-- What happens to a call. -/
inductive PermitEvent where
  /-- It turns to the free permits. -/
  | called (client : Nat) (call : TokenCall) (request : PermitRequest)
  /-- Its last access has been made. -/
  | answered (client : Nat) (call : TokenCall) (request : PermitRequest) (answer : PermitAnswer)
  /-- It returns, with the number of permits taken, or with a failure. -/
  | returned (client : Nat) (call : TokenCall) (outcome : Except Failure Nat)
deriving Repr

/-- A token with its clients and guards. -/
structure Clientele where
  permits : Permits
  clients : List Client
  guards : List Guard := []
  children : Children := {}
  /-- What has happened to the calls, the latest event at the head. -/
  history : List PermitEvent := []
deriving Repr

/-- One step of a client. -/
inductive ClientStep where
  /-- An idle client makes a call. -/
  | call (client : Nat) (call : TokenCall)
  /-- A client accesses the free permits; an exchange may fail for no reason. -/
  | access (client : Nat) (spurious : Bool)
  /-- A client that has its answer goes on. -/
  | finish (client : Nat)
deriving Repr, DecidableEq

/-- A new guard. -/
def Guard.ofCount (n : Nat) : Guard := ⟨n, n, true⟩

/-- A guard that goes out of use gives its permits back, unless it is empty. -/
def Guard.dropRequest (g : Guard) : Option PermitRequest :=
  if g.count = 0 then none else some (.give g.count)

/-- What an access is about, unless it has been answered. -/
def PermitCall.request? : PermitCall → Option PermitRequest
  | called request | trying request _ => some request
  | returned _ => none

namespace TokenCall

/-- What becomes of the guards when a call is made, and what the call asks for, if anything. Only a
guard that its client owns can be used. -/
def prepare (guards : List Guard) : TokenCall → Option (List Guard × Option PermitRequest)
  | tryAcquire n => some (guards, some (.take n))
  | acquireInitial | permit => some (guards, some (.take 1))
  | release n => some (guards, some (.give n))
  | wrap n => some (guards ++ [Guard.ofCount n], none)
  | releaseGuard g =>
    match guards[g]? with
    | some ⟨made, count, true⟩ => some (guards.set g ⟨made, 0, false⟩, some (.give count))
    | _ => none
  | dropGuard g =>
    match guards[g]? with
    | some ⟨made, count, true⟩ =>
      let dropped : Guard := ⟨made, count, false⟩
      some (guards.set g dropped, dropped.dropRequest)
    | _ => none

/-- What a call returns once it has been answered. -/
def outcome (budget : Nat) : TokenCall → PermitAnswer → Except Failure Nat
  | acquireInitial, .taken n => if n = 1 then .ok 1 else .error (.permitUnavailable budget)
  | _, .taken n => .ok n
  | _, .given => .ok 0
  | _, .refused n held => .error (.overRelease n held)

end TokenCall

namespace Clientele

/-- The clients of a new token, all of them idle. -/
def ofClients (budget clients : Nat) : Clientele where
  permits := Permits.ofBudget budget
  clients := List.replicate clients .idle

/-- A client turns to something else. -/
def setClient (s : Clientele) (i : Nat) (client : Client) : Clientele :=
  { s with clients := s.clients.set i client }

/-- Records an event. -/
def note (s : Clientele) (event : PermitEvent) : Clientele :=
  { s with history := event :: s.history }

/-- A client turns to the free permits, if its call asks for anything. -/
def ask (s : Clientele) (i : Nat) (call : TokenCall) : Option PermitRequest → Clientele
  | none => s.setClient i .idle
  | some request => (s.setClient i (.inside call (.called request))).note (.called i call request)

/-- The next access of a call. -/
def access (s : Clientele) (i : Nat) (call : TokenCall) (spurious : Bool) (access : PermitCall)
    (request : PermitRequest) : Clientele :=
  let (next, permits) := access.advance s.permits spurious
  let s := { s with permits }.setClient i (.inside call next)
  match next with
  | .returned answer => s.note (.answered i call request answer)
  | _ => s

/-- A call returns. A permit that has been taken goes into a new guard, a guard that has been
released goes out of use, and what is refused to a guard out of use is to be recorded. -/
def finish (s : Clientele) (i : Nat) (call : TokenCall) (answer : PermitAnswer) : Clientele :=
  let s := s.note (.returned i call (call.outcome s.permits.budget answer))
  match call, answer with
  | .permit, .taken 1 => { s with guards := s.guards ++ [Guard.ofCount 1] }.setClient i .idle
  | .releaseGuard g, _ => s.ask i (.dropGuard g) (s.guards[g]?.bind Guard.dropRequest)
  | .dropGuard _, .refused n held => s.setClient i (.recording (.overRelease n held))
  | _, _ => s.setClient i .idle

/-- One step, if the client that takes it may. -/
def step (s : Clientele) : ClientStep → Option Clientele
  | .call i call =>
    if s.clients[i]? = some .idle then
      (call.prepare s.guards).map fun (guards, request) ↦ { s with guards }.ask i call request
    else none
  | .access i spurious =>
    match s.clients[i]? with
    | some (.inside call access) => access.request?.map (s.access i call spurious access)
    | _ => none
  | .finish i =>
    match s.clients[i]? with
    | some (.inside call (.returned answer)) => some (s.finish i call answer)
    | some (.recording failure) =>
      some ({ s with children := s.children.record failure }.setClient i .idle)
    | _ => none

/-- What the clients of a new token may come to. -/
inductive Reachable (budget clients : Nat) : Clientele → Prop
  | start : Reachable budget clients (ofClients budget clients)
  | step {s s' : Clientele} {act : ClientStep} (h : Reachable budget clients s)
      (hstep : s.step act = some s') : Reachable budget clients s'

end Clientele
end RayAdjacency
