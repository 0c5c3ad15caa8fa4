import Mathlib.Algebra.GroupWithZero.Nat
import RayAdjacency.Proofs.Sharing.Roster
import RayAdjacency.Sharing.Clientele

/-!
# Permits under contention, call by call

Each call takes effect at one instant, that of the access that answers it: the number which the last
access has seen is the number of free permits at that instant, so taking and giving back have the
effect that they have without other clients. `PermitRequest.Effect` states that effect,
`Clientele.Replays` that the effects, in the order of their instants, lead from a new token to the
one at hand, and `Clientele.Turns` that each call has its instant between its beginning and its
return. What the permits add up to follows from the effects alone.
-/

namespace RayAdjacency

/-- What a request does at the instant at which it takes effect. -/
inductive PermitRequest.Effect (p : Permits) : PermitRequest → PermitAnswer → Permits → Prop
  /-- As many permits are taken as are asked for and free. -/
  | take (n : Nat) : Effect p (.take n) (.taken (min n p.available))
      { p with available := p.available - min n p.available }
  /-- Permits are given back, if so many are outstanding. -/
  | give {n : Nat} (h : n ≤ p.held) : Effect p (.give n) .given
      { p with available := p.available + n }
  /-- More than are outstanding are refused, and nothing changes. -/
  | refuse {n : Nat} (h : p.held < n) : Effect p (.give n) (.refused n p.held) p

/-- A number of free permits that a request does not return at. -/
def PermitRequest.Suits (budget current : Nat) : PermitRequest → Prop
  | take n => current ≤ budget ∧ 0 < min current n
  | give n => current + n ≤ budget

/-- A call that has seen a number of free permits goes on with one that suits its request. -/
def PermitCall.Sound (budget : Nat) : PermitCall → Prop
  | trying request current => request.Suits budget current
  | _ => True

namespace PermitCall

variable {p : Permits} {request : PermitRequest} {access : PermitCall}

/-- Whoever looks at the free permits has its answer, or a number that suits its request. -/
theorem look_cases (h : p.available ≤ p.budget) (request : PermitRequest) :
    (look p request = trying request p.available ∧ request.Suits p.budget p.available) ∨
      ∃ answer, look p request = returned answer ∧ request.Effect p answer p := by
  cases request with
  | take n =>
    by_cases hnone : min p.available n = 0
    · refine .inr ⟨.taken 0, if_pos hnone, ?_⟩
      have heffect := PermitRequest.Effect.take (p := p) n
      rwa [Nat.min_comm, hnone] at heffect
    · exact .inl ⟨if_neg hnone, h, Nat.pos_of_ne_zero hnone⟩
  | give n =>
    by_cases hmany : p.held < n
    · exact .inr ⟨_, if_pos hmany, .refuse hmany⟩
    · refine .inl ⟨if_neg hmany, ?_⟩
      rw [Permits.held] at hmany
      show p.available + n ≤ p.budget
      omega

/-- An exchange of the number at hand for a new one is the effect of its request. -/
theorem effect_exchange (h : request.Suits p.budget p.available) :
    ∃ answer q, exchange p p.available request = (returned answer, q) ∧
      request.Effect p answer q := by
  cases request with
  | take n =>
    refine ⟨_, _, rfl, ?_⟩
    have heffect := PermitRequest.Effect.take (p := p) n
    rwa [Nat.min_comm] at heffect
  | give n =>
    have hheld : n ≤ p.held := by
      have : p.available + n ≤ p.budget := h
      rw [Permits.held]
      omega
    exact ⟨_, _, rfl, .give hheld⟩

/-- An access changes nothing and goes on, or answers the call with the effect of its request. -/
theorem advance_cases (h : p.available ≤ p.budget) (hsound : access.Sound p.budget)
    (hrequest : access.request? = some request) (spurious : Bool) :
    (advance p spurious access = (trying request p.available, p) ∧
        request.Suits p.budget p.available) ∨
      ∃ answer q, advance p spurious access = (returned answer, q) ∧
        request.Effect p answer q := by
  have hlook : ((look p request, p) = (trying request p.available, p) ∧
        request.Suits p.budget p.available) ∨
      ∃ answer q, (look p request, p) = (returned answer, q) ∧ request.Effect p answer q := by
    rcases look_cases h request with ⟨hlook, hsuits⟩ | ⟨answer, hlook, heffect⟩
    · exact .inl ⟨by rw [hlook], hsuits⟩
    · exact .inr ⟨answer, p, by rw [hlook], heffect⟩
  cases access with
  | called r =>
    cases hrequest
    exact hlook
  | trying r current =>
    cases hrequest
    rw [advance]
    split
    · exact hlook
    · next hsame =>
      obtain rfl : p.available = current := by
        simp only [Bool.or_eq_true, bne_iff_ne, not_or, Decidable.not_not] at hsame
        exact hsame.2
      exact .inr (effect_exchange hsound)
  | returned answer => cases hrequest

end PermitCall

namespace PermitRequest.Effect

variable {p q : Permits} {request : PermitRequest} {answer : PermitAnswer}

/-- Taking permits has the effect of `Permits.tryAcquire`. -/
theorem take_iff {n : Nat} : Effect p (.take n) answer q ↔
    answer = .taken (p.tryAcquire n).1 ∧ q = (p.tryAcquire n).2 := by
  rw [Permits.tryAcquire, Nat.min_comm]
  constructor
  · rintro ⟨⟩
    exact ⟨rfl, rfl⟩
  · rintro ⟨rfl, rfl⟩
    exact .take n

/-- Giving permits back has the effect of `Permits.release`. -/
theorem given_iff {n : Nat} : Effect p (.give n) .given q ↔ p.release n = .ok q := by
  rw [Permits.release]
  constructor
  · rintro ⟨⟩
    exact if_neg (Nat.not_lt.mpr ‹_›)
  · intro h
    split at h <;> cases h
    exact .give (Nat.not_lt.mp ‹_›)

/-- No effect changes the budget, or leaves more permits free than it has. -/
theorem available_le (h : request.Effect p answer q) (hp : p.available ≤ p.budget) :
    q.budget = p.budget ∧ q.available ≤ q.budget := by
  cases h with
  | take n => exact ⟨rfl, Nat.le_trans (Nat.sub_le _ _) hp⟩
  | give hn =>
    rw [Permits.held] at hn
    refine ⟨rfl, ?_⟩
    dsimp only
    omega
  | refuse => exact ⟨rfl, hp⟩

end PermitRequest.Effect

/-! ### Guards -/

section prepare

variable {call : TokenCall} {guards guards' : List Guard} {request : Option PermitRequest} {g : Nat}
  {x : Guard}

/-- The guard that a call uses up. -/
def TokenCall.guard? : TokenCall → Option Nat
  | releaseGuard g | dropGuard g => some g
  | _ => none

/-- What a call asks for. One that uses a guard up asks to give back what the guard has been made
with. -/
def TokenCall.Asks (guards : List Guard) (request : PermitRequest) : TokenCall → Prop
  | tryAcquire n => request = .take n
  | acquireInitial | permit => request = .take 1
  | release n => request = .give n
  | wrap _ => False
  | releaseGuard g | dropGuard g => ∃ x, guards[g]? = some x ∧ request = .give x.made

/-- What a call does to the guards. -/
inductive TokenCall.Prepared (guards : List Guard) :
    TokenCall → List Guard → Option PermitRequest → Prop
  /-- It does not concern them. -/
  | other {call : TokenCall} {request : PermitRequest} (h : call.guard? = none)
      (hasks : call.Asks guards request) : Prepared guards call guards (some request)
  /-- There is one more. -/
  | wrap (n : Nat) : Prepared guards (.wrap n) (guards ++ [Guard.ofCount n]) none
  /-- One is emptied. -/
  | releaseGuard {g made count : Nat} (h : guards[g]? = some ⟨made, count, true⟩) :
      Prepared guards (.releaseGuard g) (guards.set g ⟨made, 0, false⟩) (some (.give count))
  /-- One goes out of use. -/
  | dropGuard {g made count : Nat} (h : guards[g]? = some ⟨made, count, true⟩) :
      Prepared guards (.dropGuard g) (guards.set g ⟨made, count, false⟩)
        (if count = 0 then none else some (.give count))

/-- A call that can be made is prepared as its kind asks. -/
theorem TokenCall.prepared (h : call.prepare guards = some (guards', request)) :
    Prepared guards call guards' request := by
  cases call with
  | releaseGuard g =>
    rw [prepare] at h
    split at h <;> cases h
    exact .releaseGuard ‹_›
  | dropGuard g =>
    rw [prepare] at h
    split at h <;> cases h
    exact .dropGuard ‹_›
  | wrap n =>
    cases h
    exact .wrap n
  | _ =>
    cases h
    exact .other rfl rfl

/-- No guard is lost, and what it has been made with does not change. -/
def Guard.Kept (guards guards' : List Guard) : Prop :=
  ∀ (g : Nat) x, guards[g]? = some x → ∃ y, guards'[g]? = some y ∧ y.made = x.made

/-- How often a guard can still be used; one that has not been made yet, once. -/
def Guard.uses : Option Guard → Nat
  | some x => if x.owned then 1 else 0
  | none => 1

/-- A guard that can still be used holds what it has been made with. -/
def Guard.Whole (guards : List Guard) : Prop :=
  ∀ (g : Nat) x, guards[g]? = some x → x.owned = true → x.count = x.made

/-- Guards that are added can be used once each. -/
theorem Guard.uses_append {made : List Guard} (h : ∀ x ∈ made, x.owned = true) :
    uses (guards ++ made)[g]? ≤ uses guards[g]? := by
  rw [List.getElem?_append]
  split
  · exact Nat.le_refl _
  · next hge =>
    rw [List.getElem?_eq_none (Nat.le_of_not_lt hge)]
    cases hx : made[g - guards.length]? with
    | none => exact Nat.le_refl _
    | some x => simp [uses, h x (List.mem_of_getElem? hx)]

/-- Guards that are added hold what they have been made with. -/
theorem Guard.Whole.append {made : List Guard} (h : Whole guards)
    (hmade : ∀ x ∈ made, x.count = x.made) : Whole (guards ++ made) := by
  intro g x hx howned
  rw [List.getElem?_append] at hx
  split at hx
  · exact h g x hx howned
  · exact hmade x (List.mem_of_getElem? hx)

/-- Guards that nobody touches are kept. -/
theorem Guard.Kept.refl (guards : List Guard) : Kept guards guards :=
  fun _ x hx ↦ ⟨x, hx, rfl⟩

/-- New guards come after the ones there are, which are kept. -/
theorem Guard.kept_append (guards made : List Guard) : Kept guards (guards ++ made) := by
  intro g x hx
  exact ⟨x, (List.getElem?_append_left (List.getElem?_eq_some_iff.mp hx).1).trans hx, rfl⟩

/-- A call still asks for the same when guards have been added or used up. -/
theorem TokenCall.Asks.kept {r : PermitRequest} (h : call.Asks guards r)
    (hkept : Guard.Kept guards guards') : call.Asks guards' r := by
  cases call with
  | releaseGuard g | dropGuard g =>
    obtain ⟨x, hx, rfl⟩ := h
    obtain ⟨y, hy, hmade⟩ := hkept g x hx
    exact ⟨y, hy, congrArg PermitRequest.give hmade.symm⟩
  | _ => exact h

/-- Whether a client is giving back the permits of a guard. -/
def Client.isFor (g : Nat) : Client → Bool
  | inside call access => call.guard? == some g && access.request?.isSome
  | _ => false

/-- A client in a call on the permits is there for the guard of its call. -/
theorem Client.isFor_inside {access : PermitCall} {r : PermitRequest}
    (h : access.request? = some r) : (inside call access).isFor g = (call.guard? == some g) := by
  rw [isFor, h, Option.isSome_some, Bool.and_true]

/-- An idle client is there for no guard. -/
@[simp] theorem Client.isFor_idle : idle.isFor g = false := rfl

/-- A client that records a failure is there for no guard. -/
@[simp] theorem Client.isFor_recording (failure : Failure) : (recording failure).isFor g = false :=
  rfl

/-- A client that has its answer is still there for the guard of its call. -/
@[simp] theorem Client.isFor_returned (answer : PermitAnswer) :
    (inside call (.returned answer)).isFor g = false :=
  Bool.and_false _

/-- A guard that has been used stays as it is. -/
theorem TokenCall.Prepared.getElem? (h : Prepared guards call guards' request)
    (hg : guards[g]? = some x) (hx : x.owned = false) : guards'[g]? = some x := by
  have hlt : g < guards.length := (List.getElem?_eq_some_iff.mp hg).1
  have hset {k : Nat} {y z : Guard} (hk : guards[k]? = some y) (hy : y.owned = true) :
      (guards.set k z)[g]? = some x := by
    have hne : k ≠ g := by
      rintro rfl
      rw [hg] at hk
      cases hk
      rw [hx] at hy
      cases hy
    rw [List.getElem?_set_ne hne, hg]
  cases h with
  | other => exact hg
  | wrap n => rw [List.getElem?_append_left hlt, hg]
  | releaseGuard hk => exact hset hk rfl
  | dropGuard hk => exact hset hk rfl

/-- A call that uses a guard leaves one use less of it. -/
theorem TokenCall.Prepared.uses_le (h : Prepared guards call guards' request) (g : Nat) :
    Guard.uses guards'[g]? +
        (if (request.elim Client.idle fun r ↦ .inside call (.called r)).isFor g then 1 else 0) ≤
      Guard.uses guards[g]? := by
  have hset {k : Nat} {y : Guard} (z : Guard) (hk : guards[k]? = some y) (hy : y.owned = true)
      (hz : z.owned = false) :
      Guard.uses (guards.set k z)[g]? + (if k = g then 1 else 0) ≤ Guard.uses guards[g]? := by
    by_cases hkg : k = g
    · subst hkg
      rw [List.getElem?_set_self (List.getElem?_eq_some_iff.mp hk).1, hk]
      simp [Guard.uses, hy, hz]
    · rw [List.getElem?_set_ne hkg, if_neg hkg]
      exact Nat.le_refl _
  cases h with
  | other hother => simp [Client.isFor, hother]
  | wrap n => exact Guard.uses_append (by simp [Guard.ofCount])
  | @releaseGuard k made _ hk =>
    have := hset ⟨made, 0, false⟩ hk rfl rfl
    simpa [Client.isFor, TokenCall.guard?, PermitCall.request?] using this
  | @dropGuard k made count hk =>
    have := hset ⟨made, count, false⟩ hk rfl rfl
    split
    · exact Nat.le_trans (Nat.le_add_right _ _) this
    · simpa [Client.isFor, TokenCall.guard?, PermitCall.request?] using this

/-- No call takes anything from a guard that can still be used. -/
theorem TokenCall.Prepared.whole (h : Prepared guards call guards' request)
    (hwhole : Guard.Whole guards) : Guard.Whole guards' := by
  have hset {k : Nat} {z : Guard} (hz : z.owned = false) : Guard.Whole (guards.set k z) := by
    intro g x hx howned
    rcases Roster.of_getElem?_set hx with ⟨-, rfl⟩ | ⟨-, hold⟩
    · rw [hz] at howned
      cases howned
    · exact hwhole g x hold howned
  cases h with
  | other => exact hwhole
  | wrap n => exact hwhole.append (by simp [Guard.ofCount])
  | releaseGuard => exact hset rfl
  | dropGuard => exact hset rfl

/-- No call loses a guard. -/
theorem TokenCall.Prepared.kept (h : Prepared guards call guards' request) :
    Guard.Kept guards guards' := by
  have hset {k : Nat} {y : Guard} (z : Guard) (hk : guards[k]? = some y) (hmade : z.made = y.made) :
      Guard.Kept guards (guards.set k z) := by
    intro g x hx
    by_cases hkg : k = g
    · subst hkg
      rw [hk] at hx
      cases hx
      exact ⟨z, List.getElem?_set_self (List.getElem?_eq_some_iff.mp hk).1, hmade⟩
    · exact ⟨x, (List.getElem?_set_ne hkg).trans hx, rfl⟩
  cases h with
  | other => exact .refl guards
  | wrap n => exact Guard.kept_append guards _
  | releaseGuard hk => exact hset _ hk rfl
  | dropGuard hk => exact hset _ hk rfl

/-- What a call turns to the free permits with is what it asks for. -/
theorem TokenCall.Prepared.asks {r : PermitRequest} (h : Prepared guards call guards' (some r))
    (hwhole : Guard.Whole guards) : call.Asks guards' r := by
  generalize hrequest : some r = request at h
  cases h with
  | other _ hasks =>
    cases hrequest
    exact hasks
  | wrap n => cases hrequest
  | releaseGuard hk =>
    cases hrequest
    exact ⟨_, List.getElem?_set_self (List.getElem?_eq_some_iff.mp hk).1,
      congrArg PermitRequest.give (hwhole _ _ hk rfl)⟩
  | dropGuard hk =>
    split at hrequest <;> cases hrequest
    exact ⟨_, List.getElem?_set_self (List.getElem?_eq_some_iff.mp hk).1,
      congrArg PermitRequest.give (hwhole _ _ hk rfl)⟩

end prepare

/-! ### Steps -/

/-- How far a client has come with its call. -/
inductive Progress where
  | idle
  | called (call : TokenCall) (request : PermitRequest)
  | answered (call : TokenCall) (answer : PermitAnswer)

/-- How far a client has come with its call. -/
def Client.progress : Client → Progress
  | idle | recording _ => .idle
  | inside call (.called request) | inside call (.trying request _) => .called call request
  | inside call (.returned answer) => .answered call answer

namespace PermitEvent

/-- Whose event it is. -/
def client : PermitEvent → Nat
  | called i _ _ | answered i _ _ _ | returned i _ _ => i

/-- The permits that have been taken in an event. -/
def taken : PermitEvent → Nat
  | answered _ _ _ (.taken n) => n
  | _ => 0

/-- The permits that have been given back in an event. -/
def given : PermitEvent → Nat
  | answered _ _ (.give n) .given => n
  | _ => 0

/-- Whether a call has been answered in an event. -/
def isAnswer : PermitEvent → Bool
  | answered .. => true
  | _ => false

/-- Whether giving back the permits of a guard has been answered in an event. -/
def isFor (g : Nat) : PermitEvent → Bool
  | answered _ call _ _ => call.guard? == some g
  | _ => false

end PermitEvent

namespace Clientele

variable {budget clients : Nat} {s s' : Clientele} {act : ClientStep}

/-- What one step does, by what comes of it. -/
inductive Turned (s : Clientele) : Clientele → Prop
  /-- A call is made. -/
  | asked {i : Nat} {call : TokenCall} {guards : List Guard} {request : Option PermitRequest}
      (hidle : s.clients[i]? = some .idle) (hprepared : call.Prepared s.guards guards request) :
      Turned s ({ s with guards }.ask i call request)
  /-- An access sees a number of free permits. -/
  | looked {i : Nat} {call : TokenCall} {access : PermitCall} {request : PermitRequest}
      (hclient : s.clients[i]? = some (.inside call access))
      (hrequest : access.request? = some request)
      (hsuits : request.Suits s.permits.budget s.permits.available) :
      Turned s (s.setClient i (.inside call (.trying request s.permits.available)))
  /-- An access answers its call. -/
  | answered {i : Nat} {call : TokenCall} {access : PermitCall} {request : PermitRequest}
      {answer : PermitAnswer} {permits : Permits}
      (hclient : s.clients[i]? = some (.inside call access))
      (hrequest : access.request? = some request)
      (heffect : request.Effect s.permits answer permits) :
      Turned s (({ s with permits }.setClient i (.inside call (.returned answer))).note
        (.answered i call request answer))
  /-- A call returns. -/
  | returned {i : Nat} {call : TokenCall} {answer : PermitAnswer} {client : Client}
      {made : List Guard} (hclient : s.clients[i]? = some (.inside call (.returned answer)))
      (hprogress : client.progress = .idle) (hmade : ∀ x ∈ made, x = Guard.ofCount 1) :
      Turned s (({ s with guards := s.guards ++ made }.setClient i client).note
        (.returned i call (call.outcome s.permits.budget answer)))
  /-- A refusal is recorded. -/
  | recorded {i : Nat} {failure : Failure} {children : Children}
      (hclient : s.clients[i]? = some (.recording failure)) :
      Turned s ({ s with children }.setClient i .idle)

/-- What is true of a clientele between two steps: no more permits are free than there are, whoever
is about to exchange a number has seen one that suits its request, and a guard that is being
released is empty. -/
structure Orderly (budget : Nat) (s : Clientele) : Prop where
  budget_eq : s.permits.budget = budget
  available_le : s.permits.available ≤ budget
  sound : ∀ (i : Nat) call access, s.clients[i]? = some (.inside call access) → access.Sound budget
  emptied : ∀ (i g : Nat) access, s.clients[i]? = some (.inside (.releaseGuard g) access) →
    ∃ made, s.guards[g]? = some ⟨made, 0, false⟩

private theorem turned_finish (h : s.Orderly budget) {i : Nat} {call : TokenCall}
    {answer : PermitAnswer} (hclient : s.clients[i]? = some (.inside call (.returned answer))) :
    Turned s (s.finish i call answer) := by
  have hplain {client : Client} (hprogress : client.progress = .idle) :
      Turned s ((s.note (.returned i call (call.outcome s.permits.budget answer))).setClient i
        client) := by
    have := @Turned.returned s i call answer client [] hclient hprogress (by simp)
    rwa [List.append_nil] at this
  unfold finish
  split
  · exact .returned hclient rfl (by simp)
  · next _ g =>
    obtain ⟨made, hg⟩ := h.emptied i g _ hclient
    have hnone : s.guards[g]?.bind Guard.dropRequest = none := by rw [hg]; rfl
    change Turned s (Clientele.ask _ i (.dropGuard g) (s.guards[g]?.bind Guard.dropRequest))
    rw [hnone]
    exact hplain rfl
  · exact hplain rfl
  · exact hplain rfl

/-- Whatever step is taken, it is one of these. -/
theorem turned_of_step (h : s.Orderly budget) (hstep : s.step act = some s') : Turned s s' := by
  cases act with
  | call i call =>
    rw [step] at hstep
    split at hstep
    · next hidle =>
      obtain ⟨⟨guards, request⟩, hprepare, rfl⟩ := Option.map_eq_some_iff.mp hstep
      exact .asked hidle (TokenCall.prepared hprepare)
    · cases hstep
  | access i spurious =>
    rw [step] at hstep
    split at hstep
    · next call access hclient =>
      obtain ⟨request, hrequest, rfl⟩ := Option.map_eq_some_iff.mp hstep
      have hle : s.permits.available ≤ s.permits.budget := h.budget_eq ▸ h.available_le
      have hsound := h.budget_eq ▸ h.sound i call access hclient
      rw [Clientele.access]
      rcases PermitCall.advance_cases hle hsound hrequest spurious with
        ⟨hadvance, hsuits⟩ | ⟨answer, permits, hadvance, heffect⟩
      · rw [hadvance]
        exact .looked hclient hrequest hsuits
      · rw [hadvance]
        exact .answered hclient hrequest heffect
    · cases hstep
  | finish i =>
    rw [step] at hstep
    split at hstep
    · next call answer hclient =>
      cases hstep
      exact turned_finish h hclient
    · next failure hclient =>
      cases hstep
      exact .recorded hclient
    · cases hstep

/-- A call that is made changes its client, and the history if it asks for anything. -/
theorem ask_eq (s : Clientele) (i : Nat) (call : TokenCall) (request : Option PermitRequest) :
    s.ask i call request =
      { s with
        clients := s.clients.set i (request.elim .idle fun r ↦ .inside call (.called r))
        history := (request.map (.called i call)).toList ++ s.history } := by
  cases request <;> rfl

/-- The clients of a new token are in order. -/
theorem orderly_ofClients (budget clients : Nat) : (ofClients budget clients).Orderly budget := by
  have hidle {i : Nat} {client : Client}
      (h : (List.replicate clients Client.idle)[i]? = some client) : client = .idle :=
    List.eq_of_mem_replicate (List.mem_of_getElem? h)
  refine ⟨rfl, Nat.le_refl _, fun i call access h ↦ ?_, fun i g access h ↦ ?_⟩
  · cases hidle h
  · cases hidle h

namespace Orderly

/-- Every step keeps a clientele in order. -/
theorem turned (h : s.Orderly budget) (hturned : Turned s s') : s'.Orderly budget := by
  cases hturned with
  | @asked i call guards request hidle hprepared =>
    rw [ask_eq]
    refine ⟨h.budget_eq, h.available_le, fun j call' access hj ↦ ?_, fun j g access hj ↦ ?_⟩
    · rcases Roster.of_getElem?_set hj with ⟨rfl, hclient⟩ | ⟨-, hj⟩
      · cases request <;> cases hclient
        trivial
      · exact h.sound j call' access hj
    · rcases Roster.of_getElem?_set hj with ⟨rfl, hclient⟩ | ⟨-, hj⟩
      · cases request with
        | none => cases hclient
        | some r =>
          cases hclient
          cases hprepared with
          | other hother => cases hother
          | @releaseGuard g made count hg =>
            exact ⟨made, List.getElem?_set_self (List.getElem?_eq_some_iff.mp hg).1⟩
      · obtain ⟨made, hg⟩ := h.emptied j g access hj
        exact ⟨made, hprepared.getElem? hg rfl⟩
  | @looked i call access request hclient hrequest hsuits =>
    refine ⟨h.budget_eq, h.available_le, fun j call' access' hj ↦ ?_, fun j g access' hj ↦ ?_⟩
    · rcases Roster.of_getElem?_set hj with ⟨rfl, hnew⟩ | ⟨-, hj⟩
      · cases hnew
        rw [h.budget_eq] at hsuits
        exact hsuits
      · exact h.sound j call' access' hj
    · rcases Roster.of_getElem?_set hj with ⟨rfl, hnew⟩ | ⟨-, hj⟩
      · cases hnew
        exact h.emptied j g access hclient
      · exact h.emptied j g access' hj
  | @answered i call access request answer permits hclient hrequest heffect =>
    obtain ⟨hbudget, hle⟩ := heffect.available_le (h.budget_eq ▸ h.available_le)
    rw [h.budget_eq] at hbudget
    refine ⟨hbudget, hbudget ▸ hle, fun j call' access' hj ↦ ?_, fun j g access' hj ↦ ?_⟩
    · rcases Roster.of_getElem?_set hj with ⟨rfl, hnew⟩ | ⟨-, hj⟩
      · cases hnew
        trivial
      · exact h.sound j call' access' hj
    · rcases Roster.of_getElem?_set hj with ⟨rfl, hnew⟩ | ⟨-, hj⟩
      · cases hnew
        exact h.emptied j g access hclient
      · exact h.emptied j g access' hj
  | @returned i call answer client made hclient hprogress hmade =>
    have hold {j : Nat} {call' : TokenCall} {access : PermitCall}
        (hj : (s.clients.set i client)[j]? = some (.inside call' access)) :
        s.clients[j]? = some (.inside call' access) := by
      rcases Roster.of_getElem?_set hj with ⟨rfl, rfl⟩ | ⟨-, hj⟩
      · cases access <;> cases hprogress
      · exact hj
    refine ⟨h.budget_eq, h.available_le, fun j call' access hj ↦ h.sound j call' access (hold hj),
      fun j g access hj ↦ ?_⟩
    obtain ⟨n, hg⟩ := h.emptied j g access (hold hj)
    exact ⟨n, (List.getElem?_append_left (List.getElem?_eq_some_iff.mp hg).1).trans hg⟩
  | @recorded i failure children hclient =>
    have hold {j : Nat} {call' : TokenCall} {access : PermitCall}
        (hj : (s.clients.set i .idle)[j]? = some (.inside call' access)) :
        s.clients[j]? = some (.inside call' access) := by
      rcases Roster.of_getElem?_set hj with ⟨-, hnew⟩ | ⟨-, hj⟩
      · cases hnew
      · exact hj
    exact ⟨h.budget_eq, h.available_le, fun j call' access hj ↦ h.sound j call' access (hold hj),
      fun j g access hj ↦ h.emptied j g access (hold hj)⟩

end Orderly

/-- What can be reached is in order. -/
theorem Reachable.orderly (h : Reachable budget clients s) : s.Orderly budget := by
  induction h with
  | start => exact orderly_ofClients budget clients
  | step _ hstep ih => exact ih.turned (turned_of_step ih hstep)

/-- A step that answers a call gives it its effect; any other leaves the permits as they are. -/
theorem Turned.instant (h : Turned s s') :
    (∃ i call request answer, s'.history = .answered i call request answer :: s.history ∧
      request.Effect s.permits answer s'.permits) ∨
    (s'.permits = s.permits ∧ ∃ event : Option PermitEvent,
      s'.history = event.toList ++ s.history ∧ ∀ e ∈ event, e.isAnswer = false) := by
  cases h with
  | @asked i call guards request hidle hprepared =>
    rw [ask_eq]
    refine .inr ⟨rfl, _, rfl, fun e he ↦ ?_⟩
    obtain ⟨r, -, rfl⟩ := Option.map_eq_some_iff.mp he
    rfl
  | looked => exact .inr ⟨rfl, none, rfl, fun e he ↦ by cases he⟩
  | answered hclient hrequest heffect => exact .inl ⟨_, _, _, _, rfl, heffect⟩
  | returned => exact .inr ⟨rfl, some _, rfl, fun e he ↦ by cases he; rfl⟩
  | recorded => exact .inr ⟨rfl, none, rfl, fun e he ↦ by cases he⟩

/-- What is true of a new token and kept by every step is true of whatever can be reached. -/
theorem Reachable.induction {motive : Clientele → Prop} (h : Reachable budget clients s)
    (start : motive (ofClients budget clients))
    (step : ∀ {s s'}, s.Orderly budget → Turned s s' → motive s → motive s') : motive s := by
  induction h with
  | start => exact start
  | step h hstep ih => exact step h.orderly (turned_of_step h.orderly hstep) ih

/-! ### Effects -/

/-- The permits that the effects of a history lead to, one effect after the other. -/
inductive Replays (budget : Nat) : List PermitEvent → Permits → Prop
  | start : Replays budget [] (.ofBudget budget)
  | called {i : Nat} {call : TokenCall} {request : PermitRequest} {events : List PermitEvent}
      {p : Permits} (h : Replays budget events p) :
      Replays budget (.called i call request :: events) p
  /-- The answer is the effect of the request on the permits at this instant. -/
  | answered {i : Nat} {call : TokenCall} {request : PermitRequest} {answer : PermitAnswer}
      {events : List PermitEvent} {p q : Permits} (h : Replays budget events p)
      (heffect : request.Effect p answer q) :
      Replays budget (.answered i call request answer :: events) q
  | returned {i : Nat} {call : TokenCall} {outcome : Except Failure Nat}
      {events : List PermitEvent} {p : Permits} (h : Replays budget events p) :
      Replays budget (.returned i call outcome :: events) p

/-- The effects so far lead to the permits at hand. -/
theorem Reachable.replays (h : Reachable budget clients s) :
    Replays budget s.history s.permits := by
  refine h.induction (motive := fun s ↦ Replays budget s.history s.permits) .start
    fun {s s'} _ hturned ih ↦ ?_
  cases hturned with
  | @asked i call guards request hidle hprepared =>
    cases request with
    | none => exact ih
    | some request => exact .called ih
  | looked hclient hrequest hsuits => exact ih
  | answered hclient hrequest heffect => exact .answered ih heffect
  | returned hclient hprogress hmade => exact .returned ih
  | recorded hclient => exact ih

/-- What is free, and what has been given back and taken, make up the budget. -/
theorem Replays.adds_up {events : List PermitEvent} {p : Permits} (h : Replays budget events p) :
    p.budget = budget ∧ p.available ≤ budget ∧
      p.available + (events.map PermitEvent.taken).sum =
        budget + (events.map PermitEvent.given).sum := by
  induction h with
  | start => exact ⟨rfl, Nat.le_refl _, rfl⟩
  | called _ ih | returned _ ih =>
    simp only [List.map_cons, List.sum_cons, PermitEvent.taken, PermitEvent.given, Nat.zero_add]
    exact ih
  | answered _ heffect ih =>
    obtain ⟨hbudget, hle, hsum⟩ := ih
    obtain ⟨hsame, hle'⟩ := heffect.available_le (hbudget ▸ hle)
    refine ⟨hsame.trans hbudget, hbudget ▸ hsame ▸ hle', ?_⟩
    cases heffect with
    | _ =>
      simp only [List.map_cons, List.sum_cons, PermitEvent.taken, PermitEvent.given, Nat.zero_add]
      omega

/-! ### Turns -/

/-- What the events of one client come to: each of its calls is answered once before it returns, and
returns what it has been answered. -/
inductive Turns (budget i : Nat) : List PermitEvent → Progress → Prop
  | start : Turns budget i [] .idle
  /-- Another client has gone on. -/
  | other {event : PermitEvent} {events : List PermitEvent} {progress : Progress}
      (h : Turns budget i events progress) (hne : event.client ≠ i) :
      Turns budget i (event :: events) progress
  | called {call : TokenCall} {request : PermitRequest} {events : List PermitEvent}
      (h : Turns budget i events .idle) :
      Turns budget i (.called i call request :: events) (.called call request)
  | answered {call : TokenCall} {request : PermitRequest} {answer : PermitAnswer}
      {events : List PermitEvent} (h : Turns budget i events (.called call request)) :
      Turns budget i (.answered i call request answer :: events) (.answered call answer)
  | returned {call : TokenCall} {answer : PermitAnswer} {events : List PermitEvent}
      (h : Turns budget i events (.answered call answer)) :
      Turns budget i (.returned i call (call.outcome budget answer) :: events) .idle

private theorem progress_of_request? {call : TokenCall} {access : PermitCall}
    {request : PermitRequest} (h : access.request? = some request) :
    (Client.inside call access).progress = .called call request := by
  cases access <;> cases h <;> rfl

/-- The events of each client lead to what it does. -/
theorem Reachable.turns (h : Reachable budget clients s) {i : Nat} {client : Client}
    (hi : s.clients[i]? = some client) : Turns budget i s.history client.progress := by
  revert client
  refine h.induction (motive := fun s ↦ ∀ {client : Client}, s.clients[i]? = some client →
    Turns budget i s.history client.progress) ?_ ?_
  · intro client hi
    obtain rfl : client = .idle := List.eq_of_mem_replicate (List.mem_of_getElem? hi)
    exact .start
  intro s s' horderly hturned ih client hi
  cases hturned with
  | @asked k call guards request hidle hprepared =>
    rw [ask_eq] at hi ⊢
    rcases Roster.of_getElem?_set hi with ⟨rfl, rfl⟩ | ⟨hne, hold⟩
    · cases request with
      | none => exact ih hidle
      | some request => exact .called (ih hidle)
    · cases request with
      | none => exact ih hold
      | some request => exact .other (ih hold) hne.symm
  | @looked k call access request hclient hrequest hsuits =>
    rcases Roster.of_getElem?_set hi with ⟨rfl, rfl⟩ | ⟨hne, hold⟩
    · have hprogress := ih hclient
      rwa [progress_of_request? hrequest] at hprogress
    · exact ih hold
  | @answered k call access request answer permits hclient hrequest heffect =>
    rcases Roster.of_getElem?_set hi with ⟨rfl, rfl⟩ | ⟨hne, hold⟩
    · have hprogress := ih hclient
      rw [progress_of_request? hrequest] at hprogress
      exact .answered hprogress
    · exact .other (ih hold) hne.symm
  | @returned k call answer client' made hclient hprogress hmade =>
    rcases Roster.of_getElem?_set hi with ⟨rfl, rfl⟩ | ⟨hne, hold⟩
    · rw [hprogress]
      have hreturned := Turns.returned (ih hclient)
      rwa [← horderly.budget_eq] at hreturned ⊢
    · exact .other (ih hold) hne.symm
  | @recorded k failure children hclient =>
    rcases Roster.of_getElem?_set hi with ⟨rfl, rfl⟩ | ⟨hne, hold⟩
    · have hprogress := ih hclient
      exact hprogress
    · exact ih hold

/-! ### Uses of guards -/

/-- The guards are used at most once, and every call asks for what it is to ask for. -/
structure Sparing (s : Clientele) : Prop where
  once : ∀ g, s.history.countP (PermitEvent.isFor g) + s.clients.countP (Client.isFor g) +
    Guard.uses s.guards[g]? ≤ 1
  whole : Guard.Whole s.guards
  asked : ∀ (i : Nat) call access, s.clients[i]? = some (.inside call access) →
    ∀ request, access.request? = some request → call.Asks s.guards request
  answered : ∀ i call request answer, .answered i call request answer ∈ s.history →
    call.Asks s.guards request

/-- At the start no guard has been made. -/
theorem sparing_ofClients (budget clients : Nat) : (ofClients budget clients).Sparing where
  once g := by simp [ofClients, Guard.uses, List.countP_replicate]
  whole g x hx _ := by simp [ofClients] at hx
  asked i call access hi request _ := by
    cases List.eq_of_mem_replicate (List.mem_of_getElem? hi)
  answered i call request answer hmem := absurd hmem List.not_mem_nil

namespace Sparing

private theorem once_set (h : s.Sparing) {i g : Nat} {client client' : Client}
    {history : List PermitEvent} {guards : List Guard} (hi : s.clients[i]? = some client)
    (hle : history.countP (PermitEvent.isFor g) + (if client'.isFor g then 1 else 0) +
        Guard.uses guards[g]? ≤
      s.history.countP (PermitEvent.isFor g) + (if client.isFor g then 1 else 0) +
        Guard.uses s.guards[g]?) :
    history.countP (PermitEvent.isFor g) + (s.clients.set i client').countP (Client.isFor g) +
      Guard.uses guards[g]? ≤ 1 := by
  have honce := h.once g
  have hcount := Roster.countP_set_add hi (Client.isFor g) client'
  omega

private theorem asked_set (h : s.Sparing) {i : Nat} {client : Client} {guards : List Guard}
    (hkept : Guard.Kept s.guards guards)
    (hnew : ∀ call access, client = .inside call access → ∀ request,
      access.request? = some request → call.Asks guards request)
    (j : Nat) (call : TokenCall) (access : PermitCall)
    (hj : (s.clients.set i client)[j]? = some (.inside call access)) (request : PermitRequest)
    (hrequest : access.request? = some request) : call.Asks guards request := by
  rcases Roster.of_getElem?_set hj with ⟨-, rfl⟩ | ⟨-, hold⟩
  · exact hnew call access rfl request hrequest
  · exact (h.asked j call access hold request hrequest).kept hkept

/-- Every step spares the guards. -/
theorem turned (h : s.Sparing) (hturned : Turned s s') : s'.Sparing := by
  cases hturned with
  | @asked i call guards request hidle hprepared =>
    rw [ask_eq]
    refine ⟨fun g ↦ h.once_set hidle ?_, hprepared.whole h.whole,
      h.asked_set hprepared.kept ?_, fun j call' request' answer hmem ↦ ?_⟩
    · have huses := hprepared.uses_le g
      have hhistory : ((request.map (PermitEvent.called i call)).toList ++ s.history).countP
          (PermitEvent.isFor g) = s.history.countP (PermitEvent.isFor g) := by
        cases request <;> simp [PermitEvent.isFor]
      dsimp only
      omega
    · rintro call' access hnew request' hrequest
      cases request with
      | none => cases hnew
      | some r =>
        cases hnew
        cases hrequest
        exact hprepared.asks h.whole
    · have hold : .answered j call' request' answer ∈ s.history := by
        cases request with
        | none => exact hmem
        | some r => exact (List.mem_cons.mp hmem).resolve_left (by simp)
      exact (h.answered j call' request' answer hold).kept hprepared.kept
  | @looked i call access request hclient hrequest hsuits =>
    refine ⟨fun g ↦ h.once_set hclient ?_, h.whole, h.asked_set (.refl _) ?_, h.answered⟩
    · rw [Client.isFor_inside hrequest, Client.isFor_inside rfl]
      exact Nat.le_refl _
    · rintro _ _ ⟨⟩ request' ⟨⟩
      exact h.asked i call access hclient request hrequest
  | @answered i call access request answer permits hclient hrequest heffect =>
    refine ⟨fun g ↦ h.once_set hclient ?_, h.whole, h.asked_set (.refl _) ?_,
      fun j call' request' answer' hmem ↦ ?_⟩
    · dsimp only [setClient, note]
      rw [List.countP_cons, PermitEvent.isFor, Client.isFor_inside hrequest, Client.isFor_returned,
        if_neg Bool.false_ne_true]
      exact Nat.le_refl _
    · rintro _ _ ⟨⟩ request' hrequest'
      cases hrequest'
    · rcases List.mem_cons.mp hmem with hnew | hold
      · cases hnew
        exact h.asked i call access hclient request hrequest
      · exact h.answered j call' request' answer' hold
  | @returned i call answer client made hclient hprogress hmade =>
    have hnone (call' : TokenCall) (access : PermitCall) : client ≠ .inside call' access := by
      rintro rfl
      cases access <;> cases hprogress
    refine ⟨fun g ↦ h.once_set hclient ?_, h.whole.append fun x hx ↦ hmade x hx ▸ rfl,
      h.asked_set (Guard.kept_append _ made) fun call' access hnew ↦
        absurd hnew (hnone call' access),
      fun j call' request' answer' hmem ↦ ?_⟩
    · have huses := @Guard.uses_append s.guards g made fun x hx ↦ hmade x hx ▸ rfl
      have hidle : client.isFor g = false := by
        cases client with
        | inside call access => exact absurd rfl (hnone call access)
        | _ => rfl
      dsimp only [setClient, note]
      rw [Client.isFor_returned, hidle, List.countP_cons_of_neg (by simp [PermitEvent.isFor])]
      exact Nat.add_le_add_left huses _
    · have hold := (List.mem_cons.mp hmem).resolve_left (by simp)
      exact (h.answered j call' request' answer' hold).kept (Guard.kept_append _ made)
  | @recorded i failure children hclient =>
    refine ⟨fun g ↦ h.once_set hclient ?_, h.whole, h.asked_set (.refl _) ?_, h.answered⟩
    · rw [Client.isFor_recording, Client.isFor_idle]
      exact Nat.le_refl _
    · rintro _ _ ⟨⟩

end Sparing

/-- Whatever is reached spares the guards. -/
theorem Reachable.sparing (h : Reachable budget clients s) : s.Sparing :=
  h.induction (motive := Sparing) (sparing_ofClients budget clients)
    fun _ hturned hsparing ↦ hsparing.turned hturned

/-! ### The whole -/

/-- The calls of any number of clients, however their accesses alternate, have the effect of calls
that are made one after the other. -/
structure Linearizes (budget clients : Nat) : Prop where
  /-- The budget stays, and no more permits are free than it has. -/
  available_le : ∀ {s}, Reachable budget clients s →
    s.permits.budget = budget ∧ s.permits.available ≤ budget
  /-- Neither what an exchange takes from a number that has been seen nor what it adds to it leads
  out of the budget. -/
  in_range : ∀ {s}, Reachable budget clients s → ∀ {i : Nat} {call request current},
    s.clients[i]? = some (.inside call (.trying request current)) → request.Suits budget current
  /-- One step answers a call, which then takes effect on the permits at hand; any other step leaves
  them as they are. -/
  instant : ∀ {s s' act}, Reachable budget clients s → s.step act = some s' →
    (∃ i call request answer, s'.history = .answered i call request answer :: s.history ∧
      request.Effect s.permits answer s'.permits) ∨
    (s'.permits = s.permits ∧ ∃ event : Option PermitEvent,
      s'.history = event.toList ++ s.history ∧ ∀ e ∈ event, e.isAnswer = false)
  /-- The effects, one after the other, lead from a new token to the permits at hand. -/
  replays : ∀ {s}, Reachable budget clients s → Replays budget s.history s.permits
  /-- Each call is answered at one instant between its beginning and its return. -/
  turns : ∀ {s}, Reachable budget clients s → ∀ {i : Nat} {client}, s.clients[i]? = some client →
    Turns budget i s.history client.progress
  /-- What has been answered is what the call has asked for. -/
  asks : ∀ {s}, Reachable budget clients s → ∀ {i call request answer},
    .answered i call request answer ∈ s.history → call.Asks s.guards request
  /-- The permits of a guard are given back at most once. -/
  once : ∀ {s}, Reachable budget clients s → ∀ g, s.history.countP (PermitEvent.isFor g) ≤ 1
  /-- What is free is the budget without what has been taken and with what has been given back. -/
  adds_up : ∀ {s}, Reachable budget clients s →
    s.permits.available + (s.history.map PermitEvent.taken).sum =
      budget + (s.history.map PermitEvent.given).sum

/-- Every budget is shared so, among any number of clients. -/
theorem linearizes (budget clients : Nat) : Linearizes budget clients where
  available_le h := ⟨h.orderly.budget_eq, h.orderly.available_le⟩
  in_range h _ _ _ _ hclient := h.orderly.sound _ _ _ hclient
  instant h hstep := (turned_of_step h.orderly hstep).instant
  replays h := h.replays
  turns h _ _ hclient := h.turns hclient
  asks h _ _ _ _ hmem := h.sparing.answered _ _ _ _ hmem
  once h g := by
    have := h.sparing.once g
    omega
  adds_up h := h.replays.adds_up.2.2

/-- Two clients have seen two free permits. The exchange of the second fails for no reason and then
takes one; that of the first fails for it and takes the other one, not the two it has asked for. -/
example :
    (([.call 0 (.tryAcquire 2), .call 1 .permit, .access 0 false, .access 1 false, .access 1 true,
      .access 1 false, .access 0 false, .access 0 false] : List ClientStep).foldlM step
      (ofClients 2 2)).map (·.clients) =
    some [.inside (.tryAcquire 2) (.returned (.taken 1)),
      .inside .permit (.returned (.taken 1))] := by
  decide

end Clientele
end RayAdjacency
