import RayAdjacency.Sharing.Token

/-!
# Guards

A guard holds permits and gives them back once: when it is released, which may be refused, or when
it goes out of use, where a refusal is recorded as a failure. `Guarded` is a token with its guards
in slots; a slot whose guard is gone stays empty.

Models `PermitGuard`: `release`, and its drop.
-/

namespace RayAdjacency

/-- A token with its guards. -/
structure Guarded where
  token : Token
  /-- The number of permits of each guard, unless the guard is gone. -/
  slots : Array (Option Nat) := #[]
deriving Inhabited

namespace Guarded

/-- Takes one permit in a new guard; without a free permit the slot is empty. -/
def permit (g : Guarded) : Bool × Guarded :=
  match g.token.tryAcquire 1 with
  | (1, token) => (true, { token, slots := g.slots.push (some 1) })
  | (_, token) => (false, { token, slots := g.slots.push none })

/-- Puts permits that are taken already into a new guard. -/
def wrap (g : Guarded) (n : Nat) : Guarded := { g with slots := g.slots.push (some n) }

/-- Number of permits of a guard, unless it is gone. -/
def count (g : Guarded) (slot : Nat) : Option Nat := g.slots.getD slot none

/-- Removes the guard of a slot. -/
def clear (g : Guarded) (slot : Nat) : Guarded :=
  { g with slots := g.slots.setIfInBounds slot none }

/-- A guard goes out of use. -/
def drop (g : Guarded) (slot : Nat) : Bool × List LogRecord × Guarded :=
  match g.count slot with
  | none => (false, [], g)
  | some n =>
    let (token, records) := g.token.dropGuard n
    (true, records, { g.clear slot with token })

/-- Releases a guard. It is gone afterwards, even if its permits are refused. -/
def release (g : Guarded) (slot : Nat) : Option (Except Failure Unit) × Guarded :=
  match g.count slot with
  | none => (none, g)
  | some n =>
    match g.token.release n with
    | .ok token => (some (.ok ()), { g.clear slot with token })
    | .error failure => (some (.error failure), g.clear slot)

/-- All guards go out of use, in the order of their slots. -/
def dropAll (g : Guarded) : List LogRecord × Guarded :=
  (List.range g.slots.size).foldl (fun (records, g) slot ↦
    let (_, more, g) := g.drop slot
    (records ++ more, g)) ([], g)

end Guarded
end RayAdjacency
