import RayAdjacency.Ray

/-!
# Ray stores

A `Store` is ordered, randomly indexable and partitionable in place. It is changed only while trees
are built, by one thread; during a search it is read alone. A store may refuse calls: `Refusals`
says which, by the number of the call, so a statement over all stores covers every pattern of
failing calls. A call that fails changes nothing but the count of calls.

`Store.partition` moves the rays without a bit in front of those with it. Trees are built over the
windows that it leaves.

Models `ColumnStore` as `VecColumnStore` implements it, and `RayStores` with its `StoreSet`: `read`,
`swap`, `partition` and the two `patternWidth` are `column`, `swap`, `partition` and
`pattern_width`.
-/

namespace RayAdjacency

/-- Which calls of a store fail. -/
structure Refusals where
  /-- The refusal of a read, by the number of reads before it, the index and the ray there. -/
  read : Nat → Nat → Ray → Option Failure := fun _ _ _ ↦ none
  /-- The refusal of an exchange, by the number of exchanges before it. -/
  swap : Nat → Option Failure := fun _ ↦ none

/-- A call of a store. Asking for the number of rays neither fails nor changes anything, and is not
counted as one. -/
inductive StoreCall where
  | read (index : Nat)
  | swap (a b : Nat)
  | partition (start stop bit : Nat)
deriving Repr, DecidableEq

/-- Ordered rays with the calls made so far. -/
structure Store where
  rays : Array Ray
  refusals : Refusals := {}
  reads : Nat := 0
  swaps : Nat := 0
  /-- The calls, the latest one at the head; no call looks at them. -/
  calls : List StoreCall := []

/-- A computation that reads and reorders one store. The store as it stands at a failure is kept. -/
abbrev StoreM (α : Type) := ExceptT Stop (StateM Store) α

namespace Store

/-- A store that answers every call. -/
def ofRays (rays : List Ray) : Store := { rays := rays.toArray }

/-- Number of rays. -/
def size (s : Store) : Nat := s.rays.size

/-- The identifiers of the rays, in order. -/
def ids (s : Store) : List Nat := s.rays.toList.map Ray.id

/-- The answer to the read of index `i` that `k` reads precede. -/
def answer (s : Store) (k i : Nat) : Outcome Ray :=
  match s.rays[i]? with
  | none => do
    let stop ← Outcome.add i 1
    Outcome.fail (.invalidRange i stop s.size)
  | some ray =>
    match s.refusals.read k i ray with
    | some failure => Outcome.fail failure
    | none => .ok ray

/-- The ray at index `i`. -/
def read (i : Nat) : StoreM Ray := do
  let s ← get
  set { s with reads := s.reads + 1, calls := .read i :: s.calls }
  liftExcept (s.answer s.reads i)

/-- Exchanges the rays at two indices. -/
def swap (a b : Nat) : StoreM Unit := do
  let s ← get
  set { s with swaps := s.swaps + 1, calls := .swap a b :: s.calls }
  match s.refusals.swap s.swaps with
  | some failure => throw (.failed failure)
  | none =>
    if a < s.size ∧ b < s.size then
      modify fun s ↦ { s with rays := s.rays.swapIfInBounds a b }
    else
      let stop ← liftExcept (Outcome.add (max a b) 1)
      throw (.failed (.invalidRange (min a b) stop s.size))

/-- Moves the rays of the window of length `gap` at `low` that have `bit` clear in front of the
others, and returns the index of the first ray with `bit` set. The ray at `low` is looked at; one
with the bit changes places with the last of the window, which is looked at next. -/
def split (bit : Nat) : Nat → Nat → StoreM Nat
  | 0, low => pure low
  | gap + 1, low => do
    let ray ← read low
    if ray.pattern.contains bit then
      swap low (low + gap)
      split bit gap low
    else
      split bit gap (low + 1)

/-- Reorders the window from `start` to `stop` so that the rays with `bit` clear precede those with
`bit` set, and returns the index of the first of the latter. -/
def partition (start stop bit : Nat) : StoreM Nat := do
  let s ← get
  set { s with calls := .partition start stop bit :: s.calls }
  if start ≤ stop ∧ stop ≤ s.size then split bit (stop - start) start
  else throw (.failed (.invalidRange start stop s.size))

/-- The width of the zero patterns, as the first ray shows it. -/
def patternWidth : StoreM (Option Nat) := do
  let s ← get
  if s.size = 0 then return none
  return some (← read 0).pattern.capacity

end Store

/-- The three groups of rays of one iteration step. -/
structure Stores where
  positive : Store
  negative : Store
  zero : Store

/-- A computation that reads and reorders the three stores. -/
abbrev StoresM (α : Type) := ExceptT Stop (StateM Stores) α

namespace Stores

/-- Three stores without rays. -/
def empty : Stores := ⟨Store.ofRays [], Store.ofRays [], Store.ofRays []⟩

/-- The store of one side. -/
def side (s : Stores) : Side → Store
  | .positive => s.positive
  | .negative => s.negative
  | .zero => s.zero

/-- Replaces the store of one side. -/
def setSide (s : Stores) (side : Side) (store : Store) : Stores :=
  match side with
  | .positive => { s with positive := store }
  | .negative => { s with negative := store }
  | .zero => { s with zero := store }

/-- Runs a computation on the store of one side. -/
def on {α : Type} (side : Side) (m : StoreM α) : StoresM α := do
  let s ← get
  let (result, store) := m.run.run (s.side side)
  set (s.setSide side store)
  liftExcept result

/-- The zeros that a positive and a negative ray share. -/
def shared (s : Stores) (p n : Nat) : Outcome Pattern := do
  let positive ← s.positive.answer s.positive.reads p
  let negative ← s.negative.answer s.negative.reads n
  return positive.pattern.inter negative.pattern

/-- The common width of the zero patterns, given the width found so far. -/
def agree (found : Option Nat) (side : Side) : StoresM (Option Nat) := do
  match found, ← on side Store.patternWidth with
  | some expected, some got =>
    if expected = got then return found
    else throw (.failed (.widthMismatch expected got))
  | none, some got => return some got
  | _, none => return found

/-- The common width of the zero patterns of all three stores; 0 if all are empty. -/
def patternWidth : StoresM Nat := do
  let found ← [Side.positive, .negative, .zero].foldlM agree none
  return found.getD 0

end Stores
end RayAdjacency
