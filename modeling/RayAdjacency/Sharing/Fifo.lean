/-!
# First-in first-out queues

A queue as two lists: `front` is taken from its head, `back` holds the newest items in reverse.
`Fifo.toList` is the order in which the items are taken.

Models the two ends of a channel.
-/

namespace RayAdjacency

/-- A first-in first-out queue. -/
structure Fifo (α : Type) where
  front : List α := []
  back : List α := []

namespace Fifo

variable {α : Type}

instance : Inhabited (Fifo α) := ⟨{}⟩

/-- The items in the order in which they are taken. -/
def toList (q : Fifo α) : List α := q.front ++ q.back.reverse

/-- The queue of the given items. -/
def ofList (items : List α) : Fifo α := ⟨items, []⟩

/-- Number of items. -/
def length (q : Fifo α) : Nat := q.front.length + q.back.length

/-- Whether the queue holds no item. -/
def isEmpty (q : Fifo α) : Bool := q.front.isEmpty && q.back.isEmpty

/-- Adds an item at the end. -/
def push (q : Fifo α) (a : α) : Fifo α := { q with back := a :: q.back }

/-- Takes the first item. -/
def pop? (q : Fifo α) : Option (α × Fifo α) :=
  match q.front with
  | a :: front => some (a, { q with front })
  | [] =>
    match q.back.reverse with
    | a :: front => some (a, ⟨front, []⟩)
    | [] => none

/-- A pushed item is taken last. -/
theorem toList_push (q : Fifo α) (a : α) : (q.push a).toList = q.toList ++ [a] := by
  simp [push, toList]

/-- The length is that of the view. -/
theorem length_toList (q : Fifo α) : q.toList.length = q.length := by
  simp [toList, length]

/-- Nothing is taken from an empty queue only. -/
theorem pop?_eq_none_iff (q : Fifo α) : q.pop? = none ↔ q.toList = [] := by
  rcases q with ⟨_ | ⟨a, front⟩, back⟩
  · simp only [pop?, toList, List.nil_append]
    cases back.reverse <;> simp
  · simp [pop?, toList]

/-- What is taken is the first item of the view, and the rest of the view is left. -/
theorem toList_of_pop? {q r : Fifo α} {a : α} (h : q.pop? = some (a, r)) :
    q.toList = a :: r.toList := by
  rcases q with ⟨_ | ⟨b, front⟩, back⟩
  · simp only [pop?] at h
    cases hb : back.reverse with
    | nil => simp [hb] at h
    | cons b front =>
      simp only [hb, Option.some.injEq, Prod.mk.injEq] at h
      obtain ⟨rfl, rfl⟩ := h
      simp [toList, hb]
  · simp only [pop?, Option.some.injEq, Prod.mk.injEq] at h
    obtain ⟨rfl, rfl⟩ := h
    simp [toList]

end Fifo
end RayAdjacency
