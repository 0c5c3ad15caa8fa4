import RayAdjacency.Proofs.Traversal.Registry

/-!
# The queue of a search

What a step puts into the queue and what it takes from it. The queue gives its items in the order in
which they were put in, whichever threads do so.
-/

namespace RayAdjacency

namespace Fifo

variable {α : Type} {q : Fifo α}

/-- A queue holds the items that it was made of. -/
@[simp] theorem toList_ofList (items : List α) : (ofList items).toList = items := by
  simp [ofList, toList]

/-- An empty queue holds no items. -/
theorem toList_eq_nil_of_isEmpty (h : q.isEmpty = true) : q.toList = [] := by
  simp_all [isEmpty, toList]

/-- A queue grows by the item that is added. -/
theorem length_push (q : Fifo α) (a : α) : (q.push a).length = q.length + 1 := by
  rw [← length_toList, toList_push, List.length_append, length_toList, List.length_singleton]

/-- A queue shrinks by the item that is taken. -/
theorem length_of_pop? {r : Fifo α} {a : α} (h : q.pop? = some (a, r)) :
    q.length = r.length + 1 := by
  rw [← length_toList, toList_of_pop? h, List.length_cons, length_toList]

end Fifo

namespace Thread

/-- What the next step of a thread puts into the queue. -/
def pushed (plan : Plan) (t : Thread) (s : Shared) : List NodePair :=
  match t.task with
  | .seed _ => [plan.site.root.start]
  | .offer _ (pair :: _) => if s.queue.length < plan.capacity then [pair] else []
  | .expand =>
    match plan.site.root.expandLevels plan.config.strategy.levels [plan.site.root.start]
        s.token.tally with
    | .ok (frontier, _) => frontier
    | .error _ => []
  | _ => []

/-- What the next step of a thread takes from the queue. -/
def popped (t : Thread) (s : Shared) : List NodePair :=
  match t.task with
  | .take | .participate _ => (s.queue.pop?.map Prod.fst).toList
  | _ => []

variable {plan : Plan} {chance : Chance} {caller : Bool} {t : Thread} {s : Shared}

private theorem queue_enterPair (pair : NodePair) :
    (enterPair plan t s pair).shared.queue = s.queue := by
  rcases enterPair_eq plan t s pair with ⟨-, hmove⟩ | ⟨-, task, -, hmove⟩ <;> rw [hmove]

private theorem queue_comparePair (env : Interference) (pair : NodePair) :
    (comparePair plan env t s pair).shared.queue = s.queue := by
  fun_cases comparePair plan env t s pair <;> rfl

private theorem queue_resume (frame : Frame) (outcome : Outcome Unit) :
    (resume plan caller t s frame outcome).shared.queue = s.queue := by
  fun_cases resume plan caller t s frame outcome <;> simp

/-- The queue before a step and what the step puts in are what it takes out and the queue after
it. -/
theorem queue_advance (hexpand : t.task = .expand → s.queue.toList = []) :
    s.queue.toList ++ t.pushed plan s =
      t.popped s ++ (t.advance plan chance caller s).shared.queue.toList := by
  rw [pushed, popped]
  fun_cases advance plan chance caller t s
  all_goals rw [‹t.task = _›]
  all_goals try
    simp
    done
  · simp [queue_enterPair]
  · simp [queue_comparePair]
  · rw [Shared.queue_note]
    exact List.append_nil _
  · rw [‹Root.expandLevels .. = _›]
    simp
  · rw [‹Root.expandLevels .. = _›]
    rw [hexpand ‹_›]
    exact (Fifo.toList_ofList _).symm
  · rw [Shared.queue_note]
    exact List.append_nil _
  · simp [‹s.queue.pop? = _›]
  · simp [‹s.queue.pop? = _›, Fifo.toList_of_pop? ‹_›]
  · exact (Fifo.toList_push _ _).symm
  · simp [‹s.queue.length < plan.capacity›, Fifo.toList_push]
  · simp [‹¬s.queue.length < plan.capacity›]
  · dsimp only
    split <;> exact List.append_nil _
  · simp [‹s.queue.pop? = _›, Fifo.toList_of_pop? ‹_›]
  · simp [‹s.queue.pop? = _›]
  · simp [queue_resume]

end Thread
end RayAdjacency
