import RayAdjacency.Outcome

/-!
# Computations that may stop early

Stores, draws, builds and comparisons are all computations over a state that survives a stop.
`Ends m s good bad` says what holds after such a computation: `good` of its value and the state it
leaves, or `bad` of the reason why it has stopped and that state. It distributes over the steps of
a computation, so a statement about a sequence follows from statements about its steps.
-/

namespace RayAdjacency

variable {σ τ α β : Type}

/-- A value is handed on. -/
@[simp] theorem Outcome.ok_bind (a : α) (f : α → Outcome β) : (Except.ok a >>= f) = f a := rfl

/-- A stop is passed on. -/
@[simp] theorem Outcome.error_bind (stop : Stop) (f : α → Outcome β) :
    (Except.error stop >>= f) = .error stop := rfl

/-- An outcome is handed on as it is. -/
@[simp] theorem Outcome.liftExcept_eq (x : Outcome α) : (liftExcept x : Outcome α) = x := by
  cases x <;> rfl

/-- The value of two computations in a row comes from a value of the first. -/
theorem Outcome.exists_of_bind {x : Outcome α} {f : α → Outcome β} {b : β}
    (h : (x >>= f) = .ok b) : ∃ a, x = .ok a ∧ f a = .ok b := by
  cases x with
  | error stop => cases h
  | ok a => exact ⟨a, rfl, h⟩

/-- The reason why there is no value. -/
def Outcome.stop? : Outcome α → Option Stop
  | .ok _ => none
  | .error stop => some stop

/-- A computation that stops leaves a state behind. -/
theorem exists_run_error {m : ExceptT Stop (StateM σ) α} {s : σ} {stop : Stop}
    (h : Outcome.stop? (m.run.run s).1 = some stop) : ∃ s', m.run.run s = (.error stop, s') := by
  rcases hm : m.run.run s with ⟨e | a, s'⟩
  · rw [hm] at h
    cases h
    exact ⟨s', rfl⟩
  · rw [hm] at h
    cases h

/-- What holds after a computation: `good` of the value and the state left behind, or `bad` of the
reason why there is no value and that state. -/
def Ends (m : ExceptT Stop (StateM σ) α) (s : σ) (good : α → σ → Prop) (bad : Stop → σ → Prop) :
    Prop :=
  match m.run.run s with
  | (.ok a, s') => good a s'
  | (.error stop, s') => bad stop s'

variable {s : σ} {good : α → σ → Prop} {bad : Stop → σ → Prop}

/-- What holds after a computation that has given a value. -/
theorem Ends.of_ok {m : ExceptT Stop (StateM σ) α} (h : Ends m s good bad) {a : α} {s' : σ}
    (hm : m.run.run s = (.ok a, s')) : good a s' := by
  unfold Ends at h
  rwa [hm] at h

/-- What holds after a computation that has stopped. -/
theorem Ends.of_error {m : ExceptT Stop (StateM σ) α} (h : Ends m s good bad) {stop : Stop} {s' : σ}
    (hm : m.run.run s = (.error stop, s')) : bad stop s' := by
  unfold Ends at h
  rwa [hm] at h

/-- A computation that never stops badly gives a value. -/
theorem Ends.exists_ok {m : ExceptT Stop (StateM σ) α} (h : Ends m s good fun _ _ ↦ False) :
    ∃ a s', m.run.run s = (.ok a, s') ∧ good a s' := by
  unfold Ends at h
  rcases hm : m.run.run s with ⟨a | a, s'⟩
  · rw [hm] at h
    exact h.elim
  · rw [hm] at h
    exact ⟨a, s', rfl, h⟩

/-- A computation that never gives a value stops. -/
theorem Ends.exists_error {m : ExceptT Stop (StateM σ) α} (h : Ends m s (fun _ _ ↦ False) bad) :
    ∃ stop s', m.run.run s = (.error stop, s') ∧ bad stop s' := by
  unfold Ends at h
  rcases hm : m.run.run s with ⟨stop | a, s'⟩
  · rw [hm] at h
    exact ⟨stop, s', rfl, h⟩
  · rw [hm] at h
    exact h.elim

/-- Weaker statements hold after a computation as well. -/
theorem Ends.mono {m : ExceptT Stop (StateM σ) α} {good' : α → σ → Prop} {bad' : Stop → σ → Prop}
    (h : Ends m s good bad) (hgood : ∀ a s', good a s' → good' a s')
    (hbad : ∀ stop s', bad stop s' → bad' stop s') : Ends m s good' bad' := by
  unfold Ends at h ⊢
  split at h
  · exact hgood _ _ h
  · exact hbad _ _ h

/-- What holds after a computation holds of its run. -/
theorem Ends.with_run {m : ExceptT Stop (StateM σ) α} (h : Ends m s good bad) :
    Ends m s (fun a s' ↦ m.run.run s = (.ok a, s') ∧ good a s') bad := by
  unfold Ends at h ⊢
  split at h
  · next hm => exact ⟨hm, h⟩
  · exact h

/-- Two statements about one computation hold together. -/
theorem Ends.and {m : ExceptT Stop (StateM σ) α} {good' : α → σ → Prop} {bad' : Stop → σ → Prop}
    (h : Ends m s good bad) (h' : Ends m s good' bad') :
    Ends m s (fun a s' ↦ good a s' ∧ good' a s') fun stop s' ↦ bad stop s' ∧ bad' stop s' := by
  unfold Ends at h h' ⊢
  split <;> next hm => exact ⟨by rwa [hm] at h, by rwa [hm] at h'⟩

/-- A value leaves the state as it is. -/
@[simp] theorem ends_pure (a : α) : Ends (pure a) s good bad ↔ good a s := Iff.rfl

/-- A stop leaves the state as it is. -/
@[simp] theorem ends_throw (stop : Stop) :
    Ends (throw stop : ExceptT Stop (StateM σ) α) s good bad ↔ bad stop s := Iff.rfl

/-- A value or a stop from outside leaves the state as it is. -/
@[simp] theorem ends_liftExcept_ok (a : α) :
    Ends (liftExcept (.ok a : Outcome α) : ExceptT Stop (StateM σ) α) s good bad ↔
      good a s := Iff.rfl

/-- A stop from outside leaves the state as it is. -/
@[simp] theorem ends_liftExcept_error (stop : Stop) :
    Ends (liftExcept (.error stop : Outcome α) : ExceptT Stop (StateM σ) α) s good bad ↔
      bad stop s := Iff.rfl

/-- Looking at the state gives it. -/
@[simp] theorem ends_get {good : σ → σ → Prop} :
    Ends (get : ExceptT Stop (StateM σ) σ) s good bad ↔ good s s := Iff.rfl

/-- Setting the state replaces it. -/
@[simp] theorem ends_set {good : PUnit → σ → Prop} (s' : σ) :
    Ends (set s' : ExceptT Stop (StateM σ) PUnit) s good bad ↔ good ⟨⟩ s' := Iff.rfl

/-- Modifying the state replaces it by its image. -/
@[simp] theorem ends_modify {good : PUnit → σ → Prop} (f : σ → σ) :
    Ends (modify f : ExceptT Stop (StateM σ) PUnit) s good bad ↔ good ⟨⟩ (f s) := Iff.rfl

/-- A sequence goes on with its second step where the first one has given a value. -/
theorem run_bind (m : ExceptT Stop (StateM σ) α) (f : α → ExceptT Stop (StateM σ) β) (s : σ) :
    (m >>= f).run.run s = match m.run.run s with
      | (.ok a, s') => (f a).run.run s'
      | (.error stop, s') => (.error stop, s') := by
  rw [ExceptT.run_bind, StateT.run_bind]
  rcases m.run.run s with ⟨a | a, s'⟩ <;> rfl

/-- A map of the value changes nothing else. -/
theorem run_map (f : α → β) (m : ExceptT Stop (StateM σ) α) (s : σ) :
    (f <$> m).run.run s = ((m.run.run s).1.map f, (m.run.run s).2) := by
  rw [map_eq_pure_bind, run_bind]
  rcases m.run.run s with ⟨e | a, s'⟩ <;> rfl

/-- A sequence that has stopped has done so in its first step, or in its second one from where the
first one has ended. -/
theorem run_bind_error {m : ExceptT Stop (StateM σ) α} {f : α → ExceptT Stop (StateM σ) β}
    {stop : Stop} {s' : σ} (h : (m >>= f).run.run s = (.error stop, s')) :
    m.run.run s = (.error stop, s') ∨
      ∃ a s₁, m.run.run s = (.ok a, s₁) ∧ (f a).run.run s₁ = (.error stop, s') := by
  rw [run_bind] at h
  rcases hm : m.run.run s with ⟨a | a, s₁⟩
  · rw [hm] at h
    cases h
    exact .inl rfl
  · rw [hm] at h
    exact .inr ⟨a, s₁, rfl, h⟩

/-- A computation for each item of a list that has stopped has done so at one of them, after those
before it have given their values. -/
theorem run_mapM_error {f : α → ExceptT Stop (StateM σ) β} {l : List α} {stop : Stop} {s' : σ}
    (h : (l.mapM f).run.run s = (.error stop, s')) :
    ∃ done a rest bs s₁, l = done ++ a :: rest ∧ (done.mapM f).run.run s = (.ok bs, s₁) ∧
      (f a).run.run s₁ = (.error stop, s') := by
  induction l generalizing s with
  | nil => cases h
  | cons a l ih =>
    rw [List.mapM_cons] at h
    rcases run_bind_error h with h | ⟨b, s₁, hb, h⟩
    · exact ⟨[], a, l, [], s, rfl, rfl, h⟩
    · rcases run_bind_error h with h | ⟨bs, s₂, -, h⟩
      · obtain ⟨done, a', rest, bs, s₂, rfl, hdone, ha'⟩ := ih h
        refine ⟨a :: done, a', rest, b :: bs, s₂, rfl, ?_, ha'⟩
        rw [List.mapM_cons, run_bind, hb]
        dsimp only
        rw [run_bind, hdone]
        rfl
      · cases h

/-- What holds after a sequence holds of the second step wherever the first one ends. -/
theorem ends_bind {m : ExceptT Stop (StateM σ) α} {f : α → ExceptT Stop (StateM σ) β}
    {good : β → σ → Prop} :
    Ends (m >>= f) s good bad ↔ Ends m s (fun a s' ↦ Ends (f a) s' good bad) bad := by
  unfold Ends
  rw [run_bind]
  rcases m.run.run s with ⟨a | a, s'⟩ <;> rfl

/-- A sequence, step by step. -/
theorem Ends.bind {m : ExceptT Stop (StateM σ) α} {f : α → ExceptT Stop (StateM σ) β}
    {good : α → σ → Prop} {good' : β → σ → Prop} (hm : Ends m s good bad)
    (hf : ∀ a s', good a s' → Ends (f a) s' good' bad) : Ends (m >>= f) s good' bad :=
  ends_bind.mpr (hm.mono hf fun _ _ h ↦ h)

/-! ### What is left alone -/

/-- A computation that leaves a view of the state as it is, however it ends. -/
def Leaves (view : σ → τ) (m : ExceptT Stop (StateM σ) α) : Prop :=
  ∀ s, Ends m s (fun _ s' ↦ view s' = view s) fun _ s' ↦ view s' = view s

namespace Leaves

variable {view : σ → τ}

/-- A value leaves everything as it is. -/
theorem pure (a : α) : Leaves view (Pure.pure a) := fun _ ↦ rfl

/-- A stop leaves everything as it is. -/
theorem throw (stop : Stop) : Leaves view (throw stop : ExceptT Stop (StateM σ) α) := fun _ ↦ rfl

/-- A value or a stop from outside leaves everything as it is. -/
theorem liftExcept (result : Outcome α) :
    Leaves view (liftExcept result : ExceptT Stop (StateM σ) α) := fun _ ↦ by
  cases result <;> rfl

/-- A sequence leaves what both steps leave. -/
theorem bind {m : ExceptT Stop (StateM σ) α} {f : α → ExceptT Stop (StateM σ) β}
    (hm : Leaves view m) (hf : ∀ a, Leaves view (f a)) : Leaves view (m >>= f) := fun s ↦ by
  refine (hm s).bind fun a s₁ h₁ ↦ (hf a s₁).mono ?_ ?_
  · exact fun _ _ h ↦ h.trans h₁
  · exact fun _ _ h ↦ h.trans h₁

/-- A computation that depends on the state leaves what it leaves in every state. -/
theorem get_bind {f : σ → ExceptT Stop (StateM σ) β} (hf : ∀ s, Leaves view (f s)) :
    Leaves view (get >>= f) := fun s ↦ hf s s

/-- A computation for each item of a list leaves what it leaves for each of them. -/
theorem mapM {f : α → ExceptT Stop (StateM σ) β} (hf : ∀ a, Leaves view (f a)) (l : List α) :
    Leaves view (l.mapM f) := by
  induction l with
  | nil => exact .pure []
  | cons a l ih =>
    rw [List.mapM_cons]
    exact (hf a).bind fun _ ↦ ih.bind fun _ ↦ .pure _

/-- A loop leaves what its body leaves. -/
theorem forM {f : α → ExceptT Stop (StateM σ) PUnit} (hf : ∀ a, Leaves view (f a)) (l : List α) :
    Leaves view (l.forM f) := by
  induction l with
  | nil => exact .pure PUnit.unit
  | cons a l ih => exact (hf a).bind fun _ ↦ ih

/-- A fold leaves what its step leaves. -/
theorem foldlM {f : β → α → ExceptT Stop (StateM σ) β} (hf : ∀ b a, Leaves view (f b a))
    (l : List α) (b : β) : Leaves view (l.foldlM f b) := by
  induction l generalizing b with
  | nil => exact .pure b
  | cons a l ih =>
    rw [List.foldlM_cons]
    exact (hf b a).bind fun _ ↦ ih _

end Leaves
end RayAdjacency
