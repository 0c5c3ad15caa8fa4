import Mathlib.Tactic.Abel
import RayAdjacency.Proofs.Traversal.Ending
import RayAdjacency.Proofs.Traversal.Expansion

/-!
# Accounts of a search

At every moment each duty of a search has been done, is still owed by a thread or by the queue, or
has been lost. Only trouble loses duties. The sink holds what the duties done have appended, and as
long as there is no trouble, the tally counts them.
-/

namespace RayAdjacency

variable {site : SearchSite}

/-! ### Debts -/

/-- The duties of a new thread. -/
def Errand.owed (site : SearchSite) : Errand → Multiset Duty
  | search pair => site.duties pair
  | _ => 0

/-- The duties of a task. -/
@[simp] def Task.owed (site : SearchSite) : Task → Multiset Duty
  | acquire | schedule | expand | assemble | seed _ => site.duties site.root.start
  | enter pair | heed pair _ => site.duties pair
  | compare pair => site.compareDuties pair
  | emit pairs => {.emit pairs}
  | inline pairs => site.dutiesOf pairs
  | fork first rest | branchOff first rest | offer first rest => site.dutiesOf (first :: rest)
  | register child | launch child => child.errand.owed site
  | consider pair => site.dutiesOf pair.children
  | _ => 0

/-- The duties of a frame. -/
@[simp] def Frame.owed (site : SearchSite) : Frame → Multiset Duty
  | leave pair => {.leave pair}
  | rest pairs => site.dutiesOf pairs
  | offered first others => site.dutiesOf (first :: others)
  | _ => 0

/-- The duties of a thread. -/
def Thread.owed (site : SearchSite) (t : Thread) : Multiset Duty :=
  t.task.owed site + (t.frames.map (Frame.owed site)).sum

/-- The duties of several threads. -/
def owedBy (site : SearchSite) (ts : List Thread) : Multiset Duty := (ts.map (Thread.owed site)).sum

/-- No threads owe nothing. -/
@[simp] theorem owedBy_nil : owedBy site [] = 0 := rfl

/-- Threads owe what the first one owes and what the others do. -/
@[simp] theorem owedBy_cons (t : Thread) (ts : List Thread) :
    owedBy site (t :: ts) = t.owed site + owedBy site ts := by
  simp [owedBy]

/-- Threads put together owe the sum of what they owe. -/
@[simp] theorem owedBy_append (ts us : List Thread) :
    owedBy site (ts ++ us) = owedBy site ts + owedBy site us := by
  simp [owedBy]

/-- In which order threads are listed does not matter to what they owe. -/
theorem owedBy_perm {ts us : List Thread} (h : ts.Perm us) : owedBy site ts = owedBy site us :=
  (h.map _).sum_eq

/-- The duties of one of several threads are among theirs. -/
theorem mem_owedBy {t : Thread} {ts : List Thread} {d : Duty} (ht : t ∈ ts)
    (hd : d ∈ t.owed site) : d ∈ owedBy site ts := by
  obtain ⟨before, after, rfl⟩ := List.append_of_mem ht
  simp [hd]

namespace Thread

variable {t : Thread}

/-- A thread with a new task owes the new task and what its frames do. -/
@[simp] theorem owed_go (task : Task) :
    (t.go task).owed site = task.owed site + (t.frames.map (Frame.owed site)).sum := rfl

/-- A thread whose task is done owes what its frames do. -/
@[simp] theorem owed_done (o : Outcome Unit) :
    (t.done o).owed site = (t.frames.map (Frame.owed site)).sum := by
  simp [owed]

/-- A thread with a new frame and a new task owes these and what its frames do. -/
@[simp] theorem owed_call (frame : Frame) (task : Task) :
    (t.call frame task).owed site =
      task.owed site + (frame.owed site + (t.frames.map (Frame.owed site)).sum) := by
  simp [owed]

/-- A thread owes its task and what its frames do. -/
theorem owed_of_task {task : Task} (h : t.task = task) :
    t.owed site = task.owed site + (t.frames.map (Frame.owed site)).sum := by
  rw [owed, h]

/-- A new thread owes what it has been started for. -/
@[simp] theorem owed_thread (child : Child) : child.thread.owed site = child.errand.owed site := by
  obtain ⟨label, errand⟩ := child
  cases errand <;> simp [Child.thread, owed, Errand.owed]

/-- The first task owes all duties of the search. -/
@[simp] theorem owed_openingTask (plan : Plan) :
    (openingTask plan).owed plan.site = plan.site.duties plan.site.root.start := by
  fun_cases openingTask plan <;> rfl

/-- A worker is started for work that nobody owes yet. -/
@[simp] theorem owed_workerErrand (strategy : Strategy) :
    (workerErrand strategy).owed site = 0 := by
  fun_cases workerErrand strategy <;> rfl

/-- A calling thread that has started its workers owes what its frames do. -/
@[simp] theorem owed_afterStart (strategy : Strategy) :
    (afterStart strategy t).owed site = (t.frames.map (Frame.owed site)).sum := by
  rcases afterStart_eq strategy t with ⟨-, hafter⟩ | ⟨-, hafter⟩ <;> rw [hafter] <;>
    simp

/-- A calling thread that has given up its workers owes what its frames do. -/
@[simp] theorem owed_afterRefund (strategy : Strategy) (cause : Failure) :
    (afterRefund strategy t cause).owed site = (t.frames.map (Frame.owed site)).sum := by
  rcases afterRefund_eq strategy t cause with ⟨-, hafter⟩ | ⟨-, hafter⟩ <;> rw [hafter] <;>
    simp

/-- An entered pair owes to be left, and what follows. -/
theorem Follows.duties_eq {strategy : Strategy} {pair : NodePair} {task : Task}
    (h : Follows strategy pair task) (hadmits : site.root.admits pair = true) :
    site.duties pair = {.ask pair} + {.leave pair} + task.owed site := by
  cases h with
  | empty hempty =>
    rw [SearchSite.duties_of_isEmpty hadmits hempty]
    exact (add_zero _).symm
  | inline hempty hinternal => exact SearchSite.duties_of_isInternal hadmits hempty hinternal
  | fork hempty hinternal hforks hchildren =>
    rw [SearchSite.duties_of_isInternal hadmits hempty hinternal, hchildren]
    rfl
  | consider hempty hinternal => exact SearchSite.duties_of_isInternal hadmits hempty hinternal
  | compare hempty hterminal => exact SearchSite.duties_of_terminal hadmits hempty hterminal

end Thread

/-! ### Steps -/

/-- Steps that neither append to the sink, nor ask the delegate, nor count what the search does. -/
structure Shared.Keeps (s s' : Shared) : Prop where
  sink_eq : s'.sink = s.sink
  asked_eq : s'.asked = s.asked
  tally_eq : ∀ c : Counter, c.isOfSearch = true → s'.token.tally.get c = s.token.tally.get c

namespace Shared.Keeps

variable {s s' : Shared}

/-- Whoever leaves the counters, the pairs and the questions alone keeps what has been done. -/
theorem of_tally_eq (hsink : s'.sink = s.sink) (hasked : s'.asked = s.asked)
    (h : s'.token.tally = s.token.tally) : s.Keeps s' :=
  ⟨hsink, hasked, fun _ _ ↦ by rw [h]⟩

/-- So does whoever counts something that is not an event of the search. -/
theorem of_tally_add {c : Counter} {n : Nat} (hsink : s'.sink = s.sink)
    (hasked : s'.asked = s.asked) (hc : c.isOfSearch = false)
    (h : s'.token.tally = s.token.tally.add c n) : s.Keeps s' := by
  refine ⟨hsink, hasked, fun d hd ↦ ?_⟩
  rw [h, Tally.get_add, if_neg, Nat.add_zero]
  rintro rfl
  rw [hc] at hd
  cases hd

/-- Writing records keeps what has been done. -/
theorem note (h : s.Keeps s') (caller : Bool) (records : List LogRecord) :
    s.Keeps (s'.note caller records) := by
  obtain ⟨log, hnote⟩ := s'.note_eq caller records
  rw [hnote]
  exact ⟨h.sink_eq, h.asked_eq, h.tally_eq⟩

end Shared.Keeps

namespace Token

variable {t t' : Token} {n taken : Nat}

/-- Giving permits back counts nothing. -/
theorem tally_of_release (h : t.release n = .ok t') : t'.tally = t.tally := by
  rw [release] at h
  cases hpermits : t.permits.release n with
  | error failure =>
    rw [hpermits] at h
    cases h
  | ok permits =>
    rw [hpermits] at h
    cases h
    rfl

/-- Taking permits counts nothing. -/
theorem tally_of_tryAcquire (h : t.tryAcquire n = (taken, t')) : t'.tally = t.tally := by
  rw [tryAcquire] at h
  cases h
  rfl

/-- Joining the children counts nothing. -/
theorem tally_of_join {joined : Except Failure Unit} (h : t.join = (joined, t')) :
    t'.tally = t.tally := by
  rw [join] at h
  cases h
  rfl

/-- Dropping the guard of a permit counts nothing. -/
@[simp] theorem tally_dropGuard (t : Token) (n : Nat) : (t.dropGuard n).1.tally = t.tally := by
  rw [dropGuard]
  split
  · rfl
  · split
    · next h => exact tally_of_release h
    · rfl

end Token

/-- What a step does about the duties that a thread and the queue owe: some are done, and some may
be lost, but only in trouble. -/
structure Move.Does (site : SearchSite) (t : Thread) (s : Shared) (move : Move)
    (done lost : Multiset Duty) : Prop where
  owed_eq : owedBy site move.threads + site.dutiesOf move.shared.queue.toList + done + lost =
    t.owed site + site.dutiesOf s.queue.toList
  sink_eq : (move.shared.sink.toList : Multiset IndexPair) =
    s.sink.toList + SearchSite.pairsOf done
  emitted_eq : move.shared.token.tally.get .pairsEmitted =
    s.token.tally.get .pairsEmitted + (SearchSite.pairsOf done).card
  canEnd : ∀ d ∈ done, d.CanEnd site
  lost_eq : s.aborted = false → move.isTroubled = false → lost = 0
  tally_eq : s.aborted = false → move.isTroubled = false → ∀ c : Counter, c.isOfSearch = true →
    move.shared.token.tally.get c = s.token.tally.get c + (site.tallyOf done).get c
  asked_eq : s.aborted = false → move.isTroubled = false →
    (move.shared.asked.toList : Multiset Question) = s.asked.toList + site.questionsOf done

namespace Thread

variable {plan : Plan} {chance : Chance} {caller : Bool} {t : Thread} {s : Shared} {move : Move}

private theorem keeps_signOff (strategy : Strategy) : s.Keeps (signOff strategy s) := by
  rcases signOff_eq strategy s with ⟨-, hsign⟩ | ⟨-, hsign⟩ <;> rw [hsign]
  · exact .of_tally_eq rfl rfl rfl
  · exact .of_tally_eq rfl rfl rfl

private theorem does_of_keeps (hkeeps : s.Keeps move.shared)
    (howed : owedBy site move.threads + site.dutiesOf move.shared.queue.toList =
      t.owed site + site.dutiesOf s.queue.toList) : move.Does site t s 0 0 where
  owed_eq := by rw [add_zero, add_zero, howed]
  sink_eq := by rw [hkeeps.sink_eq, SearchSite.pairsOf_zero, add_zero]
  emitted_eq := hkeeps.tally_eq .pairsEmitted rfl
  canEnd d hd := absurd hd (Multiset.notMem_zero d)
  lost_eq _ _ := rfl
  tally_eq _ _ c hc := by
    rw [hkeeps.tally_eq c hc, SearchSite.tallyOf_zero, Tally.get_zero, Nat.add_zero]
  asked_eq _ _ := by rw [hkeeps.asked_eq, SearchSite.questionsOf_zero, add_zero]

private theorem does_of_loss {lost : Multiset Duty}
    (htrouble : s.aborted = true ∨ move.isTroubled = true) (hsink : move.shared.sink = s.sink)
    (hemitted : move.shared.token.tally.get .pairsEmitted = s.token.tally.get .pairsEmitted)
    (howed : owedBy site move.threads + site.dutiesOf move.shared.queue.toList + lost =
      t.owed site + site.dutiesOf s.queue.toList) : move.Does site t s 0 lost where
  owed_eq := by rw [add_zero, howed]
  sink_eq := by rw [hsink, SearchSite.pairsOf_zero, add_zero]
  emitted_eq := hemitted
  canEnd d hd := absurd hd (Multiset.notMem_zero d)
  lost_eq haborted hcalm := by simp [haborted, hcalm] at htrouble
  tally_eq haborted hcalm := by simp [haborted, hcalm] at htrouble
  asked_eq haborted hcalm := by simp [haborted, hcalm] at htrouble

private theorem does_of_done {done : Multiset Duty} (hcan : ∀ d ∈ done, d.CanEnd site)
    (hsink : (move.shared.sink.toList : Multiset IndexPair) =
      s.sink.toList + SearchSite.pairsOf done)
    (hasked : (move.shared.asked.toList : Multiset Question) =
      s.asked.toList + site.questionsOf done)
    (htally : ∀ c : Counter, c.isOfSearch = true →
      move.shared.token.tally.get c = s.token.tally.get c + (site.tallyOf done).get c)
    (howed : owedBy site move.threads + site.dutiesOf move.shared.queue.toList + done =
      t.owed site + site.dutiesOf s.queue.toList) : move.Does site t s done 0 where
  owed_eq := by rw [add_zero, howed]
  sink_eq := hsink
  emitted_eq := by rw [htally .pairsEmitted rfl, site.get_tallyOf_pairsEmitted]
  canEnd := hcan
  lost_eq _ _ := rfl
  tally_eq _ _ := htally
  asked_eq _ _ := hasked

private theorem does_enterPair {pair : NodePair} (htask : t.task = .enter pair) :
    ∃ done lost, (enterPair plan t s pair).Does plan.site t s done lost := by
  have htally (c : Counter) : (plan.site.root.enter pair s.token.tally).2.get c =
      s.token.tally.get c + (plan.site.tallyOf {.ask pair}).get c := by
    rw [Root.enter_snd, Tally.get_plus, SearchSite.tallyOf_singleton]
    rfl
  refine ⟨{.ask pair}, 0, ?_⟩
  rcases enterPair_eq plan t s pair with ⟨hadmits, hmove⟩ | ⟨hadmits, task, hfollows, hmove⟩ <;>
    rw [hmove]
  · refine does_of_done (by simp [Duty.CanEnd]) ?_ ?_ (fun c _ ↦ htally c) ?_
    · simp [Duty.pairs]
    · simp [Duty.questions]
    · rw [owed_of_task htask]
      simp [Move.threads, SearchSite.duties_of_not_admits hadmits, -Multiset.singleton_add]
      abel
  · refine does_of_done (by simp [Duty.CanEnd]) ?_ ?_ (fun c _ ↦ htally c) ?_
    · simp [Duty.pairs]
    · simp [Duty.questions]
    · rw [owed_of_task htask, Task.owed, hfollows.duties_eq hadmits]
      simp [Move.threads, -Multiset.singleton_add]
      abel

private theorem does_of_compared {pair : NodePair} {batch : Batch}
    (hcompared : site.compared pair = (.ok (), batch)) (hsink : move.shared.sink = s.sink)
    (hasked : move.shared.asked = s.asked ++ batch.asked)
    (htally : move.shared.token.tally = s.token.tally + batch.tally)
    (howed : owedBy site move.threads + site.dutiesOf move.shared.queue.toList + {.compare pair} =
      t.owed site + site.dutiesOf s.queue.toList) : move.Does site t s {.compare pair} 0 := by
  refine does_of_done ?_ ?_ ?_ (fun c _ ↦ ?_) howed
  · simp [Duty.CanEnd, hcompared]
  · simp [Duty.pairs, hsink]
  · simp [Duty.questions, hcompared, hasked]
  · rw [htally, Tally.get_plus, SearchSite.tallyOf_singleton, Duty.tally, hcompared]

private theorem does_comparePair {pair : NodePair} (env : Interference)
    (htask : t.task = .compare pair) :
    ∃ done lost, (comparePair plan env t s pair).Does plan.site t s done lost := by
  have hmirror := @Batch.mirrors_compare plan.site env pair {}
  have htask := @owed_of_task plan.site t _ htask
  fun_cases comparePair plan env t s pair
  · next batch s' stop hrun =>
    refine ⟨0, plan.site.compareDuties pair, does_of_loss (.inr rfl) rfl ?_ ?_⟩
    · have hkept := hmirror.of_error hrun .pairsEmitted rfl
      rw [Tally.get_plus, hkept]
      rfl
    · rw [htask]
      simp [Move.threads]
      abel
  · next batch s' hempty hrun =>
    have hcompared : plan.site.compared pair = (.ok (), batch) := (hmirror.of_ok hrun).1
    refine ⟨{.compare pair}, 0, ?_⟩
    refine does_of_compared hcompared rfl rfl rfl ?_
    rw [htask, Task.owed, SearchSite.compareDuties, SearchSite.accepted, hcompared, if_pos hempty]
    simp [Move.threads, s', -Multiset.singleton_add]
    abel
  · next batch s' hnonempty hrun =>
    have hcompared : plan.site.compared pair = (.ok (), batch) := (hmirror.of_ok hrun).1
    have hduties : (([.compare pair, .emit batch.accepted] : List Duty) : Multiset Duty) =
        {.compare pair} + {.emit batch.accepted} := rfl
    refine ⟨{.compare pair}, 0, ?_⟩
    refine does_of_compared hcompared rfl rfl rfl ?_
    rw [htask, Task.owed, SearchSite.compareDuties, SearchSite.accepted, hcompared, if_neg hnonempty]
    simp [Move.threads, s', hduties, -Multiset.singleton_add]
    abel

private theorem does_resume {u : Thread} {frame : Frame} {outcome : Outcome Unit}
    (howed : t.owed plan.site = frame.owed plan.site + (u.frames.map (Frame.owed plan.site)).sum)
    (hchild : frame = .child → u.frames = []) :
    ∃ done lost, (resume plan caller u s frame outcome).Does plan.site t s done lost := by
  fun_cases resume plan caller u s frame outcome
  all_goals try
    refine ⟨0, 0, does_of_keeps ?_ ?_⟩
    · first
      | exact .of_tally_eq rfl rfl rfl
      | apply Shared.Keeps.of_tally_eq <;> simp
    · rw [howed]
      simp [Move.threads, refuseWorker]
      done
  · next pair tally hleave =>
    have htally : tally = s.token.tally.bump .leaves := by
      rw [Root.leave] at hleave
      split at hleave <;> cases hleave
      rfl
    refine ⟨{.leave pair}, 0, does_of_done (by simp [Duty.CanEnd]) ?_ ?_ (fun c _ ↦ ?_) ?_⟩
    · simp [Duty.pairs]
    · simp [Duty.questions]
    · rw [SearchSite.tallyOf_singleton, htally, Tally.bump, Tally.add_eq_plus, Tally.get_plus]
      rfl
    · rw [howed]
      simp [Move.threads, -Multiset.singleton_add]
      abel
  · next pair stop _ =>
    refine ⟨0, {.leave pair}, does_of_loss (.inr rfl) rfl rfl ?_⟩
    rw [howed]
    simp [Move.threads, -Multiset.singleton_add]
    abel
  · refine ⟨0, 0, does_of_keeps (.of_tally_eq rfl rfl rfl) ?_⟩
    rw [howed, hchild rfl]
    simp [Move.threads]
  · next pairs _ =>
    refine ⟨0, plan.site.dutiesOf pairs, does_of_loss (.inr rfl) rfl rfl ?_⟩
    rw [howed]
    simp [Move.threads]
    abel
  · next first rest _ =>
    refine ⟨0, plan.site.dutiesOf (first :: rest), does_of_loss (.inr rfl) rfl rfl ?_⟩
    rw [howed]
    simp [Move.threads]
    abel

private theorem does_acquire (htask : t.task = .acquire) :
    ∃ done lost, (t.advance plan chance caller s).Does plan.site t s done lost := by
  have howed := @owed_of_task plan.site t _ htask
  simp only [advance, htask]
  split
  · refine ⟨0, 0, does_of_keeps (.of_tally_eq rfl rfl rfl) ?_⟩
    simp [howed, Move.threads]
  · refine ⟨0, plan.site.duties plan.site.root.start, does_of_loss (.inr rfl) rfl rfl ?_⟩
    simp [howed, Move.threads]
    abel

private theorem does_emit {pairs : Array IndexPair} (htask : t.task = .emit pairs) :
    ∃ done lost, (t.advance plan chance caller s).Does plan.site t s done lost := by
  simp only [advance, htask]
  refine ⟨{.emit pairs}, 0, does_of_done (by simp [Duty.CanEnd]) ?_ ?_ (fun c _ ↦ ?_) ?_⟩
  · simp [Duty.pairs]
  · simp [Duty.questions]
  · rw [SearchSite.tallyOf_singleton]
    exact (congrArg (Tally.get · c) (Tally.add_eq_plus _ .pairsEmitted pairs.size)).trans
      (Tally.get_plus _ _ _)
  · simp [owed_of_task htask, Move.threads, -Multiset.singleton_add]
    abel

private theorem does_inline {pairs : List NodePair} (htask : t.task = .inline pairs) :
    ∃ done lost, (t.advance plan chance caller s).Does plan.site t s done lost := by
  refine ⟨0, 0, ?_⟩
  cases pairs with
  | nil =>
    simp only [advance, htask]
    refine does_of_keeps (.of_tally_eq rfl rfl rfl) ?_
    simp [owed_of_task htask, Move.threads]
  | cons pair rest =>
    simp only [advance, htask]
    refine does_of_keeps (.of_tally_eq rfl rfl rfl) ?_
    simp [owed_of_task htask, Move.threads, add_assoc]

private theorem does_launch {child : Child} (htask : t.task = .launch child) :
    ∃ done lost, (t.advance plan chance caller s).Does plan.site t s done lost := by
  have howed := @owed_of_task plan.site t _ htask
  simp only [advance, htask]
  split
  · refine ⟨0, child.errand.owed plan.site, does_of_loss (.inr rfl) rfl rfl ?_⟩
    simp [howed, Move.threads]
    abel
  · refine ⟨0, 0, does_of_keeps (.note ?_ caller _) ?_⟩
    · exact .of_tally_eq rfl rfl rfl
    · simp [howed, Move.threads]
      abel

private theorem does_start {worker total : Nat} (htask : t.task = .start worker total) :
    ∃ done lost, (t.advance plan chance caller s).Does plan.site t s done lost := by
  have howed := @owed_of_task plan.site t _ htask
  simp only [advance, htask]
  refine ⟨0, 0, ?_⟩
  split
  · refine does_of_keeps (.of_tally_eq rfl rfl rfl) ?_
    simp only [howed, Move.threads, Task.owed]
    simp
  · refine does_of_keeps (.of_tally_eq rfl rfl rfl) ?_
    simp [howed, Move.threads]

private theorem does_dismiss {left unstarted : Nat} {cause : Failure}
    (htask : t.task = .dismiss left unstarted cause) :
    ∃ done lost, (t.advance plan chance caller s).Does plan.site t s done lost := by
  refine ⟨0, 0, ?_⟩
  cases left with
  | zero =>
    simp only [advance, htask]
    refine does_of_keeps (.of_tally_eq rfl rfl rfl) ?_
    simp [owed_of_task htask, Move.threads]
  | succ left =>
    simp only [advance, htask]
    refine does_of_keeps (keeps_signOff _) ?_
    simp [owed_of_task htask, Move.threads]

private theorem does_expand (htask : t.task = .expand) (hqueue : s.queue.toList = [])
    (hsolid : plan.site.root.start.Solid) :
    ∃ done lost, (t.advance plan chance caller s).Does plan.site t s done lost := by
  obtain ⟨frontier, tally, hlevels, -, done, hdone, hgate, rfl⟩ :=
    @SearchSite.expands_expandLevels plan.site [plan.site.root.start]
      plan.config.strategy.levels (by simpa using hsolid) s.token.tally
  rw [SearchSite.dutiesOf_cons, SearchSite.dutiesOf_nil, add_zero] at hdone
  simp only [advance, htask, hlevels]
  refine ⟨done, 0, does_of_done (fun d hd ↦ Duty.canEnd_of_isOfGate (hgate d hd)) ?_ ?_
    (fun c hc ↦ ?_) ?_⟩
  · rw [SearchSite.pairsOf_eq_zero hgate, add_zero]
    rfl
  · rw [SearchSite.questionsOf_eq_zero hgate, add_zero]
    rfl
  · have hne : Counter.jobsQueued ≠ c := by
      rintro rfl
      cases hc
    refine (Tally.get_add _ _ _ _).trans ?_
    rw [if_neg hne, Nat.add_zero]
    exact Tally.get_plus _ _ _
  · simp [owed_of_task htask, Move.threads, hqueue, hdone]
    abel

private theorem does_recruit {queued : Nat} (htask : t.task = .recruit queued) :
    ∃ done lost, (t.advance plan chance caller s).Does plan.site t s done lost := by
  simp only [advance, htask]
  refine ⟨0, 0, does_of_keeps (.note ?_ caller _) ?_⟩
  · exact .of_tally_eq rfl rfl (Token.tally_of_tryAcquire rfl)
  · simp [owed_of_task htask, Move.threads]

private theorem does_take (htask : t.task = .take) :
    ∃ done lost, (t.advance plan chance caller s).Does plan.site t s done lost := by
  have howed := @owed_of_task plan.site t _ htask
  simp only [advance, htask]
  split
  · refine ⟨0, 0, does_of_keeps (.of_tally_eq rfl rfl rfl) ?_⟩
    simp [howed, Move.threads]
  · next hpop =>
    refine ⟨0, 0, does_of_keeps (@Shared.Keeps.of_tally_add s _ .jobsRun 1 rfl rfl rfl rfl) ?_⟩
    simp [howed, Move.threads, Fifo.toList_of_pop? hpop]
    abel

private theorem does_seed {workers : Nat} (htask : t.task = .seed workers) :
    ∃ done lost, (t.advance plan chance caller s).Does plan.site t s done lost := by
  simp only [advance, htask]
  refine ⟨0, 0, does_of_keeps (@Shared.Keeps.of_tally_add s _ .jobsQueued 1 rfl rfl rfl rfl) ?_⟩
  simp [owed_of_task htask, Move.threads, Fifo.toList_push]
  abel

private theorem does_consider {pair : NodePair} (htask : t.task = .consider pair) :
    ∃ done lost, (t.advance plan chance caller s).Does plan.site t s done lost := by
  -- Only an abandoned search passes over the children of a pair.
  have howed := @owed_of_task plan.site t _ htask
  simp only [advance, htask]
  cases haborted : s.aborted with
  | true =>
    refine ⟨0, plan.site.dutiesOf pair.children, does_of_loss (.inl haborted) rfl rfl ?_⟩
    simp [howed, Move.threads]
    abel
  | false =>
    cases hchildren : pair.children with
    | nil =>
      refine ⟨0, 0, does_of_keeps (.of_tally_eq rfl rfl rfl) ?_⟩
      simp [howed, Move.threads, hchildren]
    | cons first rest =>
      refine ⟨0, 0, does_of_keeps (.of_tally_eq rfl rfl rfl) ?_⟩
      simp [howed, Move.threads, hchildren]

private theorem does_offer {first : NodePair} {rest : List NodePair}
    (htask : t.task = .offer first rest) :
    ∃ done lost, (t.advance plan chance caller s).Does plan.site t s done lost := by
  refine ⟨0, 0, ?_⟩
  cases rest with
  | nil =>
    simp only [advance, htask]
    refine does_of_keeps (.of_tally_eq rfl rfl rfl) ?_
    simp [owed_of_task htask, Move.threads]
  | cons pair rest =>
    simp only [advance, htask]
    split
    · refine does_of_keeps (@Shared.Keeps.of_tally_add s _ .jobsQueued 1 rfl rfl rfl rfl) ?_
      simp [owed_of_task htask, Move.threads, Fifo.toList_push]
      abel
    · refine does_of_keeps (.of_tally_eq rfl rfl rfl) ?_
      simp [owed_of_task htask, Move.threads]
      abel

private theorem does_announce (htask : t.task = .announce) :
    ∃ done lost, (t.advance plan chance caller s).Does plan.site t s done lost := by
  simp only [advance, htask]
  refine ⟨0, 0, does_of_keeps ?_ ?_⟩
  · split
    · exact @Shared.Keeps.of_tally_add s _ .barrierBreaks 1 rfl rfl rfl rfl
    · exact .of_tally_eq rfl rfl rfl
  · split <;> simp [owed_of_task htask, Move.threads]

private theorem does_participate {kept : Except Failure Unit}
    (htask : t.task = .participate kept) :
    ∃ done lost, (t.advance plan chance caller s).Does plan.site t s done lost := by
  have howed := @owed_of_task plan.site t _ htask
  simp only [advance, htask]
  split
  · next hpop =>
    refine ⟨0, 0, does_of_keeps (.of_tally_eq rfl rfl rfl) ?_⟩
    simp [howed, Move.threads, Fifo.toList_of_pop? hpop]
    abel
  · refine ⟨0, 0, does_of_keeps (.of_tally_eq rfl rfl rfl) ?_⟩
    simp [howed, Move.threads]

private theorem does_heed {pair : NodePair} {kept : Except Failure Unit}
    (htask : t.task = .heed pair kept) :
    ∃ done lost, (t.advance plan chance caller s).Does plan.site t s done lost := by
  -- Only an abandoned search drops a pair that was taken from the queue.
  have howed := @owed_of_task plan.site t _ htask
  simp only [advance, htask]
  split
  · next haborted =>
    refine ⟨0, plan.site.duties pair, does_of_loss (.inl haborted) rfl rfl ?_⟩
    simp [howed, Move.threads]
    abel
  · refine ⟨0, 0, does_of_keeps (@Shared.Keeps.of_tally_add s _ .jobsRun 1 rfl rfl rfl rfl) ?_⟩
    simp [howed, Move.threads]

private theorem does_ret {outcome : Outcome Unit} (htask : t.task = .ret outcome)
    (htyped : t.Typed plan.config.strategy caller) :
    ∃ done lost, (t.advance plan chance caller s).Does plan.site t s done lost := by
  have hreturns := htyped.returns htask
  cases hframes : t.frames with
  | nil =>
    simp only [advance, htask, hframes]
    refine ⟨0, 0, does_of_keeps (.of_tally_eq rfl rfl rfl) ?_⟩
    simp [Move.threads]
  | cons frame frames =>
    rw [hframes] at hreturns
    simp only [advance, htask, hframes]
    refine does_resume ?_ ?_
    · simp [owed_of_task htask, hframes]
    · rintro rfl
      exact (stands_gone hreturns.2.2).1

/-- Whatever a thread does, no duty is done that was not owed, and duties are lost in trouble
alone. -/
theorem does_advance (htyped : t.Typed plan.config.strategy caller)
    (hexpand : t.task = .expand → s.queue.toList = [] ∧ plan.site.root.start.Solid) :
    ∃ done lost, (t.advance plan chance caller s).Does plan.site t s done lost := by
  cases htask : t.task with
  | acquire => exact does_acquire htask
  | enter pair =>
    simp only [advance, htask]
    exact does_enterPair htask
  | compare pair =>
    simp only [advance, htask]
    exact does_comparePair _ htask
  | emit pairs => exact does_emit htask
  | inline pairs => exact does_inline htask
  | launch child => exact does_launch htask
  | dismiss left unstarted cause => exact does_dismiss htask
  | expand => exact does_expand htask (hexpand htask).1 (hexpand htask).2
  | recruit queued => exact does_recruit htask
  | take => exact does_take htask
  | seed workers => exact does_seed htask
  | consider pair => exact does_consider htask
  | offer first rest => exact does_offer htask
  | announce => exact does_announce htask
  | participate kept => exact does_participate htask
  | heed pair kept => exact does_heed htask
  | ret outcome => exact does_ret htask htyped
  | schedule =>
    simp only [advance, htask]
    refine ⟨0, 0, does_of_keeps (.of_tally_eq rfl rfl rfl) ?_⟩
    simp [owed_of_task htask, Move.threads, -Task.owed]
    rfl
  | register child =>
    simp only [advance, htask]
    refine ⟨0, 0, does_of_keeps ?_ ?_⟩
    · exact @Shared.Keeps.of_tally_add s _ .threadsSpawned 1 rfl rfl rfl rfl
    · simp [owed_of_task htask, Move.threads]
  | start worker total => exact does_start htask
  -- The other steps neither do nor lose anything.
  | _ =>
    have howed := @owed_of_task plan.site t _ htask
    simp only [advance, htask]
    repeat' split
    all_goals
      refine ⟨0, 0, does_of_keeps ?_ ?_⟩
      · first
        | exact .of_tally_eq rfl rfl rfl
        | exact .of_tally_eq rfl rfl (Token.tally_of_release ‹_›)
        | exact .of_tally_eq rfl rfl (Token.tally_of_tryAcquire ‹_›)
        | apply Shared.Keeps.of_tally_eq <;> simp
      · simp [howed, Move.threads, Errand.owed, add_assoc]

end Thread

/-! ### Runs -/

namespace Machine

variable {plan : Plan} {chance : Chance} {m m' : Machine} {done lost : Multiset Duty}

/-- What has become of the duties of a search: each has been done, is still owed, or has been lost
in trouble. -/
structure Accounts (plan : Plan) (m : Machine) (done lost : Multiset Duty) : Prop where
  owed_eq : owedBy plan.site m.threads + plan.site.dutiesOf m.shared.queue.toList + done + lost =
    plan.site.duties plan.site.root.start
  sink_eq : (m.shared.sink.toList : Multiset IndexPair) = SearchSite.pairsOf done
  emitted_eq : m.shared.token.tally.get .pairsEmitted = (SearchSite.pairsOf done).card
  canEnd : ∀ d ∈ done, d.CanEnd plan.site
  lost_eq : ¬Troubled m → lost = 0
  tally_eq : ¬Troubled m → ∀ c : Counter, c.isOfSearch = true →
    m.shared.token.tally.get c = (plan.site.tallyOf done).get c
  asked_eq : ¬Troubled m →
    (m.shared.asked.toList : Multiset Question) = plan.site.questionsOf done

/-- What a step does about the duties. -/
theorem does_of_replaced (hsolid : plan.site.root.start.Solid) (hm : Reachable plan m)
    (htyped : Typed plan m) {caller : Bool} {t : Thread} {others : List Thread}
    (hreplaced : Replaced plan chance m m' caller t others) :
    ∃ done lost, (t.advance plan chance caller m.shared).Does plan.site t m.shared done lost := by
  refine Thread.does_advance (htyped.of_replaced hreplaced) fun htask ↦ ?_
  have hopens : t.task.opens = true := by
    rw [htask]
    rfl
  have hcaller := opens_of_replaced htyped hreplaced hopens
  exact ⟨(alone_of_opens hm (hcaller ▸ hopens)).2, hsolid⟩

/-- Every step keeps the accounts. -/
theorem Accounts.step (h : Accounts plan m done lost) (hsolid : plan.site.root.start.Solid)
    (hm : Reachable plan m) (htyped : Typed plan m) {t : Thread}
    (hmoved : Moved plan chance m t m') :
    ∃ done' lost', Accounts plan m' done' lost' := by
  obtain ⟨caller, others, hreplaced⟩ := hmoved.exists_replaced
  obtain ⟨more, waste, hdoes⟩ := does_of_replaced hsolid hm htyped hreplaced
  have hcalm := calm_of_moved hm htyped hmoved hreplaced
  refine ⟨done + more, lost + waste, ?_⟩
  constructor
  · rw [← h.owed_eq, owedBy_perm hreplaced.before, owedBy_perm hreplaced.after, hreplaced.shared_eq,
      owedBy_cons, owedBy_append]
    let move := t.advance plan chance caller m.shared
    calc owedBy plan.site move.threads + owedBy plan.site others +
            plan.site.dutiesOf move.shared.queue.toList + (done + more) + (lost + waste)
        = (owedBy plan.site move.threads + plan.site.dutiesOf move.shared.queue.toList + more + waste)
            + (owedBy plan.site others + done + lost) := by abel
      _ = (t.owed plan.site + plan.site.dutiesOf m.shared.queue.toList)
            + (owedBy plan.site others + done + lost) := by rw [hdoes.owed_eq]
      _ = t.owed plan.site + owedBy plan.site others + plan.site.dutiesOf m.shared.queue.toList
            + done + lost := by abel
  · rw [hreplaced.shared_eq, hdoes.sink_eq, h.sink_eq, SearchSite.pairsOf_add]
  · rw [hreplaced.shared_eq, hdoes.emitted_eq, h.emitted_eq, SearchSite.pairsOf_add,
      Multiset.card_add]
  · exact fun d hd ↦ (Multiset.mem_add.mp hd).elim (h.canEnd d) (hdoes.canEnd d)
  · intro htroubled
    obtain ⟨hbefore, haborted, -, hmove⟩ := hcalm htroubled
    rw [h.lost_eq hbefore, hdoes.lost_eq haborted hmove, add_zero]
  · intro htroubled c hc
    obtain ⟨hbefore, haborted, -, hmove⟩ := hcalm htroubled
    rw [hreplaced.shared_eq, hdoes.tally_eq haborted hmove c hc, h.tally_eq hbefore c hc,
      SearchSite.tallyOf_add, Tally.get_plus]
  · intro htroubled
    obtain ⟨hbefore, haborted, -, hmove⟩ := hcalm htroubled
    rw [hreplaced.shared_eq, hdoes.asked_eq haborted hmove, h.asked_eq hbefore,
      SearchSite.questionsOf_add]

/-- The accounts of every reachable machine balance. -/
theorem exists_accounts (hsolid : plan.site.root.start.Solid) (h : Reachable plan m) :
    ∃ done lost, Accounts plan m done lost := by
  refine Reachable.induction h ?_ fun hm htyped hmoved ⟨done, lost, hacc⟩ ↦
    hacc.step hsolid hm htyped hmoved
  refine ⟨0, 0, ?_⟩
  constructor
  · simp [threads, ofBudget, Thread.caller, Thread.owed, Fifo.toList]
  · rfl
  · rfl
  · exact fun d hd ↦ absurd hd (Multiset.notMem_zero d)
  · exact fun _ ↦ rfl
  · exact fun _ c _ ↦ rfl
  · exact fun _ ↦ rfl

/-- When a search has ended well, all its duties have been done. -/
theorem Accounts.of_outcome (hacc : Accounts plan m done lost) (h : Reachable plan m)
    {o : Outcome Unit} (ho : m.outcome? = some o) (hok : o.isOk = true) :
    done = plan.site.duties plan.site.root.start := by
  obtain ⟨hworkers, hcalm⟩ := alone_of_outcome h ho
  obtain ⟨hframes, htask⟩ := Thread.outcome?_eq_some ho
  have howed := hacc.owed_eq
  rw [queue_of_outcome h ho hok, hacc.lost_eq (hcalm hok), threads, hworkers] at howed
  simpa [Thread.owed, hframes, htask] using howed

end Machine
end RayAdjacency
