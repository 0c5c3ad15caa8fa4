import RayAdjacency.NodePair

/-!
# Threads of a search

A thread is a stack of frames and the task on top of it. A task is what the thread does next, in
one step that no other thread can divide; a frame says how the thread goes on once the tasks above
it have come to an outcome. Panics travel down the stack like failures do, and each frame says what
it does about them.

The names follow `Walk`, the schedulers and `spawn_child`; a frame is a call that has not returned,
or a guard that is still to be dropped.
-/

namespace RayAdjacency

/-- What a new thread is started for. -/
inductive Errand where
  /-- To search a node pair. -/
  | search (pair : NodePair)
  /-- To drain the job queue. -/
  | drain
  /-- To take part in the pool. -/
  | participate

/-- A thread that is to be started. It brings one permit with it. -/
structure Child where
  label : String
  errand : Errand

/-- What a thread does next. -/
inductive Task where
  /-- Take the permit of the calling thread. -/
  | acquire
  /-- Hand the two trees to the strategy. -/
  | schedule
  /-- Give the permit of the calling thread back. -/
  | giveBack (searched : Outcome Unit)
  /-- Wait until no child is active, and ask for their first failure. -/
  | joinAll (searched : Outcome Unit)
  /-- Wait until every other thread has ended, and pass a panic on. -/
  | unwind (message : String)
  /-- Ask to enter a node pair. -/
  | enter (pair : NodePair)
  /-- Compare the rays of two terminal nodes. -/
  | compare (pair : NodePair)
  /-- Append pairs to the sink. -/
  | emit (pairs : Array IndexPair)
  /-- Search node pairs on this thread, in order. -/
  | inline (pairs : List NodePair)
  /-- Fork if a permit is free. -/
  | fork (first : NodePair) (rest : List NodePair)
  /-- Name the forked thread, for which a permit has been taken. -/
  | branchOff (first : NodePair) (rest : List NodePair)
  /-- Register a thread before it starts. -/
  | register (child : Child)
  /-- Ask the operating system for a thread. -/
  | launch (child : Child)
  /-- Give back the permit of a refused thread. -/
  | retract (child : Child)
  /-- Undo the registration of a refused thread. -/
  | unregister (child : Child)
  /-- Start the workers from number `worker` on. -/
  | start (worker total : Nat)
  /-- Sign `left` of the `unstarted` workers off. -/
  | dismiss (left unstarted : Nat) (cause : Failure)
  /-- Give back the permits of the workers that were never asked for. -/
  | refund (unstarted : Nat) (cause : Failure)
  /-- Expand the upper levels into the job queue. -/
  | expand
  /-- Take the permits of the workers for so many jobs. -/
  | recruit (queued : Nat)
  /-- Take jobs unless the search is aborted. -/
  | drain
  /-- Take the next job. -/
  | take
  /-- Tell the cohort that the queue is drained. -/
  | finish (drained : Outcome Unit)
  /-- Hold the permit as long as the release policy says. -/
  | hold (drained : Outcome Unit)
  /-- Give the permit of the worker back. -/
  | surrender (drained : Outcome Unit)
  /-- Tell the cohort that the permit is back. -/
  | depart (drained : Outcome Unit)
  /-- Wait until all workers have given their permits back. -/
  | awaitCohort (drained : Outcome Unit)
  /-- Take the permits of the pool and set up its barrier. -/
  | assemble
  /-- Queue the pair of trees. -/
  | seed (workers : Nat)
  /-- Share the children of an entered pair unless the search is aborted. -/
  | consider (pair : NodePair)
  /-- Offer the rest to the pool, then search the first pair. -/
  | offer (first : NodePair) (rest : List NodePair)
  /-- Call waiting participants back to new work. -/
  | announce
  /-- Take a job or wait for one; `kept` is the first failure of this participant. -/
  | participate (kept : Except Failure Unit)
  /-- Run the job taken unless the search is aborted. -/
  | heed (pair : NodePair) (kept : Except Failure Unit)
  /-- Arrive at the barrier. -/
  | arrive (kept : Except Failure Unit)
  /-- Wait for the end of a barrier generation. -/
  | await (generation : Nat) (kept : Except Failure Unit)
  /-- Look at the queue once more after a trip. -/
  | tripped (kept : Except Failure Unit)
  /-- Go on with the frame below. -/
  | ret (outcome : Outcome Unit)

/-- What a thread goes on with. -/
inductive Frame where
  /-- Leave an entered node pair. -/
  | leave (pair : NodePair)
  /-- Search further node pairs. -/
  | rest (pairs : List NodePair)
  /-- Give back the permit that the thread brought. -/
  | permit
  /-- Report to the registry and end. -/
  | child
  /-- Report to the cohort. -/
  | worker
  /-- Take the next job of the queue. -/
  | drained
  /-- Wait for the cohort. -/
  | cohort
  /-- Start the workers after number `worker`. -/
  | started (worker total : Nat)
  /-- Offer further pairs, then search the first. -/
  | offered (first : NodePair) (rest : List NodePair)
  /-- Start the workers of the pool. -/
  | opened (workers : Nat)
  /-- Keep the failure of a job, and take the next one. -/
  | job (kept : Except Failure Unit)
  /-- Fail whatever comes back. -/
  | failWith (cause : Failure)
  /-- Close the search. -/
  | close

/-- A thread with its stack, the top first. -/
structure Thread where
  label : String
  frames : List Frame
  task : Task

namespace Thread

/-- The calling thread at the start of a search. -/
def caller : Thread := ⟨"main", [], .acquire⟩

/-- Turns to another task. -/
def go (t : Thread) (task : Task) : Thread := { t with task }

/-- Turns to another task, with a frame to come back to. -/
def call (t : Thread) (frame : Frame) (task : Task) : Thread :=
  { t with frames := frame :: t.frames, task }

/-- Comes to an outcome. -/
def done (t : Thread) (outcome : Outcome Unit) : Thread := { t with task := .ret outcome }

/-- The outcome of a thread that has nothing left to do. -/
def outcome? (t : Thread) : Option (Outcome Unit) :=
  match t.frames, t.task with
  | [], .ret outcome => some outcome
  | _, _ => none

end Thread

/-- The thread of a child at its start. -/
def Child.thread : Child → Thread
  | ⟨label, .search pair⟩ => ⟨label, [.permit, .child], .enter pair⟩
  | ⟨label, .drain⟩ => ⟨label, [.worker, .child], .drain⟩
  | ⟨label, .participate⟩ => ⟨label, [.permit, .child], .participate (.ok ())⟩

end RayAdjacency
