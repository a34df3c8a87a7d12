import Gateway.Lib.Threads

/-!
# The thread pool (`include/concurrency/ThreadPool.hpp`)

Workers, threads that call `enqueue` and the thread that destroys the pool, one
step at a time. `queue_mutex_` is held by at most one thread; `cv_.wait` releases it
and blocks the worker until a notification or a spurious wake-up, after which the
worker takes the mutex again and evaluates the predicate again.
-/

namespace Gateway.Concurrency

/-- The threads: the pool's workers, the callers of `enqueue`, the pool's owner. -/
inductive Tid (numThreads : ℕ) (C : Type*) where
  | worker (w : Fin numThreads)
  | client (c : C)
  | owner
deriving DecidableEq

/-- A task is named by the `enqueue` call that made it: its thread and number. -/
structure Task (C : Type*) where
  client : C
  call : ℕ
deriving DecidableEq

/-- How a task ends: the packaged task keeps the result or the exception. -/
inductive Outcome where
  | returned
  | threw

inductive WorkerPoint (C : Type*) where
  | lockQueue
  /-- holds the mutex, evaluates `stop_ || !tasks_.empty()` -/
  | testWait
  /-- holds the mutex, found the predicate false -/
  | sleep
  /-- in `cv_.wait`, without the mutex -/
  | blocked
  /-- holds the mutex, `cv_.wait` has returned -/
  | testExit
  | popped (task : Task C)
  | running (task : Task C)
  | returning
  | exited

inductive ClientPoint where
  | idle
  | lockQueue
  | testStop
  | throwing (what : String)
  | pushed
  | notifyOne

inductive OwnerPoint where
  | alive
  | lockQueue
  | setStop
  | stopped
  | notifyAll
  | join (next : ℕ)
  | destroyed

/-- The program point of a thread; `calls` counts the calls a client has made. -/
inductive Local (C : Type*) where
  | worker (p : WorkerPoint C)
  | client (calls : ℕ) (p : ClientPoint)
  | owner (p : OwnerPoint)

/-- What `queue_mutex_` protects, with the history of the `enqueue` calls that took the
mutex (and the `stop_` they found), of the tasks accepted and rejected, and of the tasks
each worker has popped. -/
structure Queue (numThreads : ℕ) (C : Type*) where
  tasks : List (Task C)
  stop : Bool
  acquired : List (Task C × Bool)
  accepted : List (Task C)
  rejected : List (Task C)
  popped : List (Fin numThreads × Task C)

/-- The state all threads see, with the tasks each worker has started and completed. -/
structure Shared (numThreads : ℕ) (C : Type*) where
  mutex : Option (Tid numThreads C)
  queue : Queue numThreads C
  waiting : Fin numThreads → Bool
  exited : Fin numThreads → Bool
  started : List (Fin numThreads × Task C)
  completed : List ((Fin numThreads × Task C) × Outcome)

inductive Act (numThreads : ℕ) where
  /-- calls `enqueue`, or the destructor -/
  | call
  | next
  /-- a spurious wake-up -/
  | wake
  | finish (outcome : Outcome)
  /-- `notify_one` wakes this worker -/
  | notify (w : Fin numThreads)

variable {numThreads : ℕ} {C : Type*}

namespace Queue

/-- The predicate of `cv_.wait`. -/
def ready (q : Queue numThreads C) : Bool := q.stop || !q.tasks.isEmpty

/-- The enqueue call of `task` has taken the mutex. -/
def acquire (q : Queue numThreads C) (task : Task C) : Queue numThreads C :=
  { q with acquired := q.acquired ++ [(task, q.stop)] }

def emplace (q : Queue numThreads C) (task : Task C) : Queue numThreads C :=
  { q with tasks := q.tasks ++ [task], accepted := q.accepted ++ [task] }

def reject (q : Queue numThreads C) (task : Task C) : Queue numThreads C :=
  { q with rejected := q.rejected ++ [task] }

/-- The first task is moved out and popped; there is none in an empty queue. -/
def pop (q : Queue numThreads C) (w : Fin numThreads) : Option (Task C × Queue numThreads C) :=
  match q.tasks with
  | [] => none
  | task :: tasks => some (task, { q with tasks := tasks, popped := q.popped ++ [(w, task)] })

end Queue

/-- Takes the mutex when it is free. -/
def Shared.lock (t : Tid numThreads C) (g : Shared numThreads C) : Option (Shared numThreads C) :=
  match g.mutex with
  | none => some { g with mutex := some t }
  | some _ => none

def Shared.unlock (g : Shared numThreads C) : Shared numThreads C := { g with mutex := none }

/-- The loop of a worker. -/
def workerMove (w : Fin numThreads) : Act numThreads → WorkerPoint C → Shared numThreads C →
    Option (WorkerPoint C × Shared numThreads C)
  | .next, .lockQueue, g => (g.lock (.worker w)).map (.testWait, ·)
  | .next, .testWait, g => if g.queue.ready then some (.testExit, g) else some (.sleep, g)
  | .next, .sleep, g =>
    some (.blocked, { g.unlock with waiting := Function.update g.waiting w true })
  | .wake, .blocked, g =>
    if g.waiting w then some (.blocked, { g with waiting := Function.update g.waiting w false })
    else none
  | .next, .blocked, g =>
    if g.waiting w then none else (g.lock (.worker w)).map (.testWait, ·)
  | .next, .testExit, g =>
    if g.queue.stop && g.queue.tasks.isEmpty then some (.returning, g)
    else (g.queue.pop w).map fun r => (.popped r.1, { g with queue := r.2 })
  | .next, .popped task, g =>
    some (.running task, { g.unlock with started := g.started ++ [(w, task)] })
  | .finish outcome, .running task, g =>
    some (.lockQueue, { g with completed := g.completed ++ [((w, task), outcome)] })
  | .next, .returning, g =>
    some (.exited, { g.unlock with exited := Function.update g.exited w true })
  | _, _, _ => none

/-- `enqueue` -/
def enqueueMove (c : C) : Act numThreads → ℕ → ClientPoint → Shared numThreads C →
    Option ((ℕ × ClientPoint) × Shared numThreads C)
  | .call, calls, .idle, g => some ((calls + 1, .lockQueue), g)
  | .next, calls, .lockQueue, g =>
    (g.lock (.client c)).map fun g =>
      ((calls, .testStop), { g with queue := g.queue.acquire ⟨c, calls⟩ })
  | .next, calls, .testStop, g =>
    if g.queue.stop then
      some ((calls, .throwing "enqueue on stopped ThreadPool"),
        { g with queue := g.queue.reject ⟨c, calls⟩ })
    else some ((calls, .pushed), { g with queue := g.queue.emplace ⟨c, calls⟩ })
  | .next, calls, .throwing _, g => some ((calls, .idle), g.unlock)
  | .next, calls, .pushed, g => some ((calls, .notifyOne), g.unlock)
  | .notify w, calls, .notifyOne, g =>
    if g.waiting w then
      some ((calls, .idle), { g with waiting := Function.update g.waiting w false })
    else none
  -- no worker is waiting
  | .next, calls, .notifyOne, g =>
    if ∀ w, g.waiting w = false then some ((calls, .idle), g) else none
  | _, _, _, _ => none

/-- The destructor. -/
def destructorMove : Act numThreads → OwnerPoint → Shared numThreads C →
    Option (OwnerPoint × Shared numThreads C)
  | .call, .alive, g => some (.lockQueue, g)
  | .next, .lockQueue, g => (g.lock .owner).map (.setStop, ·)
  | .next, .setStop, g => some (.stopped, { g with queue := { g.queue with stop := true } })
  | .next, .stopped, g => some (.notifyAll, g.unlock)
  | .next, .notifyAll, g => some (.join 0, { g with waiting := fun _ => false })
  | .next, .join k, g =>
    if hk : k < numThreads then
      if g.exited ⟨k, hk⟩ then some (.join (k + 1), g) else none
    else some (.destroyed, g)
  | _, _, _ => none

def move : Tid numThreads C → Act numThreads → Local C → Shared numThreads C →
    Option (Local C × Shared numThreads C)
  | .worker w, a, .worker p, g => (workerMove w a p g).map fun r => (.worker r.1, r.2)
  | .client c, a, .client calls p, g =>
    (enqueueMove c a calls p g).map fun r => (.client r.1.1 r.1.2, r.2)
  | .owner, a, .owner p, g => (destructorMove a p g).map fun r => (.owner r.1, r.2)
  | _, _, _, _ => none

/-- One step of one thread. -/
def step [DecidableEq C] :
    Threads.Config (Tid numThreads C) (Local C) (Shared numThreads C) →
      Threads.Action (Tid numThreads C) (Act numThreads) Empty →
      Option (Threads.Config (Tid numThreads C) (Local C) (Shared numThreads C)) :=
  Threads.step move nofun

/-- A constructed pool: each worker is at the head of its loop. -/
def init (numThreads : ℕ) (C : Type*) :
    Threads.Config (Tid numThreads C) (Local C) (Shared numThreads C) where
  locals
    | .worker _ => .worker .lockQueue
    | .client _ => .client 0 .idle
    | .owner => .owner .alive
  shared := ⟨none, ⟨[], false, [], [], [], []⟩, fun _ => false, fun _ => false, [], []⟩

end Gateway.Concurrency
