import Gateway.Concurrency.ThreadPool
import Gateway.Lib.OwnedLog

/-!
# The transitions of the thread pool

What each thread can do in one step, and what the other threads can rely on: the data
under `queue_mutex_` changes only while the changing thread holds it, and no thread
writes another one's part of the histories.
-/

namespace Gateway.Concurrency
open OwnedLog

variable {numThreads : ℕ} {C : Type*}

/-! ## Steps by kind of thread -/

/-- A step that begins by taking the mutex. -/
theorem map_lock_eq_some {β : Type*} {t : Tid numThreads C} {g : Shared numThreads C}
    {f : Shared numThreads C → β} {r : β} (h : (g.lock t).map f = some r) :
    g.mutex = none ∧ r = f { g with mutex := some t } := by
  unfold Shared.lock at h
  split at h
  · exact ⟨by assumption, (Option.some.inj h).symm⟩
  · cases h

theorem pop_eq_some {w : Fin numThreads} {q q' : Queue numThreads C} {task : Task C}
    (h : q.pop w = some (task, q')) : ∃ tasks, q.tasks = task :: tasks ∧
      q' = { q with tasks := tasks, popped := q.popped ++ [(w, task)] } := by
  unfold Queue.pop at h
  split at h
  · cases h
  · next first tasks htasks =>
    obtain ⟨rfl, rfl⟩ := Prod.mk.inj (Option.some.inj h)
    exact ⟨tasks, htasks, rfl⟩

theorem ready_iff {q : Queue numThreads C} : q.ready = true ↔ q.stop = true ∨ q.tasks ≠ [] := by
  simp [Queue.ready]

inductive WorkerMoves (w : Fin numThreads) (g : Shared numThreads C) :
    WorkerPoint C → WorkerPoint C → Shared numThreads C → Prop
  | lock (hfree : g.mutex = none) :
      WorkerMoves w g .lockQueue .testWait { g with mutex := some (.worker w) }
  | ready (hq : g.queue.stop = true ∨ g.queue.tasks ≠ []) : WorkerMoves w g .testWait .testExit g
  | notReady (hstop : g.queue.stop = false) (htasks : g.queue.tasks = []) :
      WorkerMoves w g .testWait .sleep g
  | block : WorkerMoves w g .sleep .blocked
      { g.unlock with waiting := Function.update g.waiting w true }
  | wake : WorkerMoves w g .blocked .blocked
      { g with waiting := Function.update g.waiting w false }
  | relock (hw : g.waiting w = false) (hfree : g.mutex = none) :
      WorkerMoves w g .blocked .testWait { g with mutex := some (.worker w) }
  | leave (hstop : g.queue.stop = true) (htasks : g.queue.tasks = []) :
      WorkerMoves w g .testExit .returning g
  | pop {task : Task C} {tasks : List (Task C)} (htasks : g.queue.tasks = task :: tasks) :
      WorkerMoves w g .testExit (.popped task)
        { g with
          queue := { g.queue with tasks := tasks, popped := g.queue.popped ++ [(w, task)] } }
  | start (task : Task C) : WorkerMoves w g (.popped task) (.running task)
      { g.unlock with started := g.started ++ [(w, task)] }
  | finish (task : Task C) (outcome : Outcome) : WorkerMoves w g (.running task) .lockQueue
      { g with completed := g.completed ++ [((w, task), outcome)] }
  | exit : WorkerMoves w g .returning .exited
      { g.unlock with exited := Function.update g.exited w true }

theorem workerMoves_of_move {w : Fin numThreads} {a : Act numThreads} {p p' : WorkerPoint C}
    {g g' : Shared numThreads C} (h : workerMove w a p g = some (p', g')) :
    WorkerMoves w g p p' g' := by
  unfold workerMove at h
  split at h
  · obtain ⟨hfree, heq⟩ := map_lock_eq_some h
    cases heq
    exact .lock hfree
  · split_ifs at h with hq
    · cases h
      exact .ready (ready_iff.mp hq)
    · cases h
      obtain ⟨hstop, htasks⟩ := not_or.mp (mt ready_iff.mpr hq)
      exact .notReady (by simpa using hstop) (not_not.mp htasks)
  · cases h
    exact .block
  · split_ifs at h with hw
    cases h
    exact .wake
  · split_ifs at h with hw
    obtain ⟨hfree, heq⟩ := map_lock_eq_some h
    cases heq
    exact .relock (by simpa using hw) hfree
  · split_ifs at h with hq
    · cases h
      obtain ⟨hstop, htasks⟩ := Bool.and_eq_true_iff.mp hq
      exact .leave hstop (List.isEmpty_iff.mp htasks)
    · obtain ⟨⟨task, q'⟩, hpop, heq⟩ := Option.map_eq_some_iff.mp h
      obtain ⟨tasks, htasks, rfl⟩ := pop_eq_some hpop
      cases heq
      exact .pop htasks
  · cases h
    exact .start _
  · cases h
    exact .finish _ _
  · cases h
    exact .exit
  · cases h

inductive ClientMoves (c : C) (n : ℕ) (g : Shared numThreads C) :
    ClientPoint → ℕ × ClientPoint → Shared numThreads C → Prop
  | call : ClientMoves c n g .idle (n + 1, .lockQueue) g
  | lock (hfree : g.mutex = none) : ClientMoves c n g .lockQueue (n, .testStop)
      { g with mutex := some (.client c), queue := g.queue.acquire ⟨c, n⟩ }
  | throw (hstop : g.queue.stop = true) :
      ClientMoves c n g .testStop (n, .throwing "enqueue on stopped ThreadPool")
        { g with queue := g.queue.reject ⟨c, n⟩ }
  | emplace (hstop : g.queue.stop = false) : ClientMoves c n g .testStop (n, .pushed)
      { g with queue := g.queue.emplace ⟨c, n⟩ }
  | unwind (what : String) : ClientMoves c n g (.throwing what) (n, .idle) g.unlock
  | unlock : ClientMoves c n g .pushed (n, .notifyOne) g.unlock
  | notifyOne (w : Fin numThreads) : ClientMoves c n g .notifyOne (n, .idle)
      { g with waiting := Function.update g.waiting w false }
  | notifyNone (hnone : ∀ w, g.waiting w = false) : ClientMoves c n g .notifyOne (n, .idle) g

theorem clientMoves_of_move {c : C} {a : Act numThreads} {n : ℕ} {p : ClientPoint}
    {r : ℕ × ClientPoint} {g g' : Shared numThreads C}
    (h : enqueueMove c a n p g = some (r, g')) : ClientMoves c n g p r g' := by
  unfold enqueueMove at h
  split at h
  · cases h
    exact .call
  · obtain ⟨hfree, heq⟩ := map_lock_eq_some h
    cases heq
    exact .lock hfree
  · split_ifs at h with hstop
    · cases h
      exact .throw hstop
    · cases h
      exact .emplace (by simpa using hstop)
  · cases h
    exact .unwind _
  · cases h
    exact .unlock
  · split_ifs at h with hw
    cases h
    exact .notifyOne _
  · split_ifs at h with hnone
    cases h
    exact .notifyNone hnone
  · cases h

inductive OwnerMoves (g : Shared numThreads C) :
    OwnerPoint → OwnerPoint → Shared numThreads C → Prop
  | call : OwnerMoves g .alive .lockQueue g
  | lock (hfree : g.mutex = none) : OwnerMoves g .lockQueue .setStop { g with mutex := some .owner }
  | setStop : OwnerMoves g .setStop .stopped { g with queue := { g.queue with stop := true } }
  | unlock : OwnerMoves g .stopped .notifyAll g.unlock
  | notifyAll : OwnerMoves g .notifyAll (.join 0) { g with waiting := fun _ => false }
  | join {k : ℕ} (hk : k < numThreads) (hexit : g.exited ⟨k, hk⟩ = true) :
      OwnerMoves g (.join k) (.join (k + 1)) g
  | joined {k : ℕ} (hk : numThreads ≤ k) : OwnerMoves g (.join k) .destroyed g

theorem ownerMoves_of_move {a : Act numThreads} {p p' : OwnerPoint} {g g' : Shared numThreads C}
    (h : destructorMove a p g = some (p', g')) : OwnerMoves g p p' g' := by
  unfold destructorMove at h
  split at h
  · cases h
    exact .call
  · obtain ⟨hfree, heq⟩ := map_lock_eq_some h
    cases heq
    exact .lock hfree
  · cases h
    exact .setStop
  · cases h
    exact .unlock
  · cases h
    exact .notifyAll
  · split_ifs at h with hk hexit
    · cases h
      exact .join hk hexit
    · cases h
      exact .joined (not_lt.mp hk)
  · cases h

/-- The transitions of any thread. -/
inductive Moves (g g' : Shared numThreads C) : Tid numThreads C → Local C → Local C → Prop
  | worker {w : Fin numThreads} {p p' : WorkerPoint C} (h : WorkerMoves w g p p' g') :
      Moves g g' (.worker w) (.worker p) (.worker p')
  | client {c : C} {n : ℕ} {p : ClientPoint} {r : ℕ × ClientPoint} (h : ClientMoves c n g p r g') :
      Moves g g' (.client c) (.client n p) (.client r.1 r.2)
  | owner {p p' : OwnerPoint} (h : OwnerMoves g p p' g') : Moves g g' .owner (.owner p) (.owner p')

theorem moves_of_move {t : Tid numThreads C} {a : Act numThreads} {l l' : Local C}
    {g g' : Shared numThreads C} (h : move t a l g = some (l', g')) : Moves g g' t l l' := by
  unfold move at h
  split at h
  · obtain ⟨⟨p', g₁⟩, hmove, heq⟩ := Option.map_eq_some_iff.mp h
    cases heq
    exact .worker (workerMoves_of_move hmove)
  · obtain ⟨⟨r, g₁⟩, hmove, heq⟩ := Option.map_eq_some_iff.mp h
    cases heq
    exact .client (clientMoves_of_move hmove)
  · obtain ⟨⟨p', g₁⟩, hmove, heq⟩ := Option.map_eq_some_iff.mp h
    cases heq
    exact .owner (ownerMoves_of_move hmove)
  · cases h

/-! ## What other threads rely on -/

/-- The points at which a thread holds the mutex. -/
def Local.holds : Local C → Bool
  | .worker .testWait => true
  | .worker .sleep => true
  | .worker .testExit => true
  | .worker (.popped _) => true
  | .worker .returning => true
  | .client _ .testStop => true
  | .client _ (.throwing _) => true
  | .client _ .pushed => true
  | .owner .setStop => true
  | .owner .stopped => true
  | _ => false

/-- A step of `t` as the other threads see it; what a step does not mention is unchanged. -/
structure Frame (t : Tid numThreads C) (g g' : Shared numThreads C) : Prop where
  mutex : ∀ u, u ≠ t → (g'.mutex = some u ↔ g.mutex = some u) := by exact fun _ _ => Iff.rfl
  queue : ∀ u, u ≠ t → g.mutex = some u → g'.queue = g.queue := by exact fun _ _ _ => rfl
  acquired : ∀ c, .client c ≠ t → ∀ e ∈ g'.queue.acquired, e.1.client = c →
    e ∈ g.queue.acquired := by exact fun _ _ _ he _ => he
  popped : ∀ w, .worker w ≠ t →
    ofOwner w g'.queue.popped = ofOwner w g.queue.popped := by exact fun _ _ => rfl
  started : ∀ w, .worker w ≠ t → ofOwner w g'.started = ofOwner w g.started := by
    exact fun _ _ => rfl
  completed : ∀ w, .worker w ≠ t → ofOwner w (g'.completed.map Prod.fst) =
    ofOwner w (g.completed.map Prod.fst) := by exact fun _ _ => rfl
  exited : ∀ w, .worker w ≠ t → g'.exited w = g.exited w := by exact fun _ _ => rfl
  exited_mono : ∀ w, g.exited w = true → g'.exited w = true := by exact fun _ h => h

section
variable {t : Tid numThreads C} {g : Shared numThreads C}

theorem mutex_lock (hfree : g.mutex = none) (u : Tid numThreads C) (hu : u ≠ t) :
    some t = some u ↔ g.mutex = some u := by
  simp [hfree, hu.symm]

theorem mutex_unlock (hheld : g.mutex = some t) (u : Tid numThreads C) (hu : u ≠ t) :
    none = some u ↔ g.mutex = some u := by
  simp [hheld, hu.symm]

/-- While `t` holds the mutex no other thread relies on the queue. -/
theorem queue_of_held (hheld : g.mutex = some t) {P : Prop} (u : Tid numThreads C) (hu : u ≠ t)
    (h : g.mutex = some u) : P :=
  absurd (Option.some.inj (h.symm.trans hheld)) hu

theorem worker_ne {w v : Fin numThreads} (h : Tid.worker v ≠ (.worker w : Tid numThreads C)) :
    w ≠ v := fun heq => h (congrArg _ heq.symm)

theorem frame_of_workerMoves {w : Fin numThreads} {g' : Shared numThreads C}
    {p p' : WorkerPoint C}
    (hheld : (Local.worker p).holds = true → g.mutex = some (.worker w))
    (hm : WorkerMoves w g p p' g') : Frame (.worker w) g g' := by
  cases hm with
  | lock hfree => exact { mutex := mutex_lock hfree }
  | ready hq => exact {}
  | notReady hstop htasks => exact {}
  | block => exact { mutex := mutex_unlock (hheld rfl) }
  | wake => exact {}
  | relock hw hfree => exact { mutex := mutex_lock hfree }
  | leave hstop htasks => exact {}
  | pop htasks =>
    exact {
      queue := queue_of_held (hheld rfl)
      popped := fun v hv => ofOwner_append_of_ne _ (worker_ne hv) _ }
  | start task =>
    exact {
      mutex := mutex_unlock (hheld rfl)
      started := fun v hv => ofOwner_append_of_ne _ (worker_ne hv) _ }
  | finish task outcome =>
    refine { completed := fun v hv => ?_ }
    rw [List.map_append]
    exact ofOwner_append_of_ne _ (worker_ne hv) _
  | exit =>
    refine {
      mutex := mutex_unlock (hheld rfl)
      exited := fun v hv => Function.update_of_ne (worker_ne hv).symm _ _
      exited_mono := fun v hv => ?_ }
    dsimp only
    rw [Function.update_apply]
    split_ifs
    · rfl
    · exact hv

theorem frame_of_clientMoves {c : C} {g' : Shared numThreads C} {n : ℕ} {p : ClientPoint}
    {r : ℕ × ClientPoint}
    (hheld : (Local.client n p : Local C).holds = true → g.mutex = some (.client c))
    (hm : ClientMoves c n g p r g') : Frame (.client c) g g' := by
  cases hm with
  | call => exact {}
  | lock hfree =>
    refine {
      mutex := mutex_lock hfree
      queue := fun u _ hu => absurd (hfree.symm.trans hu) nofun
      acquired := fun d hd e he hc => ?_ }
    rcases List.mem_append.mp he with he | he
    · exact he
    -- the new entry is the caller's own
    · obtain rfl := List.mem_singleton.mp he
      exact absurd (congrArg Tid.client hc.symm) hd
  | throw hstop => exact { queue := queue_of_held (hheld rfl) }
  | emplace hstop => exact { queue := queue_of_held (hheld rfl) }
  | unwind what => exact { mutex := mutex_unlock (hheld rfl) }
  | unlock => exact { mutex := mutex_unlock (hheld rfl) }
  | notifyOne w => exact {}
  | notifyNone hnone => exact {}

theorem frame_of_ownerMoves {g' : Shared numThreads C} {p p' : OwnerPoint}
    (hheld : (Local.owner p : Local C).holds = true → g.mutex = some .owner)
    (hm : OwnerMoves g p p' g') : Frame .owner g g' := by
  cases hm with
  | call => exact {}
  | lock hfree => exact { mutex := mutex_lock hfree }
  | setStop => exact { queue := queue_of_held (hheld rfl) }
  | unlock => exact { mutex := mutex_unlock (hheld rfl) }
  | notifyAll => exact {}
  | join hk hexit => exact {}
  | joined hk => exact {}

theorem frame_of_moves {g' : Shared numThreads C} {l l' : Local C}
    (hheld : l.holds = true → g.mutex = some t) (hm : Moves g g' t l l') : Frame t g g' := by
  cases hm with
  | worker hm => exact frame_of_workerMoves hheld hm
  | client hm => exact frame_of_clientMoves hheld hm
  | owner hm => exact frame_of_ownerMoves hheld hm

end

end Gateway.Concurrency
