import Gateway.Concurrency.ExactlyOnce
import Gateway.Lib.Refinement
import Mathlib.Algebra.BigOperators.Fin
import Mathlib.Algebra.Order.BigOperators.Group.Finset

/-!
# What the thread pool is for

Tasks start in the order in which they were accepted, on a worker that has nothing else to do,
and end in any order. `FifoPool` says this with one step for each of the three events, and every
run of the pool is one of its runs: the mutex, the condition variable and the order in which
threads wake up cannot be seen.
-/

namespace Gateway.Concurrency
open Steps Threads

/-- The tasks that wait, the one that each worker executes, and those started and completed so
far. -/
structure FifoPool (numThreads : ℕ) (τ : Type*) where
  waiting : List τ
  running : Fin numThreads → Option τ
  started : List τ
  completed : List τ

namespace FifoPool
variable {numThreads : ℕ} {τ : Type*}

inductive Op (numThreads : ℕ) (τ : Type*) where
  | enqueue (task : τ)
  | start (w : Fin numThreads)
  | finish (w : Fin numThreads)

def init (numThreads : ℕ) (τ : Type*) : FifoPool numThreads τ := ⟨[], fun _ => none, [], []⟩

def step (p : FifoPool numThreads τ) : Op numThreads τ → Option (FifoPool numThreads τ)
  | .enqueue task => some { p with waiting := p.waiting ++ [task] }
  | .start w =>
    match p.running w, p.waiting with
    | none, task :: waiting =>
      some
        { p with
          waiting, running := Function.update p.running w (some task)
          started := p.started ++ [task] }
    | _, _ => none
  | .finish w =>
    (p.running w).map fun task =>
      { p with
        running := Function.update p.running w none
        completed := p.completed ++ [task] }

/-- The tasks an operation adds. -/
def Op.enqueued : Op numThreads τ → List τ
  | .enqueue task => [task]
  | .start _ => []
  | .finish _ => []

/-- The steps of the pool, as what holds before and after each. -/
inductive Steps (p : FifoPool numThreads τ) : Op numThreads τ → FifoPool numThreads τ → Prop
  | enqueue (task : τ) : Steps p (.enqueue task) { p with waiting := p.waiting ++ [task] }
  | start {w : Fin numThreads} {task : τ} {waiting : List τ} (hidle : p.running w = none)
      (hwaiting : p.waiting = task :: waiting) :
      Steps p (.start w)
        { p with
          waiting, running := Function.update p.running w (some task)
          started := p.started ++ [task] }
  | finish {w : Fin numThreads} {task : τ} (hbusy : p.running w = some task) :
      Steps p (.finish w)
        { p with
          running := Function.update p.running w none
          completed := p.completed ++ [task] }

theorem steps_of_step {p q : FifoPool numThreads τ} {op : Op numThreads τ}
    (h : p.step op = some q) : Steps p op q := by
  cases op with
  | enqueue task =>
    obtain rfl := Option.some.inj h
    exact .enqueue task
  | start w =>
    rw [step] at h
    split at h
    · next task waiting hidle hwaiting =>
      obtain rfl := Option.some.inj h
      exact .start hidle hwaiting
    · cases h
  | finish w =>
    obtain ⟨task, hbusy, rfl⟩ := Option.map_eq_some_iff.mp h
    exact .finish hbusy

/-- The tasks in execution. -/
def inProgress (p : FifoPool numThreads τ) : Multiset τ :=
  ∑ w, ((p.running w).toList : Multiset τ)

theorem inProgress_update (p : FifoPool numThreads τ) (w : Fin numThreads) (x : Option τ) :
    inProgress { p with running := Function.update p.running w x } + (p.running w).toList =
      p.inProgress + x.toList :=
  sum_update_add (fun r => (r.toList : Multiset τ)) p.running w x

theorem card_inProgress_le (p : FifoPool numThreads τ) : p.inProgress.card ≤ numThreads := by
  have hle : ∀ w ∈ (Finset.univ : Finset (Fin numThreads)),
      ((p.running w).toList : Multiset τ).card ≤ 1 := by
    intro w _
    cases p.running w <;> simp
  calc p.inProgress.card = ∑ w, ((p.running w).toList : Multiset τ).card := Multiset.card_sum _ _
    _ ≤ ∑ _w : Fin numThreads, 1 := Finset.sum_le_sum hle
    _ = numThreads := by simp

/-- What is started is what was enqueued first, and it is completed or in execution. -/
structure Ordered (p : FifoPool numThreads τ) (enqueued : List τ) : Prop where
  fifo : p.started ++ p.waiting = enqueued
  started : (p.started : Multiset τ) = p.completed + p.inProgress

theorem Ordered.step {p q : FifoPool numThreads τ} {op : Op numThreads τ} {enqueued : List τ}
    (h : Ordered p enqueued) (hstep : p.step op = some q) :
    Ordered q (enqueued ++ op.enqueued) := by
  cases steps_of_step hstep with
  | enqueue task => exact ⟨by simp [← h.fifo, Op.enqueued], h.started⟩
  | @start w task waiting hidle hwaiting =>
    refine ⟨by simp [← h.fifo, hwaiting, Op.enqueued], ?_⟩
    have hupdate := inProgress_update p w (some task)
    rw [hidle, Option.toList_none, Multiset.coe_nil, add_zero] at hupdate
    show ((p.started ++ [task] : List τ) : Multiset τ) = p.completed +
      inProgress { p with running := Function.update p.running w (some task) }
    rw [hupdate, ← Multiset.coe_add, h.started, add_assoc]
    rfl
  | @finish w task hbusy =>
    refine ⟨by simp [← h.fifo, Op.enqueued], ?_⟩
    have hupdate := inProgress_update p w none
    rw [hbusy, Option.toList_none, Multiset.coe_nil, add_zero] at hupdate
    show (p.started : Multiset τ) = ((p.completed ++ [task] : List τ) : Multiset τ) +
      inProgress { p with running := Function.update p.running w none }
    rw [h.started, ← hupdate, ← Multiset.coe_add, add_assoc]
    congr 1
    exact add_comm _ _

theorem ordered_of_exec {ops : List (Op numThreads τ)} {p : FifoPool numThreads τ}
    (h : exec step (init numThreads τ) ops = some p) : Ordered p (ops.flatMap Op.enqueued) := by
  induction ops using List.reverseRecOn generalizing p with
  | nil =>
    obtain rfl := Option.some.inj h
    exact ⟨rfl, by simp [init, inProgress]⟩
  | append_singleton ops op ih =>
    obtain ⟨q, hq, hop⟩ := exec_append.mp h
    obtain ⟨r, hr, hrp⟩ := exec_cons.mp hop
    obtain rfl := Option.some.inj hrp
    rw [List.flatMap_append]
    simpa using (ih hq).step hr

/-- At most as many tasks are in execution as there are workers. -/
theorem Ordered.length_le {p : FifoPool numThreads τ} {enqueued : List τ}
    (h : Ordered p enqueued) : p.started.length ≤ p.completed.length + numThreads := by
  have hcard := congrArg Multiset.card h.started
  rw [Multiset.card_add, Multiset.coe_card, Multiset.coe_card] at hcard
  have hle := p.card_inProgress_le
  omega

/-- One worker executes the tasks one after the other. -/
theorem sequential_of_exec {ops : List (Op 1 τ)} {p : FifoPool 1 τ}
    (h : exec step (init 1 τ) ops = some p) :
    p.started = p.completed ++ (p.running 0).toList := by
  refine invariant_of_meets (G := fun _ _ => True)
    (I := fun p => p.started = p.completed ++ (p.running 0).toList) ?_ rfl
    (meets_of_forall_mem (fun _ _ _ => trivial) _) h
  intro p op q hp _ hstep
  cases steps_of_step hstep with
  | enqueue task => exact hp
  | @start w task waiting hidle hwaiting =>
    obtain rfl : w = 0 := Subsingleton.elim w 0
    simp [hp, hidle]
  | @finish w task hbusy =>
    obtain rfl : w = 0 := Subsingleton.elim w 0
    simp [hp, hbusy]

end FifoPool

/-! ## The pool seen as a queue of tasks -/

section Abstraction
variable {numThreads : ℕ} {C : Type*}

/-- The state of all threads and what they share. -/
abbrev Pool (numThreads : ℕ) (C : Type*) :=
  Config (Tid numThreads C) (Local C) (Shared numThreads C)

/-- The task a thread is executing. -/
def Local.task : Local C → Option (Task C)
  | .worker (.running task) => some task
  | _ => none

/-- The task a thread has taken from the queue and not started. -/
def Local.taken : Local C → List (Task C)
  | .worker (.popped task) => [task]
  | _ => []

def Pool.abs (c : Pool numThreads C) : FifoPool numThreads (Task C) where
  waiting := c.shared.queue.accepted.drop c.shared.started.length
  running w := (c.locals (.worker w)).task
  started := c.shared.started.map Prod.snd
  completed := c.shared.completed.map fun e => e.1.2

/-- What the step of a thread is for the queue of tasks. -/
def Pool.label (c : Pool numThreads C) :
    Action (Tid numThreads C) (Act numThreads) Empty → Option (FifoPool.Op numThreads (Task C))
  | .thread (.worker w) _ =>
    match c.locals (.worker w) with
    | .worker (.popped _) => some (.start w)
    | .worker (.running _) => some (.finish w)
    | _ => none
  | .thread (.client d) _ =>
    match c.locals (.client d) with
    | .client n .testStop => if c.shared.queue.stop then none else some (.enqueue ⟨d, n⟩)
    | _ => none
  | .thread .owner _ => none

/-- The task that the holder of the mutex has taken and not started. -/
def Pool.taken (c : Pool numThreads C) : List (Task C) :=
  match c.shared.mutex with
  | none => []
  | some t => (c.locals t).taken

/-- Tasks start in the order in which they are taken from the queue. -/
def Pool.StartsInOrder (c : Pool numThreads C) : Prop :=
  c.shared.queue.popped.map Prod.snd = c.shared.started.map Prod.snd ++ c.taken

/-! ### Tasks start in the order in which they are taken -/

section Taken
variable {c : Pool numThreads C} {t : Tid numThreads C} {l : Local C} {g : Shared numThreads C}

theorem taken_of_free (h : c.shared.mutex = none) : c.taken = [] := by
  simp only [Pool.taken, h]

theorem taken_of_held (h : c.shared.mutex = some t) : c.taken = (c.locals t).taken := by
  simp only [Pool.taken, h]

/-- A step that takes no task from the queue and starts none. -/
theorem Pool.StartsInOrder.keep {c' : Pool numThreads C} (h : c.StartsInOrder)
    (hpopped : c'.shared.queue.popped = c.shared.queue.popped)
    (hstarted : c'.shared.started = c.shared.started) (htaken : c'.taken = c.taken) :
    c'.StartsInOrder := by
  unfold Pool.StartsInOrder at h ⊢
  rw [hpopped, hstarted, htaken, h]

variable [DecidableEq C]

theorem taken_update_of_held (h : g.mutex = some t) :
    Pool.taken ⟨Function.update c.locals t l, g⟩ = l.taken := by
  rw [taken_of_held (show (⟨_, g⟩ : Pool numThreads C).shared.mutex = some t from h)]
  dsimp only
  rw [Function.update_self]

/-- The step of a thread that does not hold the mutex and does not take it. -/
theorem taken_update_of_ne (hne : c.shared.mutex ≠ some t) (h : g.mutex = c.shared.mutex) :
    Pool.taken ⟨Function.update c.locals t l, g⟩ = c.taken := by
  cases hm : c.shared.mutex with
  | none => rw [taken_of_free hm, taken_of_free (h.trans hm)]
  | some u =>
    have hu : u ≠ t := fun heq => hne (hm.trans (congrArg some heq))
    rw [taken_of_held hm, taken_of_held (h.trans hm)]
    dsimp only
    rw [Function.update_of_ne hu]

theorem startsInOrder_worker {w : Fin numThreads} {p p' : WorkerPoint C}
    (h : c.StartsInOrder) (hl : c.locals (.worker w) = .worker p)
    (ho : Owned (.worker w) (.worker p) c.shared) (hm : WorkerMoves w c.shared p p' g) :
    Pool.StartsInOrder ⟨Function.update c.locals (.worker w) (.worker p'), g⟩ := by
  have hheld (hh : (Local.worker p).holds = true) : c.taken = (Local.worker p).taken := by
    rw [taken_of_held (ho.held.mp hh), hl]
  -- a worker without the lock has no task in hand
  have hnot (hh : (Local.worker p).holds = false) : c.shared.mutex ≠ some (.worker w) := by
    intro hmutex
    exact absurd (ho.held.mpr hmutex) (by simp [hh])
  cases hm with
  | lock hfree =>
    exact h.keep rfl rfl ((taken_update_of_held rfl).trans (taken_of_free hfree).symm)
  | ready hq =>
    exact h.keep rfl rfl ((taken_update_of_held (ho.held.mp rfl)).trans (hheld rfl).symm)
  | notReady hstop htasks =>
    exact h.keep rfl rfl ((taken_update_of_held (ho.held.mp rfl)).trans (hheld rfl).symm)
  | block => exact h.keep rfl rfl ((taken_of_free rfl).trans (hheld rfl).symm)
  | wake => exact h.keep rfl rfl (taken_update_of_ne (hnot rfl) rfl)
  | relock hw hfree =>
    exact h.keep rfl rfl ((taken_update_of_held rfl).trans (taken_of_free hfree).symm)
  | leave hstop htasks =>
    exact h.keep rfl rfl ((taken_update_of_held (ho.held.mp rfl)).trans (hheld rfl).symm)
  | @pop task tasks htasks =>
    refine Eq.trans ?_ (congrArg (_ ++ ·) (taken_update_of_held (ho.held.mp rfl)).symm)
    unfold Pool.StartsInOrder at h
    dsimp only
    rw [List.map_append, h, hheld rfl]
    simp [Local.taken]
  | start task =>
    refine Eq.trans ?_ (congrArg (_ ++ ·) (taken_of_free rfl).symm)
    unfold Pool.StartsInOrder at h
    dsimp only [Shared.unlock]
    rw [h, hheld rfl]
    simp [Local.taken]
  | finish task outcome => exact h.keep rfl rfl (taken_update_of_ne (hnot rfl) rfl)
  | exit => exact h.keep rfl rfl ((taken_of_free rfl).trans (hheld rfl).symm)

theorem startsInOrder_client {d : C} {n : ℕ} {p : ClientPoint} {r : ℕ × ClientPoint}
    (h : c.StartsInOrder) (hl : c.locals (.client d) = .client n p)
    (ho : Owned (.client d) (.client n p) c.shared) (hm : ClientMoves d n c.shared p r g) :
    Pool.StartsInOrder ⟨Function.update c.locals (.client d) (.client r.1 r.2), g⟩ := by
  have hheld (hh : (Local.client n p : Local C).holds = true) : c.taken = [] := by
    rw [taken_of_held (ho.held.mp hh), hl]
    rfl
  have hnot (hh : (Local.client n p : Local C).holds = false) :
      c.shared.mutex ≠ some (.client d) := by
    intro hmutex
    exact absurd (ho.held.mpr hmutex) (by simp [hh])
  cases hm with
  | call => exact h.keep rfl rfl (taken_update_of_ne (hnot rfl) rfl)
  | lock hfree =>
    exact h.keep rfl rfl ((taken_update_of_held rfl).trans (taken_of_free hfree).symm)
  | throw hstop =>
    exact h.keep rfl rfl ((taken_update_of_held (ho.held.mp rfl)).trans (hheld rfl).symm)
  | emplace hstop =>
    exact h.keep rfl rfl ((taken_update_of_held (ho.held.mp rfl)).trans (hheld rfl).symm)
  | unwind what => exact h.keep rfl rfl ((taken_of_free rfl).trans (hheld rfl).symm)
  | unlock => exact h.keep rfl rfl ((taken_of_free rfl).trans (hheld rfl).symm)
  | notifyOne w => exact h.keep rfl rfl (taken_update_of_ne (hnot rfl) rfl)
  | notifyNone hnone => exact h.keep rfl rfl (taken_update_of_ne (hnot rfl) rfl)

theorem startsInOrder_owner {p p' : OwnerPoint} (h : c.StartsInOrder)
    (hl : c.locals .owner = .owner p) (ho : Owned .owner (.owner p) c.shared)
    (hm : OwnerMoves c.shared p p' g) :
    Pool.StartsInOrder ⟨Function.update c.locals .owner (.owner p'), g⟩ := by
  have hheld (hh : (Local.owner p : Local C).holds = true) : c.taken = [] := by
    rw [taken_of_held (ho.held.mp hh), hl]
    rfl
  have hnot (hh : (Local.owner p : Local C).holds = false) : c.shared.mutex ≠ some .owner := by
    intro hmutex
    exact absurd (ho.held.mpr hmutex) (by simp [hh])
  cases hm with
  | call => exact h.keep rfl rfl (taken_update_of_ne (hnot rfl) rfl)
  | lock hfree =>
    exact h.keep rfl rfl ((taken_update_of_held rfl).trans (taken_of_free hfree).symm)
  | setStop =>
    exact h.keep rfl rfl ((taken_update_of_held (ho.held.mp rfl)).trans (hheld rfl).symm)
  | unlock => exact h.keep rfl rfl ((taken_of_free rfl).trans (hheld rfl).symm)
  | notifyAll => exact h.keep rfl rfl (taken_update_of_ne (hnot rfl) rfl)
  | join hk hexit => exact h.keep rfl rfl (taken_update_of_ne (hnot rfl) rfl)
  | joined hk => exact h.keep rfl rfl (taken_update_of_ne (hnot rfl) rfl)

theorem startsInOrder_run {actions : List (Action (Tid numThreads C) (Act numThreads) Empty)}
    (hrun : exec step (init numThreads C) actions = some c) : c.StartsInOrder := by
  refine invariant_of_reachable
    (K := fun c => ∀ t, Owned t (c.locals t) c.shared) (I := Pool.StartsInOrder)
    (fun _ _ h => (poolInv_run h).2) ?_ rfl hrun
  intro c action c' ho h hstep
  cases action with
  | thread t a =>
    obtain ⟨l', g', hmove, rfl⟩ := step_thread.mp hstep
    have hot := ho t
    generalize hl : c.locals t = l at hot hmove
    cases moves_of_move hmove with
    | worker hm => exact startsInOrder_worker h hl hot hm
    | client hm => exact startsInOrder_client h hl hot hm
    | owner hm => exact startsInOrder_owner h hl hot hm
  | env e => exact e.elim

end Taken

/-! ### The simulation -/

section Simulation
variable {c : Pool numThreads C} {t : Tid numThreads C} {l : Local C} {g : Shared numThreads C}

/-- What was accepted is what was started, then what is taken, then what is in the queue. -/
theorem accepted_eq (hI : PoolInv c.shared) (h : c.StartsInOrder) :
    c.shared.queue.accepted =
      c.shared.started.map Prod.snd ++ (c.taken ++ c.shared.queue.tasks) := by
  rw [hI.fifo, h, List.append_assoc]

theorem abs_waiting (hI : PoolInv c.shared) (h : c.StartsInOrder) :
    c.abs.waiting = c.taken ++ c.shared.queue.tasks := by
  have hlength : c.shared.started.length = (c.shared.started.map Prod.snd).length := by
    rw [List.length_map]
  show c.shared.queue.accepted.drop c.shared.started.length = _
  rw [accepted_eq hI h, hlength, List.drop_left]

variable [DecidableEq C]

theorem task_update (u : Tid numThreads C) :
    (Function.update c.locals t l u).task = if u = t then l.task else (c.locals u).task := by
  rw [Function.update_apply]
  split_ifs <;> rfl

/-- A step that is not seen. -/
theorem abs_eq (haccepted : g.queue.accepted = c.shared.queue.accepted)
    (hstarted : g.started = c.shared.started) (hcompleted : g.completed = c.shared.completed)
    (htask : l.task = (c.locals t).task) :
    Pool.abs ⟨Function.update c.locals t l, g⟩ = c.abs := by
  have hrunning : (fun w => (Function.update c.locals t l (.worker w)).task) =
      fun w => (c.locals (.worker w)).task := by
    funext w
    rw [task_update]
    split_ifs with hw
    · rw [htask, hw]
    · rfl
  simp only [Pool.abs, haccepted, hstarted, hcompleted, hrunning]

theorem running_update (w : Fin numThreads) :
    (fun v => (Function.update c.locals (.worker w) l (.worker v)).task) =
      Function.update (fun v => (c.locals (.worker v)).task) w l.task := by
  funext v
  rw [task_update, Function.update_apply]
  simp only [Tid.worker.injEq]

theorem follows_worker {w : Fin numThreads} {p p' : WorkerPoint C} (hI : PoolInv c.shared)
    (h : c.StartsInOrder) (hl : c.locals (.worker w) = .worker p)
    (ho : Owned (.worker w) (.worker p) c.shared) (hm : WorkerMoves w c.shared p p' g)
    (a : Act numThreads) :
    Follows FifoPool.step c.abs
      (Pool.abs ⟨Function.update c.locals (.worker w) (.worker p'), g⟩)
      (c.label (.thread (.worker w) a)) := by
  simp only [Pool.label, hl]
  -- all steps but the two that start and finish a task are silent
  cases hm with
  | lock hfree => exact abs_eq rfl rfl rfl (by rw [hl]; rfl)
  | ready hq => exact abs_eq rfl rfl rfl (by rw [hl]; rfl)
  | notReady hstop htasks => exact abs_eq rfl rfl rfl (by rw [hl]; rfl)
  | block => exact abs_eq rfl rfl rfl (by rw [hl]; rfl)
  | wake => exact abs_eq rfl rfl rfl (by rw [hl])
  | relock hw hfree => exact abs_eq rfl rfl rfl (by rw [hl]; rfl)
  | leave hstop htasks => exact abs_eq rfl rfl rfl (by rw [hl]; rfl)
  | pop htasks => exact abs_eq rfl rfl rfl (by rw [hl]; rfl)
  | start task =>
    -- the worker holds the mutex, so the task that waits to be started is its own
    have htaken : c.taken = [task] := by
      rw [taken_of_held (ho.held.mp rfl), hl]
      rfl
    have hwaiting := abs_waiting hI h
    rw [htaken, List.singleton_append] at hwaiting
    have hidle : c.abs.running w = none := by
      simp only [Pool.abs, hl, Local.task]
    have hrest : c.shared.queue.accepted.drop (c.shared.started ++ [(w, task)]).length =
        c.shared.queue.tasks := by
      have hdrop : c.shared.queue.accepted.drop c.shared.started.length =
          task :: c.shared.queue.tasks := hwaiting
      rw [List.length_append, List.length_singleton, ← List.drop_drop, hdrop]
      rfl
    simp only [Follows, FifoPool.step, hidle, hwaiting]
    simp only [Pool.abs, Shared.unlock, hrest, running_update, List.map_append]
    rfl
  | finish task outcome =>
    have hbusy : c.abs.running w = some task := by
      simp only [Pool.abs, hl, Local.task]
    simp only [Follows, FifoPool.step, hbusy, Option.map_some]
    simp only [Pool.abs, running_update, List.map_append]
    rfl
  | exit => exact abs_eq rfl rfl rfl (by rw [hl]; rfl)

theorem follows_client {d : C} {n : ℕ} {p : ClientPoint} {r : ℕ × ClientPoint}
    (hI : PoolInv c.shared) (h : c.StartsInOrder) (hl : c.locals (.client d) = .client n p)
    (hm : ClientMoves d n c.shared p r g) (a : Act numThreads) :
    Follows FifoPool.step c.abs
      (Pool.abs ⟨Function.update c.locals (.client d) (.client r.1 r.2), g⟩)
      (c.label (.thread (.client d) a)) := by
  simp only [Pool.label, hl]
  cases hm with
  | call => exact abs_eq rfl rfl rfl (by rw [hl]; rfl)
  | lock hfree => exact abs_eq rfl rfl rfl (by rw [hl]; rfl)
  | throw hstop =>
    simp only [hstop, if_true]
    exact abs_eq rfl rfl rfl (by rw [hl]; rfl)
  | emplace hstop =>
    have hle : c.shared.started.length ≤ c.shared.queue.accepted.length := by
      rw [accepted_eq hI h, List.length_append, List.length_map]
      omega
    have hrunning : (fun w => (Function.update c.locals (.client d) (.client n .pushed)
        (.worker w)).task) = fun w => (c.locals (.worker w)).task := by
      funext w
      rw [task_update, if_neg (by simp)]
    simp only [hstop, Follows, FifoPool.step, Pool.abs, Queue.emplace,
      List.drop_append_of_le_length hle, hrunning, Bool.false_eq_true, if_false]
  | unwind what => exact abs_eq rfl rfl rfl (by rw [hl]; rfl)
  | unlock => exact abs_eq rfl rfl rfl (by rw [hl]; rfl)
  | notifyOne w => exact abs_eq rfl rfl rfl (by rw [hl]; rfl)
  | notifyNone hnone => exact abs_eq rfl rfl rfl (by rw [hl]; rfl)

theorem follows_owner {p p' : OwnerPoint} (hl : c.locals .owner = .owner p)
    (hm : OwnerMoves c.shared p p' g) :
    Pool.abs ⟨Function.update c.locals .owner (.owner p'), g⟩ = c.abs := by
  cases hm <;> exact abs_eq rfl rfl rfl (by rw [hl]; rfl)

variable {actions : List (Action (Tid numThreads C) (Act numThreads) Empty)}

theorem follows_step {action : Action (Tid numThreads C) (Act numThreads) Empty}
    {c' : Pool numThreads C} (hrun : exec step (init numThreads C) actions = some c)
    (hstep : step c action = some c') : Follows FifoPool.step c.abs c'.abs (c.label action) := by
  obtain ⟨hI, ho⟩ := poolInv_run hrun
  have h := startsInOrder_run hrun
  cases action with
  | thread t a =>
    obtain ⟨l', g', hmove, rfl⟩ := step_thread.mp hstep
    have hot := ho t
    generalize hl : c.locals t = l at hot hmove
    cases moves_of_move hmove with
    | worker hm => exact follows_worker hI h hl hot hm a
    | client hm => exact follows_client hI h hl hm a
    | owner hm => exact follows_owner hl hm
  | env e => exact e.elim

/-- The tasks that the queue of tasks was given are those that the pool accepted. -/
theorem accepted_step {action : Action (Tid numThreads C) (Act numThreads) Empty}
    {c' : Pool numThreads C} (hstep : step c action = some c') :
    c'.shared.queue.accepted =
      c.shared.queue.accepted ++ (c.label action).toList.flatMap FifoPool.Op.enqueued := by
  cases action with
  | thread t a =>
    obtain ⟨l', g', hmove, rfl⟩ := step_thread.mp hstep
    generalize hl : c.locals t = l at hmove
    cases moves_of_move hmove with
    | worker hm =>
      simp only [Pool.label, hl]
      cases hm <;> simp [Shared.unlock, FifoPool.Op.enqueued]
    | client hm =>
      simp only [Pool.label, hl]
      cases hm with
      | throw hstop => simp [hstop, Queue.reject]
      | emplace hstop => simp [hstop, Queue.emplace, FifoPool.Op.enqueued]
      | _ => simp [Shared.unlock, Queue.acquire]
    | owner hm =>
      simp only [Pool.label]
      cases hm <;> simp [Shared.unlock]
  | env e => exact e.elim

theorem refines_run (hrun : exec step (init numThreads C) actions = some c) :
    ∃ ops, exec FifoPool.step (FifoPool.init numThreads (Task C)) ops = some c.abs ∧
      ops.flatMap FifoPool.Op.enqueued = c.shared.queue.accepted := by
  refine ⟨labels step Pool.label (init numThreads C) actions, ?_, ?_⟩
  · exact exec_labels (fun _ _ _ _ h hstep => follows_step h hstep) (exec_nil _) hrun
  · exact (record_labels (fun _ _ _ hstep => accepted_step hstep) hrun).symm

/-- Every run of the thread pool, seen through its tasks, is a run of the queue of tasks on the
tasks that it accepted. -/
theorem pool_refines_fifoPool (actions : List (Action (Tid numThreads C) (Act numThreads) Empty))
    (c : Pool numThreads C) (hrun : exec step (init numThreads C) actions = some c) :
    ∃ ops, exec FifoPool.step (FifoPool.init numThreads (Task C)) ops = some c.abs ∧
      ops.flatMap FifoPool.Op.enqueued = c.shared.queue.accepted :=
  refines_run hrun

/-- Tasks start in the order in which they were accepted, at most as many are in execution as
there are workers, and a single worker completes each before it starts the next. -/
theorem starts_in_order_and_bounded
    (actions : List (Action (Tid numThreads C) (Act numThreads) Empty)) (c : Pool numThreads C)
    (hrun : exec step (init numThreads C) actions = some c) :
    c.shared.started.map Prod.snd <+: c.shared.queue.accepted ∧
      c.shared.started.length ≤ c.shared.completed.length + numThreads ∧
      (numThreads = 1 → (c.shared.completed.map fun e => e.1.2) <+: c.shared.queue.accepted ∧
        c.shared.started.length ≤ c.shared.completed.length + 1) := by
  obtain ⟨ops, hops, haccepted⟩ := refines_run hrun
  have hordered := FifoPool.ordered_of_exec hops
  rw [haccepted] at hordered
  have hstarted : c.shared.started.map Prod.snd <+: c.shared.queue.accepted :=
    ⟨c.abs.waiting, hordered.fifo⟩
  have hlength : c.shared.started.length ≤ c.shared.completed.length + numThreads := by
    simpa [Pool.abs] using hordered.length_le
  refine ⟨hstarted, hlength, ?_⟩
  intro hone
  subst hone
  refine ⟨?_, hlength⟩
  have hseq : c.shared.started.map Prod.snd =
      (c.shared.completed.map fun e => e.1.2) ++ (c.abs.running 0).toList :=
    FifoPool.sequential_of_exec hops
  exact List.IsPrefix.trans ⟨_, hseq.symm⟩ hstarted

end Simulation

/-- The task that woke the worker is completed and a second one waits for it. -/
def twoTasks : List (Action (Tid 1 Unit) (Act 1) Empty) :=
  let w : Fin 1 := ⟨0, Nat.one_pos⟩
  [times 3 (.worker w) .next, times 1 (.client ()) .call, times 3 (.client ()) .next,
    times 1 (.client ()) (.notify w), times 4 (.worker w) .next,
    times 1 (.client ()) .call, times 4 (.client ()) .next,
    times 1 (.worker w) (.finish .returned)].flatten

theorem pool_refines_fifoPool_twoTasks :
    ∃ c : Pool 1 Unit, exec step (init 1 Unit) twoTasks = some c ∧
      c.abs.waiting = [⟨(), 2⟩] ∧
      ∃ ops, exec FifoPool.step (FifoPool.init 1 (Task Unit)) ops = some c.abs := by
  have hrun : (exec step (init 1 Unit) twoTasks).map (fun c => (Pool.abs c).waiting) =
      some [⟨(), 2⟩] := by
    decide +kernel
  obtain ⟨c, hc, hwaiting⟩ := Option.map_eq_some_iff.mp hrun
  obtain ⟨ops, hops, -⟩ := pool_refines_fifoPool twoTasks c hc
  exact ⟨c, hc, hwaiting, ops, hops⟩

theorem starts_in_order_and_bounded_twoTasks :
    ∃ c, exec step (init 1 Unit) twoTasks = some c ∧
      c.shared.queue.accepted = [⟨(), 1⟩, ⟨(), 2⟩] ∧
      c.shared.started.map Prod.snd <+: c.shared.queue.accepted := by
  have hrun : (exec step (init 1 Unit) twoTasks).map (fun c => c.shared.queue.accepted) =
      some [⟨(), 1⟩, ⟨(), 2⟩] := by
    decide +kernel
  obtain ⟨c, hc, haccepted⟩ := Option.map_eq_some_iff.mp hrun
  exact ⟨c, hc, haccepted, (starts_in_order_and_bounded twoTasks c hc).1⟩

end Abstraction

end Gateway.Concurrency
