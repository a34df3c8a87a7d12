import Gateway.Concurrency.FifoPool
import Gateway.Service.ClientThreads

/-!
# Clients on a thread pool (`src/phase4_threadpool_server.cpp`)

`main` accepts clients and enqueues `handle_client` for each on a pool of four workers. The
pool is the one of `include/concurrency/ThreadPool.hpp`, step by step, and while a worker
executes a task it takes the steps of the task's handler. `main` never leaves its loop, so the
pool is not destroyed.
-/

namespace Gateway.Service
open Concurrency Steps Threads

def threadPoolSize : ℕ := 4

/-- `main` is the only thread that enqueues; its call number `i + 1` is for handler `i`. -/
structure PoolServer where
  pool : Pool threadPoolSize Unit
  server : ThreadServer

inductive PoolServerAct where
  | accept (fd : ℤ) (buffer : Echo.Buffer)
  | acceptFailed
  /-- `main` in `enqueue` -/
  | enqueue (act : Act threadPoolSize)
  /-- a worker in the loop of the pool -/
  | worker (w : Fin threadPoolSize) (act : Act threadPoolSize)
  /-- a worker in `handle_client` -/
  | handle (w : Fin threadPoolSize) (act : HandlerAct)

namespace PoolServer

def init : PoolServer := ⟨Concurrency.init threadPoolSize Unit, {}⟩

/-- The task of handler `i`. -/
def task (i : ℕ) : Concurrency.Task Unit := ⟨(), i + 1⟩

/-- The handler of the task that a worker executes. -/
def handlerOf (s : PoolServer) (w : Fin threadPoolSize) : Option ℕ :=
  match (s.pool.locals (.worker w)).task with
  | some ⟨_, i + 1⟩ => some i
  | _ => none

/-- `handle_client` has returned, if the worker executes one. -/
def mayGoOn (s : PoolServer) (w : Fin threadPoolSize) : Bool :=
  match s.handlerOf w with
  | some i => s.server.handlers[i]?.any fun h => h.point = .returned
  | none => true

/-- `main` is not in `enqueue`. -/
def mainIdle (s : PoolServer) : Bool :=
  match s.pool.locals (.client ()) with
  | .client _ .idle => true
  | _ => false

/-- One step of a thread in the code of the pool. -/
def poolStep (s : PoolServer) (t : Tid threadPoolSize Unit) (act : Act threadPoolSize) :
    Option PoolServer :=
  (Concurrency.step s.pool (.thread t act)).map fun pool => { s with pool }

def step (serverFd : ℤ) (s : PoolServer) : PoolServerAct → Option PoolServer
  | .accept fd buffer =>
    if s.mainIdle then
      (s.server.accept serverFd fd buffer).bind fun server =>
        ({ s with server } : PoolServer).poolStep (.client ()) .call
    else none
  | .acceptFailed => if s.mainIdle then some s else none
  | .enqueue act => if s.mainIdle then none else s.poolStep (.client ()) act
  | .worker w act => if s.mayGoOn w then s.poolStep (.worker w) act else none
  | .handle w act =>
    (s.handlerOf w).bind fun i =>
      (s.server.thread false i act).map fun server => { s with server }

/-! ## What the steps keep -/

/-- The handler was entered and has not returned. -/
def Entered (h : Handler) : Prop := h.point ≠ .entry ∧ h.point ≠ .returned

/-- The calls of `enqueue` that have pushed their task, when the last is number `n`. -/
def pushed (n : ℕ) : ClientPoint → ℕ
  | .lockQueue => n - 1
  | .testStop => n - 1
  | _ => n

/-- `main` has made one call for each handler, and each call that took the mutex pushed its
task. -/
structure MainOk (s : PoolServer) (n : ℕ) (p : ClientPoint) : Prop where
  main : s.pool.locals (.client ()) = .client n p
  calls : n = s.server.handlers.length
  stop : s.pool.shared.queue.stop = false
  owner : s.pool.locals .owner = .owner .alive
  accepted : s.pool.shared.queue.accepted = (List.range (pushed n p)).map task
  waiting : p = .lockQueue ∨ p = .testStop → 0 < n

structure Inv (s : PoolServer) : Prop where
  server : s.server.Inv false
  reached : ∃ actions, exec Concurrency.step (Concurrency.init threadPoolSize Unit) actions =
    some s.pool
  main : ∃ n p, s.MainOk n p
  /-- a handler that is under way is executed by a worker -/
  busy : ∀ (i : ℕ) (h : Handler), s.server.handlers[i]? = some h → Entered h →
    ∃ w, s.handlerOf w = some i
  started : ∀ (i : ℕ) (h : Handler), s.server.handlers[i]? = some h → h.point ≠ .entry →
    task i ∈ s.pool.shared.started.map Prod.snd

section
variable {s t : PoolServer}

theorem handlerOf_eq_some {w : Fin threadPoolSize} {i : ℕ} :
    s.handlerOf w = some i ↔ s.pool.locals (.worker w) = .worker (.running (task i)) := by
  unfold handlerOf
  constructor
  · intro h
    split at h
    · next u j htask =>
      obtain rfl := Option.some.inj h
      generalize s.pool.locals (.worker w) = l at htask
      unfold Local.task at htask
      split at htask
      · next running =>
        obtain rfl := Option.some.inj htask
        rfl
      · cases htask
    · cases h
  · intro h
    simp [h, Local.task, task]

theorem poolStep_eq_some {u : Tid threadPoolSize Unit} {act : Act threadPoolSize}
    (h : s.poolStep u act = some t) :
    ∃ l g, Concurrency.move u act (s.pool.locals u) s.pool.shared = some (l, g) ∧
      t = { s with pool := ⟨Function.update s.pool.locals u l, g⟩ } := by
  obtain ⟨pool, hpool, rfl⟩ := Option.map_eq_some_iff.mp h
  obtain ⟨l, g, hmove, rfl⟩ := step_thread.mp hpool
  exact ⟨l, g, hmove, rfl⟩

theorem reached_poolStep {u : Tid threadPoolSize Unit} {act : Act threadPoolSize}
    (hreached : ∃ actions, exec Concurrency.step (Concurrency.init threadPoolSize Unit) actions =
      some s.pool) (h : s.poolStep u act = some t) :
    ∃ actions, exec Concurrency.step (Concurrency.init threadPoolSize Unit) actions =
      some t.pool := by
  obtain ⟨actions, hrun⟩ := hreached
  obtain ⟨pool, hpool, rfl⟩ := Option.map_eq_some_iff.mp h
  exact ⟨actions ++ [.thread u act],
    exec_append.mpr ⟨s.pool, hrun, exec_cons.mpr ⟨pool, hpool, rfl⟩⟩⟩

/-- A step of a worker changes neither what was accepted nor `stop_`, and starts more. -/
theorem workerMoves_queue {w : Fin threadPoolSize} {p p' : WorkerPoint Unit}
    {g g' : Shared threadPoolSize Unit} (hm : WorkerMoves w g p p' g') :
    g'.queue.accepted = g.queue.accepted ∧ g'.queue.stop = g.queue.stop ∧
      g.started <+: g'.started := by
  cases hm with
  | start task => exact ⟨rfl, rfl, List.prefix_append _ _⟩
  | _ => exact ⟨rfl, rfl, List.prefix_rfl⟩

theorem move_worker {w : Fin threadPoolSize} {act : Act threadPoolSize} {l l' : Local Unit}
    {g g' : Shared threadPoolSize Unit}
    (hmove : Concurrency.move (.worker w) act l g = some (l', g')) :
    ∃ p p', l = .worker p ∧ l' = .worker p' ∧ WorkerMoves w g p p' g' := by
  cases moves_of_move hmove with
  | worker hm => exact ⟨_, _, rfl, rfl, hm⟩

theorem handlerOf_update_of_ne {w : Fin threadPoolSize} {u : Tid threadPoolSize Unit}
    (hu : .worker w ≠ u) (l : Local Unit) (g : Shared threadPoolSize Unit) :
    handlerOf { s with pool := ⟨Function.update s.pool.locals u l, g⟩ } w = s.handlerOf w := by
  unfold handlerOf
  dsimp only
  rw [Function.update_of_ne hu]

theorem inv_worker (hinv : Inv s) {w : Fin threadPoolSize} {act : Act threadPoolSize}
    (hgo : s.mayGoOn w = true) (hstep : s.poolStep (.worker w) act = some t) : Inv t := by
  have hreached := reached_poolStep hinv.reached hstep
  obtain ⟨l, g, hmove, rfl⟩ := poolStep_eq_some hstep
  obtain ⟨p, p', hl, rfl, hm⟩ := move_worker hmove
  obtain ⟨haccepted, hstop, hstarted⟩ := workerMoves_queue hm
  obtain ⟨n, q, hmain⟩ := hinv.main
  have hother : ∀ u, u ≠ .worker w →
      Function.update s.pool.locals (.worker w) (.worker p') u = s.pool.locals u :=
    fun u hu => Function.update_of_ne hu _ _
  refine ⟨hinv.server, hreached, ⟨n, q, ?_⟩, ?_, ?_⟩
  · exact ⟨(hother _ (by simp)).trans hmain.main, hmain.calls, hstop.trans hmain.stop,
      (hother _ (by simp)).trans hmain.owner, haccepted.trans hmain.accepted, hmain.waiting⟩
  · intro i h hi hentered
    obtain ⟨v, hv⟩ := hinv.busy i h hi hentered
    by_cases hvw : v = w
    -- the worker leaves its task only when the handler has returned
    · subst hvw
      simp only [mayGoOn, hv, hi, Option.any_some, decide_eq_true_eq] at hgo
      exact absurd hgo hentered.2
    · refine ⟨v, ?_⟩
      rw [handlerOf_update_of_ne (by simpa using hvw), hv]
  · intro i h hi hpoint
    exact (hstarted.map Prod.snd).subset (hinv.started i h hi hpoint)

/-- What a step of `main` in `enqueue` does to its own data. -/
theorem mainOk_client {n : ℕ} {p : ClientPoint} {r : ℕ × ClientPoint}
    {g : Shared threadPoolSize Unit} (hmain : s.MainOk n p) (hp : p ≠ .idle)
    (hm : ClientMoves () n s.pool.shared p r g) :
    MainOk { s with pool := ⟨Function.update s.pool.locals (.client ()) (.client r.1 r.2), g⟩ }
      r.1 r.2 := by
  have howner : Function.update s.pool.locals (.client ()) (.client r.1 r.2) .owner =
      .owner .alive := (Function.update_of_ne (by simp) _ _).trans hmain.owner
  have hself : Function.update s.pool.locals (.client ()) (.client r.1 r.2) (.client ()) =
      .client r.1 r.2 := Function.update_self _ _ _
  cases hm with
  | call => exact absurd rfl hp
  | lock hfree =>
    exact ⟨hself, hmain.calls, hmain.stop, howner, hmain.accepted,
      fun _ => hmain.waiting (Or.inl rfl)⟩
  | throw hstop => exact absurd (hstop.symm.trans hmain.stop) (by simp)
  | emplace hstop =>
    refine ⟨hself, hmain.calls, hmain.stop, howner, ?_, by simp⟩
    have hpos : 0 < n := hmain.waiting (Or.inr rfl)
    show s.pool.shared.queue.accepted ++ [⟨(), n⟩] = (List.range n).map task
    have hn : n = n - 1 + 1 := by omega
    rw [hmain.accepted, hn, List.range_succ, List.map_append]
    rfl
  | unwind what =>
    exact ⟨hself, hmain.calls, hmain.stop, howner, hmain.accepted, by simp⟩
  | unlock =>
    exact ⟨hself, hmain.calls, hmain.stop, howner, hmain.accepted, by simp⟩
  | notifyOne w =>
    exact ⟨hself, hmain.calls, hmain.stop, howner, hmain.accepted, by simp⟩
  | notifyNone hnone =>
    exact ⟨hself, hmain.calls, hmain.stop, howner, hmain.accepted, by simp⟩

theorem clientMoves_started {n : ℕ} {p : ClientPoint} {r : ℕ × ClientPoint}
    {g g' : Shared threadPoolSize Unit} (hm : ClientMoves () n g p r g') :
    g'.started = g.started := by
  cases hm <;> rfl

theorem move_client {act : Act threadPoolSize} {n : ℕ} {p : ClientPoint} {l' : Local Unit}
    {g g' : Shared threadPoolSize Unit}
    (hmove : Concurrency.move (.client ()) act (.client n p) g = some (l', g')) :
    ∃ r, l' = .client r.1 r.2 ∧ ClientMoves () n g p r g' := by
  cases moves_of_move hmove with
  | client hm => exact ⟨_, rfl, hm⟩

theorem inv_enqueue (hinv : Inv s) (hidle : s.mainIdle = false) {act : Act threadPoolSize}
    (hstep : s.poolStep (.client ()) act = some t) : Inv t := by
  have hreached := reached_poolStep hinv.reached hstep
  obtain ⟨l, g, hmove, rfl⟩ := poolStep_eq_some hstep
  obtain ⟨n, p, hmain⟩ := hinv.main
  rw [hmain.main] at hmove
  obtain ⟨r, rfl, hm⟩ := move_client hmove
  have hp : p ≠ .idle := by
    intro heq
    simp [mainIdle, hmain.main, heq] at hidle
  refine ⟨hinv.server, hreached, ⟨r.1, r.2, mainOk_client hmain hp hm⟩, ?_, ?_⟩
  · intro i h hi hentered
    obtain ⟨w, hw⟩ := hinv.busy i h hi hentered
    exact ⟨w, (handlerOf_update_of_ne (by simp) _ _).trans hw⟩
  · intro i h hi hpoint
    rw [show _ = s.pool.shared.started from clientMoves_started hm]
    exact hinv.started i h hi hpoint

theorem inv_accept (hinv : Inv s) (hidle : s.mainIdle = true) {serverFd fd : ℤ}
    {buffer : Echo.Buffer} {server : ThreadServer}
    (haccept : s.server.accept serverFd fd buffer = some server)
    (hstep : ({ s with server } : PoolServer).poolStep (.client ()) .call = some t) : Inv t := by
  have hreached := reached_poolStep (s := { s with server }) hinv.reached hstep
  have hserver := ThreadServer.inv_accept hinv.server haccept
  obtain ⟨-, rfl⟩ := ThreadServer.accept_eq_some haccept
  obtain ⟨l, g, hmove, rfl⟩ := poolStep_eq_some hstep
  obtain ⟨n, p, hmain⟩ := hinv.main
  -- the main thread is between two calls
  have hp : p = .idle := by
    simp only [mainIdle, hmain.main] at hidle
    split at hidle
    · next heq => exact (Local.client.inj heq).2
    · cases hidle
  subst hp
  dsimp only at hmove
  rw [hmain.main] at hmove
  obtain ⟨r, rfl, hm⟩ := move_client hmove
  -- the new handler is at its entry, so every other one was there before
  have hentry : ∀ {i : ℕ} {h : Handler},
      (s.server.handlers ++ [Handler.new fd buffer])[i]? = some h → h.point ≠ .entry →
        s.server.handlers[i]? = some h := by
    intro i h hi hpoint
    rw [List.getElem?_append] at hi
    split_ifs at hi
    · exact hi
    · obtain rfl := List.mem_singleton.mp (List.mem_of_getElem? hi)
      exact absurd rfl hpoint
  have hself : Function.update s.pool.locals (.client ()) (.client r.1 r.2) (.client ()) =
      .client r.1 r.2 := Function.update_self _ _ _
  have howner : Function.update s.pool.locals (.client ()) (.client r.1 r.2) .owner =
      .owner .alive := (Function.update_of_ne (by simp) _ _).trans hmain.owner
  cases hm with
  | call =>
    refine ⟨hserver, hreached, ⟨n + 1, .lockQueue, hself, ?_, hmain.stop, howner, hmain.accepted,
      fun _ => n.succ_pos⟩, ?_, ?_⟩
    · simp [hmain.calls]
    · intro i h hi hentered
      obtain ⟨w, hw⟩ := hinv.busy i h (hentry hi hentered.1) hentered
      exact ⟨w, (handlerOf_update_of_ne (by simp) _ _).trans hw⟩
    · intro i h hi hpoint
      exact hinv.started i h (hentry hi hpoint) hpoint

/-- A handler that a worker executes was started. -/
theorem started_of_handlerOf
    (hreached : ∃ actions, exec Concurrency.step (Concurrency.init threadPoolSize Unit) actions =
      some s.pool) {w : Fin threadPoolSize} {i : ℕ} (hw : s.handlerOf w = some i) :
    task i ∈ s.pool.shared.started.map Prod.snd := by
  obtain ⟨actions, hrun⟩ := hreached
  have hok := ((poolInv_run hrun).2 (.worker w)).ok
  rw [handlerOf_eq_some.mp hw] at hok
  have hmem : (w, task i) ∈ OwnedLog.ofOwner w s.pool.shared.started := by
    rw [WorkerOk.started hok]
    simp [WorkerPoint.busy]
  exact List.mem_map_of_mem (List.mem_of_mem_filter hmem)

theorem inv_handle (hinv : Inv s) {w : Fin threadPoolSize} {i : ℕ} {act : HandlerAct}
    (hw : s.handlerOf w = some i) {server : ThreadServer}
    (hthread : s.server.thread false i act = some server) : Inv { s with server } := by
  have hserver := ThreadServer.inv_thread hinv.server hthread
  obtain ⟨h, h', g, hi, hmove, rfl⟩ := ThreadServer.thread_eq_some hthread
  obtain ⟨n, p, hmain⟩ := hinv.main
  refine ⟨hserver, hinv.reached, ⟨n, p, hmain.main, ?_, hmain.stop, hmain.owner, hmain.accepted,
    hmain.waiting⟩, ?_, ?_⟩
  · simp [hmain.calls]
  · intro j k hj hentered
    dsimp only at hj
    rw [List.getElem?_set] at hj
    split_ifs at hj with hij
    · exact ⟨w, hij ▸ hw⟩
    · exact hinv.busy j k hj hentered
  · intro j k hj hpoint
    dsimp only at hj
    rw [List.getElem?_set] at hj
    split_ifs at hj with hij
    · exact hij ▸ started_of_handlerOf hinv.reached hw
    · exact hinv.started j k hj hpoint

theorem inv_step {serverFd : ℤ} {act : PoolServerAct} (hinv : Inv s)
    (hstep : step serverFd s act = some t) : Inv t := by
  cases act with
  | accept fd buffer =>
    rw [step] at hstep
    split_ifs at hstep with hidle
    obtain ⟨server, haccept, hcall⟩ := Option.bind_eq_some_iff.mp hstep
    exact inv_accept hinv hidle haccept hcall
  | acceptFailed =>
    rw [step] at hstep
    split_ifs at hstep
    obtain rfl := Option.some.inj hstep
    exact hinv
  | enqueue act =>
    rw [step] at hstep
    split_ifs at hstep with hidle
    exact inv_enqueue hinv (by simpa using hidle) hstep
  | worker w act =>
    rw [step] at hstep
    split_ifs at hstep with hgo
    exact inv_worker hinv hgo hstep
  | handle w act =>
    obtain ⟨i, hw, hthread⟩ := Option.bind_eq_some_iff.mp hstep
    obtain ⟨server, hserver, rfl⟩ := Option.map_eq_some_iff.mp hthread
    exact inv_handle hinv hw hserver

end

theorem inv_init : Inv init where
  server := ThreadServer.inv_init
  reached := ⟨[], rfl⟩
  main := ⟨0, .idle, rfl, rfl, rfl, rfl, rfl, by simp⟩
  busy := by simp [init]
  started := by simp [init]

theorem inv_run {serverFd : ℤ} {acts : List PoolServerAct} {s : PoolServer}
    (hrun : exec (step serverFd) init acts = some s) : Inv s :=
  invariant_of_meets (G := fun _ _ => True) (fun _ _ _ h _ hstep => inv_step h hstep) inv_init
    (meets_of_forall_mem (fun _ _ _ => trivial) _) hrun

/-! ## The bounds -/

/-- Elements that are at different places that `f` finds are at most as many as its arguments. -/
theorem countP_le_of_places {α : Type*} {l : List α} {p : α → Bool} {n : ℕ}
    (f : Fin n → Option ℕ)
    (h : ∀ (i : ℕ) (a : α), l[i]? = some a → p a = true → ∃ w, f w = some i) :
    l.countP p ≤ n := by
  let places := (l.zipIdx.filter fun e => p e.1).map Prod.snd
  have hlength : places.length = l.countP p := by
    have hfst : l.countP p = (l.zipIdx.map Prod.fst).countP p := by
      rw [List.zipIdx_map_fst]
    rw [List.length_map, ← List.countP_eq_length_filter, hfst, List.countP_map]
    rfl
  have hnodup : places.Nodup := by
    apply List.Sublist.nodup (List.filter_sublist.map Prod.snd)
    rw [List.zipIdx_map_snd]
    exact List.nodup_range'
  have hsubset : places ⊆ (List.finRange n).filterMap f := by
    intro i hi
    obtain ⟨⟨a, j⟩, he, rfl⟩ := List.mem_map.mp hi
    obtain ⟨hmem, hp⟩ := List.mem_filter.mp he
    obtain ⟨w, hw⟩ := h j a (List.mk_mem_zipIdx_iff_getElem?.mp hmem) hp
    exact List.mem_filterMap.mpr ⟨w, List.mem_finRange w, hw⟩
  calc l.countP p = places.length := hlength.symm
    _ ≤ ((List.finRange n).filterMap f).length := (hnodup.subperm hsubset).length_le
    _ ≤ (List.finRange n).length := List.length_filterMap_le f _
    _ = n := List.length_finRange

theorem entered_of_active {h : Handler} (hactive : h.active = true) : Entered h := by
  constructor
  · intro hpoint
    simp [Handler.active, hpoint] at hactive
  · intro hpoint
    simp [Handler.active, hpoint] at hactive

theorem countP_active_le {s : PoolServer} (hinv : Inv s) :
    s.server.handlers.countP Handler.active ≤ threadPoolSize :=
  countP_le_of_places s.handlerOf fun i h hi hactive =>
    hinv.busy i h hi (entered_of_active hactive)

/-- The tasks that were started are those of the first handlers. -/
theorem started_eq {s : PoolServer} (hinv : Inv s) :
    s.pool.shared.started.map Prod.snd =
        (List.range s.pool.shared.started.length).map task ∧
      s.pool.shared.started.length ≤ s.server.handlers.length := by
  obtain ⟨actions, hrun⟩ := hinv.reached
  obtain ⟨n, p, hmain⟩ := hinv.main
  obtain ⟨rest, hrest⟩ : s.pool.shared.started.map Prod.snd <+: s.pool.shared.queue.accepted := by
    rw [accepted_eq (poolInv_run hrun).1 (startsInOrder_run hrun)]
    exact List.prefix_append _ _
  have hpushed : pushed n p ≤ n := by
    unfold pushed
    split <;> omega
  have hlength := congrArg List.length hrest
  rw [hmain.accepted, List.length_append, List.length_map, List.length_map,
    List.length_range] at hlength
  refine ⟨?_, by rw [← hmain.calls]; omega⟩
  have htake : s.pool.shared.started.map Prod.snd =
      s.pool.shared.queue.accepted.take s.pool.shared.started.length := by
    rw [← hrest, List.take_left' (by rw [List.length_map])]
  rw [htake, hmain.accepted, ← List.map_take, List.take_range, Nat.min_eq_left (by omega)]

/-- At most four clients are counted at any time, and clients are begun in the order in which
they were accepted, each when all but three of those before it were completed. -/
theorem pool_server_bounded_fifo (serverFd : ℤ) (acts : List PoolServerAct) (s : PoolServer)
    (hrun : exec (step serverFd) init acts = some s) :
    s.server.globals.activeClients.toNat = s.server.handlers.countP Handler.active ∧
      s.server.handlers.countP Handler.active ≤ 4 ∧
      ∃ begun, begun ≤ s.server.handlers.length ∧ begun ≤ s.pool.shared.completed.length + 4 ∧
        s.pool.shared.started.map Prod.snd = (List.range begun).map task ∧
        ∀ (i : ℕ) (h : Handler), s.server.handlers[i]? = some h → h.point ≠ .entry → i < begun := by
  have hinv := inv_run hrun
  have hle : s.server.handlers.countP Handler.active ≤ 4 := countP_active_le hinv
  have hactive : s.server.globals.activeClients.toNat =
      s.server.handlers.countP Handler.active := by
    rw [hinv.server.active, UInt64.toNat_ofNat', Nat.mod_eq_of_lt]
    omega
  obtain ⟨hstarted, hbegun⟩ := started_eq hinv
  refine ⟨hactive, hle, _, hbegun, ?_, hstarted, ?_⟩
  · obtain ⟨actions, hpool⟩ := hinv.reached
    obtain ⟨ops, hops, -⟩ := refines_run hpool
    have hlength := (FifoPool.ordered_of_exec hops).length_le
    simpa [Pool.abs, threadPoolSize] using hlength
  · intro i h hi hpoint
    have hmem := hinv.started i h hi hpoint
    rw [hstarted] at hmem
    obtain ⟨j, hj, heq⟩ := List.mem_map.mp hmem
    have hij : j = i := Nat.succ.inj (Concurrency.Task.mk.inj heq).2
    exact hij ▸ List.mem_range.mp hj

/-- However the workers interleave, no two handlers use one descriptor, the calls they make are
those of the echo service, what a client got back is a beginning of what it sent, and when its
handler waits for it, it got back all. -/
theorem pool_server_echoes_in_order (serverFd : ℤ) (acts : List PoolServerAct) (s : PoolServer)
    (hrun : exec (step serverFd) init acts = some s) :
    (∀ i j fd, s.server.holding i = some fd → s.server.holding j = some fd → i = j) ∧
      ∃ t, s.server.globals.sockets.Leads t ∧
        t.AllSessions (fun x => x.echoed <+: x.received) ∧
        ∀ h ∈ s.server.handlers, h.point = .recv →
          ∃ x, t.sessions h.fd = some x ∧ x.echoed = x.received :=
  (inv_run hrun).server.echoes

/-- `main` accepts a client and enqueues its handler. -/
def acceptAndEnqueue (fd : ℤ) : List PoolServerAct :=
  .accept fd ThreadServer.zeros :: List.replicate 4 (.enqueue .next)

/-- A worker takes the next task and enters its handler. -/
def takeTask (w : Fin threadPoolSize) : List PoolServerAct :=
  List.replicate 4 (.worker w .next) ++ [.handle w .next]

/-- Five clients are accepted; the workers take the first four. -/
def fiveClients : List PoolServerAct :=
  [4, 5, 6, 7, 8].flatMap acceptAndEnqueue ++ (List.finRange threadPoolSize).flatMap takeTask

/-- The first four are begun in their order, and the fifth waits. -/
theorem pool_server_bounded_fifo_fiveClients :
    ∃ s, exec (step 3) init fiveClients = some s ∧ s.server.globals.activeClients = 4 ∧
      s.server.handlers.countP Handler.active = 4 ∧
      s.pool.shared.started.map Prod.snd = (List.range 4).map task ∧
      s.server.handlers.length = 5 ∧
      ∀ h, s.server.handlers[4]? = some h → h.point = .entry := by
  have hrun : (exec (step 3) init fiveClients).map (fun s =>
      (s.server.globals.activeClients, s.pool.shared.started.length,
        s.server.handlers.length)) = some (4, 4, 5) := by
    decide +kernel
  obtain ⟨s, hs, hend⟩ := Option.map_eq_some_iff.mp hrun
  simp only [Prod.mk.injEq] at hend
  obtain ⟨hactive, hstarted, hlength⟩ := hend
  obtain ⟨hcount, -, begun, -, -, horder, hbegun⟩ := pool_server_bounded_fifo 3 fiveClients s hs
  rw [hactive] at hcount
  obtain rfl : 4 = begun := by
    have hlengths := congrArg List.length horder
    simpa [hstarted] using hlengths
  refine ⟨s, hs, hactive, hcount.symm, horder, hlength, fun h hh => ?_⟩
  by_contra hpoint
  exact absurd (hbegun 4 h hh hpoint) (by decide)

/-- A client is echoed in two `send`s by the first worker. -/
def oneEchoed : List PoolServerAct :=
  let first : Fin threadPoolSize := ⟨0, by decide⟩
  acceptAndEnqueue 4 ++ takeTask first ++
    [.handle first (.recv (.data ThreadServer.hello)), .handle first (.send (.sent 3)),
      .handle first (.send (.sent 2))]

theorem pool_server_echoes_in_order_oneEchoed :
    ∃ s, exec (step 3) init oneEchoed = some s ∧
      s.server.globals.sockets.trace =
        [.accept 4, .recv 4 (ascii "hello"), .send 4 (ascii "hello") 3, .send 4 (ascii "lo") 2] ∧
      ∃ t, s.server.globals.sockets.Leads t ∧
        ∃ x, t.sessions 4 = some x ∧ x.echoed = x.received := by
  have hrun : (exec (step 3) init oneEchoed).map (fun s => (s.server.globals.sockets.trace,
      s.server.handlers.map fun h => (h.fd, h.point))) =
      some ([.accept 4, .recv 4 (ascii "hello"), .send 4 (ascii "hello") 3,
        .send 4 (ascii "lo") 2], [(4, .recv)]) := by
    decide +kernel
  obtain ⟨s, hs, hend⟩ := Option.map_eq_some_iff.mp hrun
  obtain ⟨htrace, hhandlers⟩ := Prod.mk.inj hend
  obtain ⟨t, hleads, -, hwaiting⟩ := (pool_server_echoes_in_order 3 oneEchoed s hs).2
  obtain ⟨h, hh, hpoint⟩ := List.mem_map.mp (hhandlers ▸ List.mem_singleton_self ((4 : ℤ), _))
  obtain ⟨hfd, hrecv⟩ := Prod.mk.inj hpoint
  exact ⟨s, hs, htrace, t, hleads, hfd ▸ hwaiting h hh hrecv⟩

end PoolServer

end Gateway.Service
