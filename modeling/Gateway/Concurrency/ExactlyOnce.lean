import Gateway.Concurrency.Transitions

/-!
# Every accepted task is executed exactly once

The invariant says what the queue data is while the mutex is free, what the thread that
holds the mutex knows about it, and how each worker's part of the histories relates to
its program point.
-/

namespace Gateway.Concurrency
open OwnedLog Steps Threads

variable {numThreads : ℕ} {C : Type*}

/-! ## The invariant -/

/-- The tasks whose `enqueue` call took the mutex when `stop_` was `stop`, in that order. -/
def Queue.enqueued (q : Queue numThreads C) (stop : Bool) : List (Task C) :=
  (q.acquired.filter fun e => e.2 == stop).map Prod.fst

/-- Each `enqueue` call that took the mutex was accepted or rejected by the `stop_` it found. -/
def Settled (q : Queue numThreads C) : Prop :=
  q.enqueued false = q.accepted ∧ q.enqueued true = q.rejected

/-- The call of `task` has taken the mutex and was not answered yet. -/
def Pending (q : Queue numThreads C) (task : Task C) : Prop :=
  q.enqueued false = q.accepted ++ (if q.stop then [] else [task]) ∧
    q.enqueued true = q.rejected ++ (if q.stop then [task] else [])

/-- What a thread that holds the mutex knows. -/
def Secured (q : Queue numThreads C) : Tid numThreads C → Local C → Prop
  | .client c, .client n .testStop => Pending q ⟨c, n⟩
  | _, .worker .sleep => Settled q ∧ q.stop = false ∧ q.tasks = []
  | _, .worker .testExit => Settled q ∧ (q.stop = true ∨ q.tasks ≠ [])
  | _, .worker .returning => Settled q ∧ q.stop = true ∧ q.tasks = []
  | _, _ => Settled q

/-- The task a worker has popped and not started. -/
def WorkerPoint.hand (w : Fin numThreads) : WorkerPoint C → List (Fin numThreads × Task C)
  | .popped task => [(w, task)]
  | _ => []

/-- The task a worker is executing. -/
def WorkerPoint.busy (w : Fin numThreads) : WorkerPoint C → List (Fin numThreads × Task C)
  | .running task => [(w, task)]
  | _ => []

def WorkerPoint.hasExited : WorkerPoint C → Bool
  | .exited => true
  | _ => false

theorem hand_of_hasExited {w : Fin numThreads} {p : WorkerPoint C} (h : p.hasExited = true) :
    p.hand w = [] := by
  cases p <;> first | rfl | cases h

theorem busy_of_hasExited {w : Fin numThreads} {p : WorkerPoint C} (h : p.hasExited = true) :
    p.busy w = [] := by
  cases p <;> first | rfl | cases h

structure WorkerOk (w : Fin numThreads) (p : WorkerPoint C) (g : Shared numThreads C) : Prop where
  popped : ofOwner w g.queue.popped = ofOwner w g.started ++ p.hand w
  started : ofOwner w g.started = ofOwner w (g.completed.map Prod.fst) ++ p.busy w
  exited : g.exited w = p.hasExited

/-- The calls of a client that may have taken the mutex: all, or all but the running one. -/
def ClientPoint.locks (n : ℕ) : ClientPoint → ℕ
  | .lockQueue => n
  | _ => n + 1

def OwnerPoint.Joined (g : Shared numThreads C) : OwnerPoint → Prop
  | .join k => ∀ w : Fin numThreads, w < k → g.exited w = true
  | .destroyed => ∀ w, g.exited w = true
  | _ => True

def LocalOk (g : Shared numThreads C) : Tid numThreads C → Local C → Prop
  | .worker w, .worker p => WorkerOk w p g
  | .client c, .client n p => ∀ e ∈ g.queue.acquired, e.1.client = c → e.1.call < p.locks n
  | .owner, .owner p => p.Joined g
  | _, _ => False

/-- The assertion of one thread. -/
structure Owned (t : Tid numThreads C) (l : Local C) (g : Shared numThreads C) : Prop where
  held : l.holds = true ↔ g.mutex = some t
  secured : l.holds = true → Secured g.queue t l
  ok : LocalOk g t l

structure PoolInv (g : Shared numThreads C) : Prop where
  fifo : g.queue.accepted = g.queue.popped.map Prod.snd ++ g.queue.tasks
  acquired_nodup : (g.queue.acquired.map Prod.fst).Nodup
  settled : g.mutex = none → Settled g.queue
  exited : ∀ w, g.exited w = true → g.queue.stop = true ∧ g.queue.tasks = []

/-! ## Steps of other threads -/

theorem Owned.frame {t u : Tid numThreads C} {m : Local C} {g g' : Shared numThreads C}
    (ho : Owned u m g) (hu : u ≠ t) (hf : Frame t g g') : Owned u m g' where
  held := ho.held.trans (hf.mutex u hu).symm
  secured hh := by
    rw [hf.queue u hu (ho.held.mp hh)]
    exact ho.secured hh
  ok := by
    have hok := ho.ok
    rcases u with w | c | _ <;> rcases m with p | ⟨n, p⟩ | p <;> try exact hok
    · refine ⟨?_, ?_, ?_⟩
      · rw [hf.popped w hu, hf.started w hu]
        exact hok.popped
      · rw [hf.started w hu, hf.completed w hu]
        exact hok.started
      · rw [hf.exited w hu]
        exact hok.exited
    · exact fun e he hc => hok e (hf.acquired c hu e he hc) hc
    · cases p with
      | join k => exact fun w hw => hf.exited_mono w (hok w hw)
      | destroyed => exact fun w => hf.exited_mono w (hok w)
      | _ => trivial

/-! ## A thread's own steps -/

section
variable {g g' : Shared numThreads C}

/-- A step that changes neither the queue nor the exits. -/
theorem PoolInv.of_same_queue (hI : PoolInv g) (hq : g'.queue = g.queue)
    (he : g'.exited = g.exited) (hs : g'.mutex = none → Settled g.queue) : PoolInv g' where
  fifo := by rw [hq]; exact hI.fifo
  acquired_nodup := by rw [hq]; exact hI.acquired_nodup
  settled hfree := by rw [hq]; exact hs hfree
  exited w hw := by rw [hq]; exact hI.exited w (he ▸ hw)

theorem enqueued_acquire (q : Queue numThreads C) (task : Task C) (stop : Bool) :
    (q.acquire task).enqueued stop =
      q.enqueued stop ++ if q.stop = stop then [task] else [] := by
  unfold Queue.enqueued Queue.acquire
  rw [List.filter_append, List.map_append]
  by_cases h : q.stop = stop <;> simp [h]

theorem Settled.acquire {q : Queue numThreads C} (hs : Settled q) (task : Task C) :
    Pending (q.acquire task) task := by
  refine ⟨?_, ?_⟩
  · rw [enqueued_acquire, hs.1]
    cases hstop : q.stop <;> simp [Queue.acquire, hstop]
  · rw [enqueued_acquire, hs.2]
    cases hstop : q.stop <;> simp [Queue.acquire, hstop]

theorem Pending.reject {q : Queue numThreads C} {task : Task C} (hp : Pending q task)
    (hstop : q.stop = true) : Settled (q.reject task) := by
  obtain ⟨hopen, hclosed⟩ := hp
  rw [hstop] at hopen hclosed
  exact ⟨hopen.trans (List.append_nil _), hclosed⟩

theorem Pending.emplace {q : Queue numThreads C} {task : Task C} (hp : Pending q task)
    (hstop : q.stop = false) : Settled (q.emplace task) := by
  obtain ⟨hopen, hclosed⟩ := hp
  rw [hstop] at hopen hclosed
  exact ⟨hopen, hclosed.trans (List.append_nil _)⟩

theorem owned_worker {w : Fin numThreads} {p p' : WorkerPoint C} (hI : PoolInv g)
    (ho : Owned (.worker w) (.worker p) g) (hm : WorkerMoves w g p p' g') :
    PoolInv g' ∧ Owned (.worker w) (.worker p') g' := by
  obtain ⟨hpopped, hstarted, hexited⟩ := ho.ok
  have hheld := ho.held.mp
  have hsec := ho.secured
  -- only `pop` and `exit` change what is said of the queue; the other steps move the lock
  cases hm with
  | lock hfree =>
    exact ⟨hI.of_same_queue rfl rfl nofun, iff_of_true rfl rfl, fun _ => hI.settled hfree,
      hpopped, hstarted, hexited⟩
  | ready hq =>
    exact ⟨hI, iff_of_true rfl (hheld rfl), fun _ => ⟨hsec rfl, hq⟩, hpopped, hstarted,
      hexited⟩
  | notReady hstop htasks =>
    exact ⟨hI, iff_of_true rfl (hheld rfl), fun _ => ⟨hsec rfl, hstop, htasks⟩, hpopped, hstarted,
      hexited⟩
  | block =>
    exact ⟨hI.of_same_queue rfl rfl fun _ => (hsec rfl).1, iff_of_false nofun nofun, nofun,
      hpopped, hstarted, hexited⟩
  | wake =>
    exact ⟨hI.of_same_queue rfl rfl hI.settled, ho.held, ho.secured, hpopped, hstarted, hexited⟩
  | relock hw hfree =>
    exact ⟨hI.of_same_queue rfl rfl nofun, iff_of_true rfl rfl, fun _ => hI.settled hfree,
      hpopped, hstarted, hexited⟩
  | leave hstop htasks =>
    exact ⟨hI, iff_of_true rfl (hheld rfl), fun _ => ⟨(hsec rfl).1, hstop, htasks⟩, hpopped,
      hstarted, hexited⟩
  | @pop task tasks htasks =>
    refine ⟨⟨?_, hI.acquired_nodup, fun hfree => ?_, fun v hv => ?_⟩,
      iff_of_true rfl (hheld rfl), fun _ => (hsec rfl).1, ?_, hstarted,
      hexited⟩
    · rw [List.map_append, List.append_assoc]
      exact hI.fifo.trans (by rw [htasks]; rfl)
    -- the queue is not settled while this worker holds the lock
    · exact absurd ((hheld rfl).symm.trans hfree) nofun
    -- a worker exits only from an empty queue
    · exact absurd (htasks.symm.trans (hI.exited v hv).2) nofun
    · dsimp only
      rw [ofOwner_append_self, hpopped]
      simp [WorkerPoint.hand]
  | start task =>
    refine ⟨hI.of_same_queue rfl rfl fun _ => hsec rfl, iff_of_false nofun nofun, nofun, ?_, ?_,
      hexited⟩
    · dsimp only
      rw [ofOwner_append_self]
      exact hpopped.trans (List.append_nil _).symm
    · dsimp only
      rw [ofOwner_append_self, hstarted]
      simp [WorkerPoint.busy, Shared.unlock]
  | finish task outcome =>
    refine ⟨hI.of_same_queue rfl rfl hI.settled, ho.held, nofun, hpopped, ?_,
      hexited⟩
    rw [List.map_append, List.map_singleton, ofOwner_append_self]
    exact hstarted.trans (List.append_nil _).symm
  | exit =>
    obtain ⟨hs, hstop, htasks⟩ := hsec rfl
    exact ⟨⟨hI.fifo, hI.acquired_nodup, fun _ => hs, fun _ _ => ⟨hstop, htasks⟩⟩,
      iff_of_false nofun nofun, nofun, hpopped, hstarted, Function.update_self _ _ _⟩

theorem owned_client {c : C} {n : ℕ} {p : ClientPoint} {r : ℕ × ClientPoint} (hI : PoolInv g)
    (ho : Owned (.client c) (.client n p) g) (hm : ClientMoves c n g p r g') :
    PoolInv g' ∧ Owned (.client c) (.client r.1 r.2) g' := by
  have hlocks : ∀ e ∈ g.queue.acquired, e.1.client = c → e.1.call < p.locks n := ho.ok
  have hheld := ho.held.mp
  have hsec := ho.secured
  cases hm with
  | call => exact ⟨hI, ho.held, nofun, hlocks⟩
  | lock hfree =>
    refine ⟨⟨hI.fifo, ?_, nofun, hI.exited⟩, iff_of_true rfl rfl,
      fun _ => (hI.settled hfree).acquire _, fun e he hc => ?_⟩
    · dsimp only [Queue.acquire]
      rw [List.map_append, List.map_singleton, ← List.concat_eq_append]
      apply List.Nodup.concat _ hI.acquired_nodup
      intro hmem
      obtain ⟨e, he, heq⟩ := List.mem_map.mp hmem
      have := hlocks e he (by rw [heq])
      rw [heq] at this
      exact absurd this (lt_irrefl n)
    · rcases List.mem_append.mp he with he | he
      · exact (hlocks e he hc).trans n.lt_succ_self
      · obtain rfl := List.mem_singleton.mp he
        exact n.lt_succ_self
  | throw hstop =>
    refine ⟨⟨hI.fifo, hI.acquired_nodup, fun hfree => ?_, hI.exited⟩,
      iff_of_true rfl (hheld rfl), fun _ => Pending.reject (hsec rfl) hstop, hlocks⟩
    exact absurd ((hheld rfl).symm.trans hfree) nofun
  | emplace hstop =>
    refine ⟨⟨?_, hI.acquired_nodup, fun hfree => ?_, fun w hw => ?_⟩,
      iff_of_true rfl (hheld rfl), fun _ => Pending.emplace (hsec rfl) hstop, hlocks⟩
    · dsimp only [Queue.emplace]
      rw [hI.fifo, List.append_assoc]
    · exact absurd ((hheld rfl).symm.trans hfree) nofun
    -- no worker has exited while tasks are accepted
    · exact absurd (hstop.symm.trans (hI.exited w hw).1) nofun
  | unwind what =>
    exact ⟨hI.of_same_queue rfl rfl fun _ => hsec rfl, iff_of_false nofun nofun, nofun, hlocks⟩
  | unlock =>
    exact ⟨hI.of_same_queue rfl rfl fun _ => hsec rfl, iff_of_false nofun nofun, nofun, hlocks⟩
  | notifyOne w => exact ⟨hI.of_same_queue rfl rfl hI.settled, ho.held, nofun, hlocks⟩
  | notifyNone hnone => exact ⟨hI, ho.held, nofun, hlocks⟩

theorem owned_owner {p p' : OwnerPoint} (hI : PoolInv g) (ho : Owned .owner (.owner p) g)
    (hm : OwnerMoves g p p' g') : PoolInv g' ∧ Owned .owner (.owner p') g' := by
  have hok : p.Joined g := ho.ok
  have hheld := ho.held.mp
  have hsec := ho.secured
  cases hm with
  | call => exact ⟨hI, ho.held, nofun, trivial⟩
  | lock hfree =>
    exact ⟨hI.of_same_queue rfl rfl nofun, iff_of_true rfl rfl, fun _ => hI.settled hfree, trivial⟩
  | setStop =>
    refine ⟨⟨hI.fifo, hI.acquired_nodup, fun hfree => ?_, fun w hw => ⟨rfl, (hI.exited w hw).2⟩⟩,
      iff_of_true rfl (hheld rfl), fun _ => hsec rfl, trivial⟩
    exact absurd ((hheld rfl).symm.trans hfree) nofun
  | unlock =>
    exact ⟨hI.of_same_queue rfl rfl fun _ => hsec rfl, iff_of_false nofun nofun, nofun, trivial⟩
  | notifyAll =>
    exact ⟨hI.of_same_queue rfl rfl hI.settled, ho.held, nofun, fun w hw => absurd hw (by simp)⟩
  | @join k hk hexit =>
    refine ⟨hI, ho.held, nofun, fun w hw => ?_⟩
    rcases Nat.lt_succ_iff_lt_or_eq.mp hw with hlt | heq
    · exact hok w hlt
    · obtain rfl : w = ⟨k, hk⟩ := Fin.ext heq
      exact hexit
  | joined hk => exact ⟨hI, ho.held, nofun, fun w => hok w (w.isLt.trans_le hk)⟩

end

/-! ## Runs -/

theorem poolInv_init : PoolInv (init numThreads C).shared :=
  ⟨rfl, List.nodup_nil, fun _ => ⟨rfl, rfl⟩, nofun⟩

theorem owned_init (t : Tid numThreads C) :
    Owned t ((init numThreads C).locals t) (init numThreads C).shared := by
  cases t with
  | worker w => exact ⟨iff_of_false nofun nofun, nofun, rfl, rfl, rfl⟩
  | client c => exact ⟨iff_of_false nofun nofun, nofun, nofun⟩
  | owner => exact ⟨iff_of_false nofun nofun, nofun, trivial⟩

section
variable {c : Config (Tid numThreads C) (Local C) (Shared numThreads C)}

/-- The `enqueue` calls that took the mutex are answered in that order, the one that holds
it now excepted. -/
theorem answered (hI : PoolInv c.shared) (ho : ∀ t, Owned t (c.locals t) c.shared) :
    Settled c.shared.queue ∨ ∃ d n, c.locals (.client d) = .client n .testStop ∧
      Pending c.shared.queue ⟨d, n⟩ := by
  cases hm : c.shared.mutex with
  | none => exact .inl (hI.settled hm)
  | some t =>
    have hsec := (ho t).secured ((ho t).held.mpr hm)
    generalize hl : c.locals t = l at hsec
    unfold Secured at hsec
    split at hsec
    · exact .inr ⟨_, _, hl, hsec⟩
    · exact .inl hsec.1
    · exact .inl hsec.1
    · exact .inl hsec.1
    · exact .inl hsec

theorem accepted_prefix_enqueued (hI : PoolInv c.shared) (ho : ∀ t, Owned t (c.locals t) c.shared) :
    c.shared.queue.accepted <+: c.shared.queue.enqueued false := by
  rcases answered hI ho with hs | ⟨d, n, -, hp⟩
  · exact hs.1 ▸ List.prefix_rfl
  · exact hp.1 ▸ List.prefix_append _ _

theorem mem_enqueued {q : Queue numThreads C} {task : Task C} {stop : Bool} :
    task ∈ q.enqueued stop ↔ (task, stop) ∈ q.acquired := by
  simp [Queue.enqueued]

theorem accepted_nodup (hI : PoolInv c.shared) (ho : ∀ t, Owned t (c.locals t) c.shared) :
    c.shared.queue.accepted.Nodup :=
  (accepted_prefix_enqueued hI ho).sublist.nodup
    ((List.filter_sublist.map Prod.fst).nodup hI.acquired_nodup)

/-- A call that found `stop_` set is not accepted; it has thrown or throws next. -/
theorem rejected_of_stopped (hI : PoolInv c.shared) (ho : ∀ t, Owned t (c.locals t) c.shared)
    {task : Task C} (htask : (task, true) ∈ c.shared.queue.acquired) :
    task ∉ c.shared.queue.accepted ∧ (task ∈ c.shared.queue.rejected ∨
      c.locals (.client task.client) = .client task.call .testStop ∧
        c.shared.queue.stop = true) := by
  constructor
  · intro hacc
    have hopen := mem_enqueued.mp ((accepted_prefix_enqueued hI ho).subset hacc)
    exact absurd (List.inj_on_of_nodup_map hI.acquired_nodup htask hopen rfl) (by simp)
  · have hclosed := mem_enqueued.mpr htask
    rcases answered hI ho with hs | ⟨d, n, hl, hp⟩
    · exact .inl (hs.2 ▸ hclosed)
    · rw [hp.2, List.mem_append] at hclosed
      rcases hclosed with hrej | hcur
      · exact .inl hrej
      · split_ifs at hcur with hstop
        · obtain rfl := List.mem_singleton.mp hcur
          exact .inr ⟨hl, hstop⟩
        · exact absurd hcur List.not_mem_nil

theorem workerOk (ho : ∀ t, Owned t (c.locals t) c.shared) (w : Fin numThreads) :
    ∃ p, WorkerOk w p c.shared := by
  have hok := (ho (.worker w)).ok
  generalize c.locals (.worker w) = l at hok
  cases l with
  | worker p => exact ⟨p, hok⟩
  | client n p => exact hok.elim
  | owner p => exact hok.elim

variable [DecidableEq C] {actions : List (Action (Tid numThreads C) (Act numThreads) Empty)}

/-- The invariant holds along every run. -/
theorem poolInv_run (hrun : exec step (init numThreads C) actions = some c) :
    PoolInv c.shared ∧ ∀ t, Owned t (c.locals t) c.shared := by
  refine invariant_of_noninterference (I := PoolInv) (P := Owned) (Q := fun _ _ _ _ => True)
    ?_ ?_ nofun poolInv_init owned_init (meets_of_forall_mem ?_ _) hrun
  · intro t a l g l' g' hI ho _ hmove
    cases moves_of_move hmove with
    | worker hm => exact owned_worker hI ho hm
    | client hm => exact owned_client hI ho hm
    | owner hm => exact owned_owner hI ho hm
  · intro t a l g l' g' u m hu ho hou hmove
    exact hou.frame hu (frame_of_moves ho.held.mp (moves_of_move hmove))
  · rintro (⟨t, a⟩ | e) _ _ <;> trivial

/-- No task is started twice. -/
theorem started_nodup (hI : PoolInv c.shared) (ho : ∀ t, Owned t (c.locals t) c.shared) :
    (c.shared.started.map Prod.snd).Nodup := by
  have hpopped : (c.shared.queue.popped.map Prod.snd).Nodup := by
    have := accepted_nodup hI ho
    rw [hI.fifo] at this
    exact this.of_append_left
  apply nodup_map_of_owner_prefixes _ hpopped
  intro w
  obtain ⟨p, hok⟩ := workerOk ho w
  exact hok.popped ▸ List.prefix_append _ _

/-- When all workers have exited, what was accepted was completed. -/
theorem completed_perm (hn : 0 < numThreads) (hI : PoolInv c.shared)
    (ho : ∀ t, Owned t (c.locals t) c.shared) (hexited : ∀ w, c.shared.exited w = true) :
    (c.shared.completed.map fun e => e.1.2).Perm c.shared.queue.accepted := by
  have hall : c.shared.queue.accepted = c.shared.queue.popped.map Prod.snd := by
    rw [hI.fifo, (hI.exited ⟨0, hn⟩ (hexited _)).2, List.append_nil]
  have hperm : (c.shared.completed.map Prod.fst).Perm c.shared.queue.popped := by
    apply perm_of_ofOwner_eq
    intro w
    obtain ⟨p, hok⟩ := workerOk ho w
    have hp : p.hasExited = true := hok.exited.symm.trans (hexited w)
    rw [hok.popped, hok.started, hand_of_hasExited hp, busy_of_hasExited hp, List.append_nil,
      List.append_nil]
  have := hperm.map Prod.snd
  rwa [List.map_map, ← hall] at this

/-- In every run of a pool with workers, tasks are popped in the order their `enqueue`
calls took the mutex and none is started twice; a call that takes the mutex after `stop_`
was set throws and adds nothing; a worker exits only when the queue is empty; and when
all workers have exited, in particular when the destructor has returned, every accepted
task has been executed exactly once. -/
theorem executes_exactly_once (hn : 0 < numThreads)
    (hrun : exec step (init numThreads C) actions = some c) :
    c.shared.queue.popped.map Prod.snd <+: c.shared.queue.enqueued false ∧
    (c.shared.started.map Prod.snd).Nodup ∧
    (∀ task, (task, true) ∈ c.shared.queue.acquired →
      task ∉ c.shared.queue.accepted ∧ (task ∈ c.shared.queue.rejected ∨
        c.locals (.client task.client) = .client task.call .testStop ∧
          c.shared.queue.stop = true)) ∧
    (∀ w, c.shared.exited w = true → c.shared.queue.tasks = []) ∧
    ((∀ w, c.shared.exited w = true) →
      (c.shared.completed.map fun e => e.1.2).Perm c.shared.queue.accepted ∧
        c.shared.queue.accepted.Nodup) ∧
    (c.locals .owner = .owner .destroyed → ∀ w, c.shared.exited w = true) := by
  obtain ⟨hI, ho⟩ := poolInv_run hrun
  refine ⟨?_, started_nodup hI ho, fun task htask => rejected_of_stopped hI ho htask,
    fun w hw => (hI.exited w hw).2,
    fun hexited => ⟨completed_perm hn hI ho hexited, accepted_nodup hI ho⟩, fun hl => ?_⟩
  · have := accepted_prefix_enqueued hI ho
    rw [hI.fifo] at this
    exact (List.prefix_append _ _).trans this
  · have hok := (ho .owner).ok
    rw [hl] at hok
    exact hok

end

/-- A worker is put to sleep, woken by one task, executes it and exits at shutdown; a
second call comes too late. -/
def oneTask : List (Action (Tid 1 Unit) (Act 1) Empty) :=
  [times 3 (.worker 0) .next, times 1 (.client ()) .call, times 3 (.client ()) .next,
    times 1 (.client ()) (.notify 0), times 4 (.worker 0) .next,
    times 1 (.worker 0) (.finish .returned), times 1 .owner .call, times 4 .owner .next,
    times 1 (.client ()) .call, times 3 (.client ()) .next, times 4 (.worker 0) .next,
    times 2 .owner .next].flatten

theorem executes_exactly_once_oneTask :
    ∃ c, exec step (init 1 Unit) oneTask = some c ∧ c.shared.queue.accepted = [⟨(), 1⟩] ∧
      c.shared.queue.rejected = [⟨(), 2⟩] ∧ (∀ w, c.shared.exited w = true) ∧
      (c.shared.completed.map fun e => e.1.2).Perm c.shared.queue.accepted := by
  have hrun : (exec step (init 1 Unit) oneTask).map (fun c =>
      (c.shared.queue.accepted, c.shared.queue.rejected, c.shared.exited 0)) =
        some ([⟨(), 1⟩], [⟨(), 2⟩], true) := by
    decide +kernel
  obtain ⟨c, hc, hend⟩ := Option.map_eq_some_iff.mp hrun
  obtain ⟨hacc, hend⟩ := Prod.mk.inj hend
  obtain ⟨hrej, hexit⟩ := Prod.mk.inj hend
  have hall : ∀ w, c.shared.exited w = true := fun w => Subsingleton.elim 0 w ▸ hexit
  have hdone := (executes_exactly_once Nat.one_pos hc).2.2.2.2.1 hall
  exact ⟨c, hc, hacc, hrej, hall, hdone.1⟩

end Gateway.Concurrency
