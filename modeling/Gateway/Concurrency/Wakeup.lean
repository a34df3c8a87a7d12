import Gateway.Concurrency.ExactlyOnce

/-!
# No wake-up is lost

A worker goes to sleep only with the mutex held and the predicate false, so a task that
arrives later brings its own notification. Until that is delivered it is outstanding, and
when it is delivered a worker is awake.
-/

namespace Gateway.Concurrency
open Steps Threads

variable {numThreads : ℕ} {C : Type*}

/-- The thread has changed the predicate and not notified yet. -/
def Local.outstanding : Local C → Bool
  | .client _ .pushed => true
  | .client _ .notifyOne => true
  | .owner .stopped => true
  | .owner .notifyAll => true
  | _ => false

/-- While there are tasks a worker is awake or an `enqueue` call is about to notify; after
`stop_` was set all workers are awake or the destructor is about to notify. -/
structure Awake (enqueuing stopping : Prop) (g : Shared numThreads C) : Prop where
  tasks : g.queue.stop = false → g.queue.tasks ≠ [] →
    enqueuing ∨ numThreads = 0 ∨ ∃ w, g.waiting w = false
  stop : g.queue.stop = true → stopping ∨ ∀ w, g.waiting w = false

section
variable {enqueuing enqueuing' stopping stopping' : Prop} {g g' : Shared numThreads C}

theorem Awake.imp (ha : Awake enqueuing stopping g)
    (he : enqueuing → enqueuing') (hs : stopping → stopping') : Awake enqueuing' stopping' g :=
  ⟨fun hstop htasks => (ha.tasks hstop htasks).imp_left he,
    fun hstop => (ha.stop hstop).imp_left hs⟩

/-- All workers are awake. -/
theorem Awake.of_none (h : ∀ w, g.waiting w = false) : Awake enqueuing stopping g := by
  refine ⟨fun _ _ => .inr ?_, fun _ => .inr h⟩
  rcases Nat.eq_zero_or_pos numThreads with h0 | hpos
  · exact .inl h0
  · exact .inr ⟨⟨0, hpos⟩, h _⟩

/-- Waking one worker. -/
theorem Awake.wake (ha : Awake enqueuing stopping g) (w : Fin numThreads) :
    Awake enqueuing' stopping { g with waiting := Function.update g.waiting w false } := by
  refine ⟨fun _ _ => .inr (.inr ⟨w, Function.update_self _ _ _⟩), fun hstop => ?_⟩
  refine (ha.stop hstop).imp_right fun hall v => ?_
  dsimp only
  rw [Function.update_apply]
  split_ifs
  · rfl
  · exact hall v

theorem awake_worker {w : Fin numThreads} {p p' : WorkerPoint C}
    (ho : Owned (.worker w) (.worker p) g) (hm : WorkerMoves w g p p' g')
    (ha : Awake enqueuing stopping g) : Awake enqueuing stopping g' := by
  cases hm with
  | lock hfree => exact ⟨ha.tasks, ha.stop⟩
  | ready hq => exact ha
  | notReady hstop htasks => exact ha
  | block =>
    obtain ⟨-, hstop, htasks⟩ := ho.secured rfl
    exact ⟨fun _ hne => absurd htasks hne, fun h => absurd (hstop.symm.trans h) nofun⟩
  | wake => exact ha.wake w
  | relock hw hfree => exact ⟨ha.tasks, ha.stop⟩
  | leave hstop htasks => exact ha
  | pop htasks => exact ⟨fun hstop _ => ha.tasks hstop (by simp [htasks]), ha.stop⟩
  | start task => exact ⟨ha.tasks, ha.stop⟩
  | finish task outcome => exact ⟨ha.tasks, ha.stop⟩
  | exit => exact ⟨ha.tasks, ha.stop⟩

/-- `enqueuing` stands for the other clients. -/
theorem awake_client {c : C} {n : ℕ} {p : ClientPoint} {r : ℕ × ClientPoint}
    (hm : ClientMoves c n g p r g')
    (ha : Awake (enqueuing ∨ (Local.client n p : Local C).outstanding = true) stopping g) :
    Awake (enqueuing ∨ (Local.client r.1 r.2 : Local C).outstanding = true) stopping g' := by
  cases hm with
  | call => exact ha
  | lock hfree => exact ⟨ha.tasks, ha.stop⟩
  | throw hstop => exact ⟨ha.tasks, ha.stop⟩
  | emplace hstop => exact ⟨fun _ _ => .inl (.inr rfl), ha.stop⟩
  | unwind what => exact ⟨ha.tasks, ha.stop⟩
  | unlock => exact ⟨fun _ _ => .inl (.inr rfl), ha.stop⟩
  | notifyOne w => exact ha.wake w
  | notifyNone hnone => exact .of_none hnone

theorem awake_owner {p p' : OwnerPoint} (hm : OwnerMoves g p p' g')
    (ha : Awake enqueuing ((Local.owner p : Local C).outstanding = true) g) :
    Awake enqueuing ((Local.owner p' : Local C).outstanding = true) g' := by
  cases hm with
  | call => exact ha
  | lock hfree => exact ⟨ha.tasks, ha.stop⟩
  | setStop => exact ⟨nofun, fun _ => .inl rfl⟩
  | unlock => exact ⟨ha.tasks, fun _ => .inl rfl⟩
  | notifyAll => exact .of_none fun _ => rfl
  | join hk hexit => exact ha
  | joined hk => exact ha

end

/-! ## Runs -/

section
variable [DecidableEq C] {c d : Config (Tid numThreads C) (Local C) (Shared numThreads C)}

/-- `Awake` of a configuration: the clients and the owner as they stand. -/
def ConfigAwake (c : Config (Tid numThreads C) (Local C) (Shared numThreads C)) : Prop :=
  Awake (∃ e, (c.locals (.client e)).outstanding = true)
    ((c.locals .owner).outstanding = true) c.shared

theorem configAwake_step {a : Action (Tid numThreads C) (Act numThreads) Empty}
    (ho : ∀ t, Owned t (c.locals t) c.shared) (ha : ConfigAwake c) (hstep : step c a = some d) :
    ConfigAwake d := by
  rcases a with ⟨t, a⟩ | e
  swap
  · exact e.elim
  obtain ⟨l', g', hmove, rfl⟩ := step_thread.mp hstep
  have hm := moves_of_move hmove
  generalize hl : c.locals t = l at hm
  cases hm with
  | worker hm =>
    exact (awake_worker (hl ▸ ho _) hm ha).imp (fun ⟨e, he⟩ => ⟨e, he⟩) id
  | @client e n p r hm =>
    -- the other clients stay as they are
    have hothers : Awake ((∃ e', e' ≠ e ∧ (c.locals (.client e')).outstanding = true) ∨
        (Local.client n p : Local C).outstanding = true)
        ((c.locals .owner).outstanding = true) c.shared := by
      refine ha.imp (fun ⟨e', he'⟩ => ?_) id
      by_cases heq : e' = e
      · subst heq
        exact .inr (hl ▸ he')
      · exact .inl ⟨e', heq, he'⟩
    refine (awake_client hm hothers).imp (fun hout => ?_) id
    dsimp only
    rcases hout with ⟨e', hne, he'⟩ | hout
    · refine ⟨e', ?_⟩
      rwa [Function.update_of_ne fun h => hne (Tid.client.inj h)]
    · refine ⟨e, ?_⟩
      rwa [Function.update_self]
  | owner hm =>
    have hown : Awake (∃ e, (c.locals (.client e)).outstanding = true) _ c.shared :=
      ha.imp id (fun hout => hl ▸ hout)
    refine (awake_owner hm hown).imp (fun ⟨e, he⟩ => ⟨e, he⟩) (fun hout => ?_)
    dsimp only
    rwa [Function.update_self]

/-- There is no reachable state in which the predicate of `cv_.wait` holds, some worker
has not exited, all such workers are blocked and no notification is outstanding. -/
theorem no_lost_wakeup {actions : List (Action (Tid numThreads C) (Act numThreads) Empty)}
    (hrun : exec step (init numThreads C) actions = some c) :
    ¬ (c.shared.queue.ready = true ∧ (∃ w, c.shared.exited w = false) ∧
      (∀ w, c.shared.exited w = false →
        c.locals (.worker w) = .worker .blocked ∧ c.shared.waiting w = true) ∧
      ∀ t, (c.locals t).outstanding = false) := by
  rintro ⟨hready, ⟨w, hw⟩, hblocked, hnone⟩
  have hI := (poolInv_run hrun).1
  have ha : ConfigAwake c := invariant_of_reachable (fun _ _ h => (poolInv_run h).2)
    (fun _ _ _ ho ha hstep => configAwake_step ho ha hstep) (.of_none fun _ => rfl) hrun
  cases hstop : c.shared.queue.stop with
  | true =>
    rcases ha.stop hstop with hout | hall
    · exact absurd ((hnone .owner).symm.trans hout) nofun
    · exact absurd ((hblocked w hw).2.symm.trans (hall w)) nofun
  | false =>
    have htasks := (ready_iff.mp hready).resolve_left (by simp [hstop])
    rcases ha.tasks hstop htasks with ⟨e, hout⟩ | h0 | ⟨v, hv⟩
    · exact absurd ((hnone (.client e)).symm.trans hout) nofun
    · subst h0
      exact w.elim0
    -- the worker that is awake has not exited, since `stop_` is not set
    · cases hexit : c.shared.exited v with
      | true => exact absurd (hstop.symm.trans (hI.exited v hexit).1) nofun
      | false => exact absurd ((hblocked v hexit).2.symm.trans hv) nofun

end

/-- The worker is asleep and the caller of `enqueue` has released the mutex. -/
def beforeNotify : List (Action (Tid 1 Unit) (Act 1) Empty) :=
  [times 3 (.worker ⟨0, Nat.one_pos⟩) .next, times 1 (.client ()) .call,
    times 3 (.client ()) .next].flatten

theorem no_lost_wakeup_beforeNotify :
    ∃ c, exec step (init 1 Unit) beforeNotify = some c ∧
      c.shared.queue.ready = true ∧ c.shared.waiting 0 = true ∧
      ¬ (c.shared.queue.ready = true ∧ (∃ w, c.shared.exited w = false) ∧
        (∀ w, c.shared.exited w = false →
          c.locals (.worker w) = .worker .blocked ∧ c.shared.waiting w = true) ∧
        ∀ t, (c.locals t).outstanding = false) := by
  have hrun : (exec step (init 1 Unit) beforeNotify).map (fun c =>
      (c.shared.queue.ready, c.shared.waiting 0)) = some (true, true) := by
    decide +kernel
  obtain ⟨c, hc, hend⟩ := Option.map_eq_some_iff.mp hrun
  obtain ⟨hready, hwaiting⟩ := Prod.mk.inj hend
  exact ⟨c, hc, hready, hwaiting, no_lost_wakeup hc⟩

end Gateway.Concurrency
