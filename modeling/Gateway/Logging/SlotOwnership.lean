import Gateway.Logging.Ledger

/-!
# Which producer owns a slot

A call of `log` owns its slot from the test that finds it free to the setting of `valid`,
as long as no other call draws the same slot in between. Ownership is what keeps the ledger
of the accepted messages.
-/

namespace Gateway.Logging.Interleaving
open RingWindow Steps Threads

/-- The slot of the ticket that a running call has drawn. -/
def Point.ticket : Point → Option (Fin ringCapacity)
  | .idle => none
  | .fetchAdd _ _ => none
  | .test _ _ i => some i
  | .write _ _ i => some i
  | .setValid _ i => some i

/-- The slot that a call has found free and not yet made valid. -/
def Point.claimed : Point → Option (Fin ringCapacity)
  | .idle => none
  | .fetchAdd _ _ => none
  | .test _ _ _ => none
  | .write _ _ i => some i
  | .setValid _ i => some i

theorem Point.ticket_of_claimed {p : Point} {i : Fin ringCapacity} (h : p.claimed = some i) :
    p.ticket = some i := by
  cases p with
  | write level msg j => exact h
  | setValid line j => exact h
  | _ => simp only [Point.claimed, reduceCtorEq] at h

variable {T : Type*}

/-- No two calls are between their test of a slot and their setting of its `valid`. -/
def Exclusive (c : Config T Local (Shared T)) : Prop :=
  ∀ t u i, t ≠ u → (c.locals t).point.claimed = some i → (c.locals u).point.claimed ≠ some i

/-- No two calls hold tickets for the same slot. -/
def Apart (c : Config T Local (Shared T)) : Prop :=
  ∀ t u i, t ≠ u → (c.locals t).point.ticket = some i → (c.locals u).point.ticket ≠ some i

theorem Apart.exclusive {c : Config T Local (Shared T)} (h : Apart c) : Exclusive c := by
  intro t u i htu ht hu
  exact h t u i htu (Point.ticket_of_claimed ht) (Point.ticket_of_claimed hu)

/-- The call is about to draw its ticket. -/
def Point.draws : Point → Bool
  | .fetchAdd _ _ => true
  | _ => false

/-- A `fetch_add` does not draw a slot for which another call holds a ticket. -/
def Unlapped (c : Config T Local (Shared T)) : Action T Act Unit → Prop
  | .thread t _ => (c.locals t).point.draws = true →
      ∀ u, (c.locals u).point.ticket ≠ some (slot ringCapacity c.shared.logger.head)
  | .env _ => True

instance [Fintype T] (c : Config T Local (Shared T)) : ∀ a, Decidable (Unlapped c a)
  | .thread t _ => inferInstanceAs (Decidable ((c.locals t).point.draws = true →
      ∀ u, (c.locals u).point.ticket ≠ some (slot ringCapacity c.shared.logger.head)))
  | .env _ => inferInstanceAs (Decidable True)

/-! ## What a step does -/

/-- The steps of a producer, by what they do to its place and to the shared state. -/
inductive Moved (t : T) (l : Local) (g : Shared T) : Local → Shared T → Prop
  | call (level : LogLevel) (msg : Bytes) (hpoint : l.point = .idle) :
    Moved t l g ⟨l.calls + 1, .fetchAdd level msg⟩ g
  | draw (level : LogLevel) (msg : Bytes) (hpoint : l.point = .fetchAdd level msg) :
    Moved t l g ⟨l.calls, .test level msg (slot ringCapacity g.logger.head)⟩
      { g with logger := { g.logger with head := wrap (g.logger.head + 1) } }
  | drop (level : LogLevel) (msg : Bytes) (i : Fin ringCapacity)
    (hpoint : l.point = .test level msg i) :
    Moved t l g ⟨l.calls, .idle⟩
      { g with logger := { g.logger with dropped := wrap (g.logger.dropped + 1) } }
  | claim (level : LogLevel) (msg : Bytes) (i : Fin ringCapacity)
    (hpoint : l.point = .test level msg i) (hfree : cells g.logger i = none) :
    Moved t l g ⟨l.calls, .write level msg i⟩ g
  | fill (level : LogLevel) (msg : Bytes) (now : ℤ) (i : Fin ringCapacity)
    (hpoint : l.point = .write level msg i) :
    Moved t l g ⟨l.calls, .setValid (lineOf level msg now) i⟩
      { g.setEntry i (LogEntry.overwrite (g.logger.ring i) level msg now) with
        writer := Function.update g.writer i (some (t, l.calls)) }
  | publish (line : LogLine) (i : Fin ringCapacity) (hpoint : l.point = .setValid line i) :
    Moved t l g ⟨l.calls, .idle⟩
      { g.setEntry i { g.logger.ring i with valid := true } with
        accepted := g.accepted ++ [((t, l.calls), line)] }

theorem moved_of_move {t : T} {a : Act} {l l' : Local} {g g' : Shared T}
    (h : move t a l g = some (l', g')) : Moved t l g l' g' := by
  obtain ⟨calls, point⟩ := l
  cases a with
  | call level msg =>
    cases point with
    | idle =>
      simp only [move, Option.some.injEq, Prod.mk.injEq] at h
      obtain ⟨rfl, rfl⟩ := h
      exact .call level msg rfl
    | _ => simp only [move, reduceCtorEq] at h
  | advance now =>
    cases point with
    | idle => simp only [move, advance, reduceCtorEq] at h
    | fetchAdd level msg =>
      simp only [move, advance, Option.some.injEq, Prod.mk.injEq] at h
      obtain ⟨rfl, rfl⟩ := h
      exact .draw level msg rfl
    | test level msg i =>
      simp only [move, advance] at h
      split_ifs at h with hv <;> simp only [Option.some.injEq, Prod.mk.injEq] at h <;>
        obtain ⟨rfl, rfl⟩ := h
      · exact .drop level msg i rfl
      · exact .claim level msg i rfl (cells_eq_none.mpr (Bool.not_eq_true _ ▸ hv))
    | write level msg i =>
      simp only [move, advance, Option.some.injEq, Prod.mk.injEq] at h
      obtain ⟨rfl, rfl⟩ := h
      exact .fill level msg now i rfl
    | setValid line i =>
      simp only [move, advance, Option.some.injEq, Prod.mk.injEq] at h
      obtain ⟨rfl, rfl⟩ := h
      exact .publish line i rfl

/-! ## Ownership -/

variable {g g' : Shared T}

/-- What a producer relies on: the slot it has claimed is free and keeps what it wrote there,
and its running call has not returned. -/
structure Owned (t : T) (l : Local) (g : Shared T) : Prop where
  free : ∀ i, l.point.claimed = some i → cells g.logger i = none
  written : ∀ line i, l.point = .setValid line i →
    g.writer i = some (t, l.calls) ∧ (g.logger.ring i).line = line
  returned : ∀ n line, ((t, n), line) ∈ g.accepted → n ≤ l.calls
  running : l.point ≠ .idle → ∀ line, ((t, l.calls), line) ∉ g.accepted

/-- A change that leaves its claimed slot alone leaves a producer what it relies on. -/
theorem Owned.congr {t : T} {l : Local} (ho : Owned t l g)
    (hring : ∀ i, l.point.claimed = some i → g'.logger.ring i = g.logger.ring i)
    (hwriter : ∀ i, l.point.claimed = some i → g'.writer i = g.writer i)
    (haccepted : ∀ n line, ((t, n), line) ∈ g'.accepted → ((t, n), line) ∈ g.accepted) :
    Owned t l g' where
  free i hi := by
    unfold cells
    rw [hring i hi]
    exact ho.free i hi
  written line i hp := by
    have hi : l.point.claimed = some i := by rw [hp, Point.claimed]
    rw [hring i hi, hwriter i hi]
    exact ho.written line i hp
  returned n line hmem := ho.returned n line (haccepted n line hmem)
  running hp line hmem := ho.running hp line (haccepted _ line hmem)

theorem Owned.moved {t : T} {l l' : Local} (ho : Owned t l g) (hm : Moved t l g l' g') :
    Owned t l' g' := by
  cases hm with
  | call level msg hpoint =>
    refine ⟨by simp [Point.claimed], by simp, fun n line hmem => ?_, fun _ line hmem => ?_⟩
    · exact Nat.le_succ_of_le (ho.returned n line hmem)
    · exact absurd (ho.returned _ line hmem) (Nat.not_succ_le_self _)
  | draw level msg hpoint =>
    exact ⟨by simp [Point.claimed], by simp, ho.returned, fun _ => ho.running (by simp [hpoint])⟩
  | drop level msg i hpoint =>
    exact ⟨by simp [Point.claimed], by simp, ho.returned, fun h => absurd rfl h⟩
  | claim level msg i hpoint hfree =>
    refine ⟨fun j hj => ?_, by simp, ho.returned, fun _ => ho.running (by simp [hpoint])⟩
    obtain rfl := Option.some.inj hj
    exact hfree
  | fill level msg now i hpoint =>
    have hfree : cells g.logger i = none := ho.free i (by rw [hpoint, Point.claimed])
    refine ⟨fun j hj => ?_, fun line j hp => ?_, ho.returned,
      fun _ => ho.running (by simp [hpoint])⟩
    · obtain rfl := Option.some.inj hj
      exact (congrFun (cells_fill hfree level msg now) _).trans hfree
    · obtain ⟨rfl, rfl⟩ : lineOf level msg now = line ∧ i = j := by simpa using hp
      simp [Shared.setEntry, line_overwrite]
  | publish line i hpoint =>
    refine ⟨by simp [Point.claimed], by simp, fun n line' hmem => ?_, fun h => absurd rfl h⟩
    rcases List.mem_append.mp hmem with hmem | hmem
    · exact ho.returned n line' hmem
    · simp only [List.mem_singleton, Prod.mk.injEq] at hmem
      exact le_of_eq hmem.1.2

/-- A producer leaves alone the slots that others have claimed. -/
theorem Owned.moved_other {t u : T} {l l' m : Local} (ho : Owned u m g) (hut : u ≠ t)
    (happart : ∀ i, l.point.claimed = some i → m.point.claimed ≠ some i)
    (hm : Moved t l g l' g') : Owned u m g' := by
  have hne : ∀ i, l.point.claimed = some i → ∀ j, m.point.claimed = some j → j ≠ i := by
    rintro i hi j hj rfl
    exact happart j hi hj
  cases hm with
  | call level msg hpoint => exact ho
  | draw level msg hpoint => exact ⟨ho.free, ho.written, ho.returned, ho.running⟩
  | drop level msg i hpoint => exact ⟨ho.free, ho.written, ho.returned, ho.running⟩
  | claim level msg i hpoint hfree => exact ho
  | fill level msg now i hpoint =>
    have hi : l.point.claimed = some i := by rw [hpoint, Point.claimed]
    apply ho.congr
    · exact fun j hj => Function.update_of_ne (hne i hi j hj) _ _
    · exact fun j hj => Function.update_of_ne (hne i hi j hj) _ _
    · exact fun n line hmem => hmem
  | publish line i hpoint =>
    have hi : l.point.claimed = some i := by rw [hpoint, Point.claimed]
    apply ho.congr
    · exact fun j hj => Function.update_of_ne (hne i hi j hj) _ _
    · exact fun _ _ => rfl
    · intro n line' hmem
      rcases List.mem_append.mp hmem with hmem | hmem
      · exact hmem
      · simp only [List.mem_singleton, Prod.mk.injEq] at hmem
        exact absurd hmem.1.1 hut

/-- A step of a call gives it a ticket only by the `fetch_add`. -/
theorem Moved.ticket {t : T} {l l' : Local} (hm : Moved t l g l' g') {i : Fin ringCapacity}
    (hi : l'.point.ticket = some i) : l.point.ticket = some i ∨
      l.point.draws = true ∧ i = slot ringCapacity g.logger.head := by
  cases hm with
  | call level msg hpoint => simp [Point.ticket] at hi
  | draw level msg hpoint =>
    exact .inr ⟨by rw [hpoint, Point.draws], (Option.some.inj hi).symm⟩
  | drop level msg j hpoint => simp [Point.ticket] at hi
  | claim level msg j hpoint hfree =>
    rw [hpoint]
    exact .inl hi
  | fill level msg now j hpoint =>
    rw [hpoint]
    exact .inl hi
  | publish line j hpoint => simp [Point.ticket] at hi

variable [DecidableEq T]

theorem Owned.consume {t : T} {l : Local} (ho : Owned t l g) (hl : Ledger g) :
    Owned t l (Interleaving.consume () g) := by
  unfold Interleaving.consume
  cases hc : g.consumer with
  | test =>
    dsimp only
    split_ifs with hv
    · exact ⟨ho.free, ho.written, ho.returned, ho.running⟩
    · exact ho
  | emit => exact ⟨ho.free, ho.written, ho.returned, ho.running⟩
  | clear =>
    -- the slot that is cleared is valid, so nobody has claimed it
    apply ho.congr
    · intro i hi
      apply Function.update_of_ne
      rintro rfl
      exact hl.reading (.inr hc) (ho.free _ hi)
    · exact fun _ _ => rfl
    · exact fun n line hmem => hmem
  | advance => exact ⟨ho.free, ho.written, ho.returned, ho.running⟩

theorem Ledger.moved {t : T} {l l' : Local} (hl : Ledger g) (ho : Owned t l g)
    (hm : Moved t l g l' g') : Ledger g' := by
  cases hm with
  | call level msg hpoint => exact hl
  | draw level msg hpoint => exact hl.congr rfl rfl rfl (fun _ _ => rfl) rfl rfl
  | drop level msg i hpoint => exact hl.congr rfl rfl rfl (fun _ _ => rfl) rfl rfl
  | claim level msg i hpoint hfree => exact hl
  | fill level msg now i hpoint =>
    have hfree : cells g.logger i = none := ho.free i (by rw [hpoint, Point.claimed])
    refine hl.congr (cells_fill hfree level msg now) rfl rfl (fun j hj => ?_) rfl rfl
    apply Function.update_of_ne
    rintro rfl
    exact hj hfree
  | publish line i hpoint =>
    obtain ⟨hwriter, hline⟩ := ho.written line i hpoint
    have hfree : cells g.logger i = none := ho.free i (by rw [hpoint, Point.claimed])
    exact hl.publish hfree hwriter hline (ho.running (by simp [hpoint]))

/-- Tickets stay apart when the slot at `head_` is not held while it is drawn. -/
theorem Apart.moved {c : Config T Local (Shared T)} (hc : Apart c) {t : T} {l' : Local}
    (hm : Moved t (c.locals t) c.shared l' g')
    (hdraw : (c.locals t).point.draws = true →
      ∀ u, (c.locals u).point.ticket ≠ some (slot ringCapacity c.shared.logger.head)) :
    Apart ⟨Function.update c.locals t l', g'⟩ := by
  have hticket : ∀ u i, u ≠ t → l'.point.ticket = some i → (c.locals u).point.ticket ≠ some i := by
    intro u i hu hi
    rcases hm.ticket hi with hold | ⟨hdraws, rfl⟩
    · exact hc t u i hu.symm hold
    · exact hdraw hdraws u
  intro u v i huv hu hv
  dsimp only at hu hv
  by_cases hut : u = t
  · subst hut
    rw [Function.update_self] at hu
    rw [Function.update_of_ne huv.symm] at hv
    exact hticket v i huv.symm hu hv
  · rw [Function.update_of_ne hut] at hu
    by_cases hvt : v = t
    · subst hvt
      rw [Function.update_self] at hv
      exact hticket u i hut hv hu
    · rw [Function.update_of_ne hvt] at hv
      exact hc u v i huv hu hv

/-! ## Every run -/

/-- Tickets are for different slots, and the ledger and what each producer relies on hold. -/
structure Owning (c : Config T Local (Shared T)) : Prop where
  apart : Apart c
  ledger : Ledger c.shared
  owned : ∀ t, Owned t (c.locals t) c.shared

theorem owning_init : Owning (init : Config T Local (Shared T)) where
  apart t u i _ ht := by simp [init, Point.ticket] at ht
  ledger := by
    have hcells : ∀ i, cells (init : Config T Local (Shared T)).shared.logger i = none :=
      fun _ => rfl
    constructor
    · intro i line hi
      rw [hcells] at hi
      exact absurd hi (by simp)
    · simp [init]
    · exact fun i _ hi => absurd (hcells i) hi
    · exact fun _ _ => rfl
    · simp [init, Shared.Accounted]
  owned t := ⟨fun _ _ => rfl, by simp [init], by simp [init], by simp [init]⟩

theorem owning_step {c d : Config T Local (Shared T)} {a : Action T Act Unit} (hc : Owning c)
    (hg : Unlapped c a) (hd : step c a = some d) : Owning d := by
  cases a with
  | env e =>
    obtain rfl := Option.some.inj hd
    exact ⟨hc.apart, hc.ledger.consume, fun t => (hc.owned t).consume hc.ledger⟩
  | thread t a =>
    obtain ⟨l', g', hmove, rfl⟩ := step_thread.mp hd
    have hm := moved_of_move hmove
    refine ⟨hc.apart.moved hm hg, hc.ledger.moved (hc.owned t) hm, fun u => ?_⟩
    dsimp only
    by_cases hut : u = t
    · subst hut
      rw [Function.update_self]
      exact (hc.owned u).moved hm
    · rw [Function.update_of_ne hut]
      apply (hc.owned u).moved_other hut _ hm
      exact fun i => hc.apart.exclusive t u i (Ne.symm hut)

/-- As long as no call draws the slot of another running call, no two calls own the same slot
and every message that was accepted is printed exactly once or intact in a valid slot. -/
theorem slot_owned {as : List (Action T Act Unit)} {c : Config T Local (Shared T)}
    (hunlapped : Meets step Unlapped init as) (hrun : exec step init as = some c) :
    Exclusive c ∧ c.shared.Accounted := by
  have hc : Owning c :=
    invariant_of_meets (fun _ _ _ hs hg hd => owning_step hs hg hd) owning_init hunlapped hrun
  exact ⟨hc.apart.exclusive, hc.ledger.accounted⟩

/-- Two producers draw their slots one after the other, the second is the first to finish, and
the consumer prints slot 0 while slot 1 is still valid. -/
def twoProducers : List (Action Bool Act Unit) :=
  [Action.thread false (Act.call LogLevel.info [104, 105]),
    Action.thread true (Act.call LogLevel.warn [104]),
    Action.thread false (Act.advance 0), Action.thread true (Act.advance 1000)] ++
    times 3 true (Act.advance 2000) ++ times 3 false (Act.advance 3000) ++
    List.replicate 3 (Action.env ())

theorem slot_owned_twoProducers : ∃ c, exec step init twoProducers = some c ∧
    c.shared.accepted.length = 2 ∧ c.shared.emitted.length = 1 ∧
    Exclusive c ∧ c.shared.Accounted := by
  have hlengths : (exec step init twoProducers).map (fun c =>
      (c.shared.accepted.length, c.shared.emitted.length)) = some (2, 1) := by
    decide +kernel
  obtain ⟨c, hrun, hc⟩ := Option.map_eq_some_iff.mp hlengths
  obtain ⟨haccepted, hemitted⟩ := Prod.mk.inj hc
  exact ⟨c, hrun, haccepted, hemitted, slot_owned (by decide +kernel) hrun⟩

/-! ## A stalled call -/

/-- The producer `false` has found its slot free and stopped there, while `true` has made `n`
calls. -/
structure Lapping (n : ℕ) (c : Config Bool Local (Shared Bool)) : Prop where
  stalled : c.locals false = ⟨1, .write .info [] (slot ringCapacity 0)⟩
  idle : c.locals true = ⟨n, .idle⟩
  head : c.shared.logger.head = n + 1
  free : ∀ k, n < k → k ≤ ringCapacity →
    (c.shared.logger.ring (slot ringCapacity k)).valid = false
  writer : ∀ i k, c.shared.writer i ≠ some (false, k)
  emitted : c.shared.emitted = []

/-- A complete call of the producer `true`. -/
def completeCall : List (Action Bool Act Unit) :=
  .thread true (.call .info []) :: times 4 true (.advance 0)

theorem Lapping.call {n : ℕ} {c : Config Bool Local (Shared Bool)} (h : Lapping n c)
    (hn : n + 1 < ringCapacity) :
    ∃ d, exec step c completeCall = some d ∧ Lapping (n + 1) d := by
  have hfree : (c.shared.logger.ring (slot ringCapacity c.shared.logger.head)).valid = false := by
    rw [h.head]
    exact h.free (n + 1) (Nat.lt_succ_self n) (le_of_lt hn)
  refine ⟨_, exec_log_accept h.idle hfree .info [] 0, ?_⟩
  obtain ⟨ring, hlog, hcells⟩ := log_accept hfree .info [] 0
  rw [hlog]
  constructor
  · exact h.stalled
  · rfl
  · dsimp only
    rw [h.head]
    exact Nat.mod_eq_of_lt (by unfold ringCapacity at hn; omega)
  · intro k hk hle
    -- a slot further on is not the one that this call fills
    have hne : slot ringCapacity k ≠ slot ringCapacity c.shared.logger.head := by
      rw [h.head, Ne, slot_eq_iff]
      unfold ringCapacity at *
      omega
    have hcell := congrFun hcells (slot ringCapacity k)
    rw [Function.update_of_ne hne, cells_eq_none.mpr (h.free k (by omega) hle)] at hcell
    exact cells_eq_none.mp hcell
  · intro i k
    dsimp only
    by_cases hi : i = slot ringCapacity c.shared.logger.head
    · subst hi
      rw [Function.update_self]
      simp
    · rw [Function.update_of_ne hi]
      exact h.writer i k
  · exact h.emitted

theorem exec_lap {c : Config Bool Local (Shared Bool)} (h : Lapping 0 c) {n : ℕ}
    (hn : n < ringCapacity) :
    ∃ d, exec step c (List.replicate n completeCall).flatten = some d ∧ Lapping n d := by
  induction n with
  | zero => exact ⟨c, rfl, h⟩
  | succ n ih =>
    obtain ⟨d, hd, hlap⟩ := ih (Nat.lt_of_succ_lt hn)
    obtain ⟨e, he, hlap'⟩ := hlap.call hn
    refine ⟨e, ?_, hlap'⟩
    rw [List.replicate_succ', List.flatten_append, List.flatten_singleton]
    exact exec_append.mpr ⟨d, hd, he⟩

/-- One producer finds slot 0 free and stalls; the other fills the 1023 slots after it and
comes round to slot 0. -/
def lapRun : List (Action Bool Act Unit) :=
  Action.thread false (Act.call LogLevel.info []) :: times 2 false (Act.advance 0) ++
    (List.replicate 1023 completeCall).flatten ++
    Action.thread true (Act.call LogLevel.info []) :: times 2 true (Act.advance 0)

theorem exec_lapRun : ∃ c, exec step init lapRun = some c ∧
    c.locals false = ⟨1, .write .info [] (slot ringCapacity 0)⟩ ∧
    c.locals true = ⟨1024, .write .info [] (slot ringCapacity 0)⟩ ∧
    (∀ i k, c.shared.writer i ≠ some (false, k)) ∧ c.shared.emitted = [] := by
  have hinit : (init : Config Bool Local (Shared Bool)).locals false = ⟨0, .idle⟩ := rfl
  have hc := exec_claim hinit rfl .info [] 0
  obtain ⟨d, hd, hlap⟩ := exec_lap (c := ⟨Function.update init.locals false
      ⟨1, .write .info [] (slot ringCapacity 0)⟩, { init.shared with
        logger := { init.shared.logger with head := 1 } }⟩)
    ⟨rfl, rfl, rfl, fun _ _ _ => rfl, fun _ _ h => Option.some_ne_none _ h.symm, rfl⟩
    (show 1023 < ringCapacity by decide)
  have hfree : (d.shared.logger.ring (slot ringCapacity d.shared.logger.head)).valid = false := by
    rw [hlap.head]
    exact hlap.free 1024 (by decide) (le_refl _)
  have hclaim := exec_claim hlap.idle hfree .info [] 0
  refine ⟨_, exec_append.mpr ⟨d, exec_append.mpr ⟨_, hc, hd⟩, hclaim⟩, ?_⟩
  refine ⟨hlap.stalled, ?_, hlap.writer, hlap.emitted⟩
  have hslot : slot ringCapacity d.shared.logger.head = slot ringCapacity 0 := by
    rw [hlap.head, slot_eq_iff]
    decide
  rw [← hslot]
  rfl

/-- Both producers own slot 0; when both go on, both calls return true and the first message
is lost. -/
theorem stalled_call_lapped :
    (∃ c, exec step init lapRun = some c ∧ ¬Exclusive c) ∧
    ∃ c, exec step init
        (lapRun ++ times 2 false (Act.advance 0) ++ times 2 true (Act.advance 0)) = some c ∧
      ¬c.shared.Accounted := by
  obtain ⟨c, hc, hfalse, htrue, hwriter, hemitted⟩ := exec_lapRun
  refine ⟨⟨c, hc, fun h => ?_⟩, ?_⟩
  · exact h false true (slot ringCapacity 0) (by decide) (by rw [hfalse, Point.claimed])
      (by rw [htrue, Point.claimed])
  · obtain ⟨d, hd, htrue, hwriter', haccepted, hemitted⟩ : ∃ d,
        exec step c (times 2 false (.advance 0)) = some d ∧
        d.locals true = ⟨1024, .write .info [] (slot ringCapacity 0)⟩ ∧
        d.shared.writer = Function.update c.shared.writer (slot ringCapacity 0) (some (false, 1)) ∧
        ((false, 1), lineOf .info [] 0) ∈ d.shared.accepted ∧ d.shared.emitted = [] :=
      ⟨_, exec_fill hfalse 0, htrue, rfl, by simp, hemitted⟩
    refine ⟨_, exec_append.mpr ⟨d, exec_append.mpr ⟨c, hc, hd⟩, exec_fill htrue 0⟩, fun h => ?_⟩
    have hnone : d.shared.emissions (false, 1) = [] := by
      rw [Shared.emissions, hemitted]
      rfl
    rcases h _ (List.mem_append_left _ haccepted) with hone | ⟨-, i, -, hi⟩
    · exact absurd (hone.symm.trans hnone) (by simp)
    · dsimp only at hi
      rw [hwriter', Function.update_idem] at hi
      by_cases hzero : i = slot ringCapacity 0
      · rw [hzero, Function.update_self] at hi
        exact absurd hi (by simp)
      · rw [Function.update_of_ne hzero] at hi
        exact hwriter i 1 hi

end Gateway.Logging.Interleaving
