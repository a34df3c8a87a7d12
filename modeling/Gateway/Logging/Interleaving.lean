import Gateway.Lib.Threads
import Gateway.Logging.RingQueue

/-!
# `log` and `consume_loop`, one access at a time

Any number of producers call `log` while the consumer thread runs `consume_loop`. The
steps of `log` are the `fetch_add` on `head_`, the test of `valid`, the writing of the entry
and the setting of `valid`; those of the consumer are the test, the emission, the clearing
of `valid` and the advance of `tail_`. The condition of the consumer's loop only decides
whether it takes further steps, and the consumer is the environment of the producers.
-/

namespace Gateway.Logging.Interleaving
open RingWindow Steps Threads

/-- Where a producer is in its call of `log`: the step it makes next. -/
inductive Point where
  | idle
  | fetchAdd (level : LogLevel) (msg : Bytes)
  | test (level : LogLevel) (msg : Bytes) (i : Fin ringCapacity)
  | write (level : LogLevel) (msg : Bytes) (i : Fin ringCapacity)
  | setValid (line : LogLine) (i : Fin ringCapacity)

/-- `calls` counts the calls the thread has made, the running one included. -/
structure Local where
  calls : ℕ
  point : Point

/-- The step the consumer makes next. -/
inductive ConsumerPoint where
  | test
  | emit
  | clear
  | advance
deriving DecidableEq

variable {T : Type*}

/-- The logger and the consumer's place in its loop; with the call that wrote each slot
last, the calls that returned true and the lines printed, each with the call that wrote
it. -/
structure Shared (T : Type*) where
  logger : AsyncLogger
  consumer : ConsumerPoint
  writer : Fin ringCapacity → Option (T × ℕ)
  accepted : List ((T × ℕ) × LogLine)
  emitted : List (Option (T × ℕ) × LogLine)

/-- A thread calls `log`, or makes its next step; `now` is the clock if that is the step
that writes the entry. -/
inductive Act where
  | call (level : LogLevel) (msg : Bytes)
  | advance (now : ℤ)

def Shared.setEntry (g : Shared T) (i : Fin ringCapacity) (entry : LogEntry) : Shared T :=
  { g with logger := { g.logger with ring := Function.update g.logger.ring i entry } }

/-- The entry `log` writes over another one, whose `valid` it does not touch. -/
def LogEntry.overwrite (entry : LogEntry) (level : LogLevel) (msg : Bytes) (now : ℤ) : LogEntry :=
  let copyLen := min msg.length (256 - 1)
  { entry with
    level := level
    message := msg.take copyLen ++ 0 :: entry.message.drop (copyLen + 1)
    timestampUs := now.tdiv 1000 }

/-- The next step of a producer. -/
def advance (t : T) (now : ℤ) (calls : ℕ) (g : Shared T) : Point → Option (Local × Shared T)
  | .idle => none
  | .fetchAdd level msg =>
    some (⟨calls, .test level msg (slot ringCapacity g.logger.head)⟩,
      { g with logger := { g.logger with head := wrap (g.logger.head + 1) } })
  | .test level msg i =>
    if (g.logger.ring i).valid then
      some (⟨calls, .idle⟩,
        { g with logger := { g.logger with dropped := wrap (g.logger.dropped + 1) } })
    else some (⟨calls, .write level msg i⟩, g)
  | .write level msg i =>
    some (⟨calls, .setValid (lineOf level msg now) i⟩,
      { g.setEntry i (LogEntry.overwrite (g.logger.ring i) level msg now) with
        writer := Function.update g.writer i (some (t, calls)) })
  | .setValid line i =>
    some (⟨calls, .idle⟩,
      { g.setEntry i { g.logger.ring i with valid := true } with
        accepted := g.accepted ++ [((t, calls), line)] })

def move (t : T) : Act → Local → Shared T → Option (Local × Shared T)
  | .call level msg, ⟨calls, .idle⟩, g => some (⟨calls + 1, .fetchAdd level msg⟩, g)
  | .call _ _, _, _ => none
  | .advance now, l, g => advance t now l.calls g l.point

/-- The next step of the consumer. -/
def consume (_ : Unit) (g : Shared T) : Shared T :=
  let i := slot ringCapacity g.logger.tail
  match g.consumer with
  | .test => if (g.logger.ring i).valid then { g with consumer := .emit } else g
  | .emit => { g with
      emitted := g.emitted ++ [(g.writer i, (g.logger.ring i).line)]
      consumer := .clear }
  | .clear => { g.setEntry i { g.logger.ring i with valid := false } with consumer := .advance }
  | .advance => { g with
      logger := { g.logger with tail := wrap (g.logger.tail + 1) }
      consumer := .test }

def init : Config T Local (Shared T) where
  locals _ := ⟨0, .idle⟩
  shared := ⟨AsyncLogger.new.start, .test, fun _ => none, [], []⟩

variable [DecidableEq T]

def step : Config T Local (Shared T) → Action T Act Unit → Option (Config T Local (Shared T)) :=
  Threads.step move consume

/-! ## Uninterrupted calls and iterations -/

/-- The first half of a call, up to the test that finds its slot free. -/
theorem exec_claim {c : Config T Local (Shared T)} {t : T} {n : ℕ}
    (hidle : c.locals t = ⟨n, .idle⟩)
    (hfree : (c.shared.logger.ring (slot ringCapacity c.shared.logger.head)).valid = false)
    (level : LogLevel) (msg : Bytes) (now : ℤ) :
    exec step c (.thread t (.call level msg) :: times 2 t (.advance now)) = some
      ⟨Function.update c.locals t
          ⟨n + 1, .write level msg (slot ringCapacity c.shared.logger.head)⟩,
        { c.shared with
          logger := { c.shared.logger with head := wrap (c.shared.logger.head + 1) } }⟩ := by
  simp [exec, step, Threads.step, times, List.replicate, hidle, move, advance, hfree]

/-- The second half: the writing of the slot and the setting of `valid`. -/
theorem exec_fill {c : Config T Local (Shared T)} {t : T} {n : ℕ} {level : LogLevel} {msg : Bytes}
    {i : Fin ringCapacity} (hpoint : c.locals t = ⟨n, .write level msg i⟩) (now : ℤ) :
    exec step c (times 2 t (.advance now)) = some
      ⟨Function.update c.locals t ⟨n, .idle⟩,
        { c.shared.setEntry i
            { LogEntry.overwrite (c.shared.logger.ring i) level msg now with valid := true } with
          writer := Function.update c.shared.writer i (some (t, n))
          accepted := c.shared.accepted ++ [((t, n), lineOf level msg now)] }⟩ := by
  simp [exec, step, Threads.step, times, List.replicate, hpoint, move, advance, Shared.setEntry]

/-- A call that nobody interrupts and that finds its slot free is a call of `log`. -/
theorem exec_log_accept {c : Config T Local (Shared T)} {t : T} {n : ℕ}
    (hidle : c.locals t = ⟨n, .idle⟩)
    (hfree : (c.shared.logger.ring (slot ringCapacity c.shared.logger.head)).valid = false)
    (level : LogLevel) (msg : Bytes) (now : ℤ) :
    exec step c (.thread t (.call level msg) :: times 4 t (.advance now)) = some
      ⟨Function.update c.locals t ⟨n + 1, .idle⟩,
        { c.shared with
          logger := (c.shared.logger.log level msg now).2
          writer := Function.update c.shared.writer (slot ringCapacity c.shared.logger.head)
            (some (t, n + 1))
          accepted := c.shared.accepted ++ [((t, n + 1), lineOf level msg now)] }⟩ := by
  have hhalves : (.thread t (.call level msg) :: times 4 t (.advance now) :
      List (Action T Act Unit)) =
      (.thread t (.call level msg) :: times 2 t (.advance now)) ++ times 2 t (.advance now) := rfl
  rw [hhalves]
  refine exec_append.mpr ⟨_, exec_claim hidle hfree level msg now, ?_⟩
  rw [exec_fill (Function.update_self t _ _), Function.update_idem]
  simp [AsyncLogger.log, hfree, Shared.setEntry, LogEntry.overwrite]

theorem exec_log_drop {c : Config T Local (Shared T)} {t : T} {n : ℕ}
    (hidle : c.locals t = ⟨n, .idle⟩)
    (hfull : (c.shared.logger.ring (slot ringCapacity c.shared.logger.head)).valid = true)
    (level : LogLevel) (msg : Bytes) (now : ℤ) :
    exec step c (.thread t (.call level msg) :: times 2 t (.advance now)) = some
      ⟨Function.update c.locals t ⟨n + 1, .idle⟩,
        { c.shared with logger := (c.shared.logger.log level msg now).2 }⟩ := by
  simp [exec, step, Threads.step, times, List.replicate, hidle, move, advance, hfull,
    AsyncLogger.log]

/-- An iteration on a valid slot is `consumeBody`. -/
theorem exec_consumeBody {c : Config T Local (Shared T)} (hc : c.shared.consumer = .test)
    {line : LogLine} (hline : c.shared.logger.consumeBody.1 = some line) :
    exec step c (List.replicate 4 (.env ())) = some { c with shared := { c.shared with
      logger := c.shared.logger.consumeBody.2
      emitted := c.shared.emitted ++
        [(c.shared.writer (slot ringCapacity c.shared.logger.tail), line)] } } := by
  have hv : (c.shared.logger.ring (slot ringCapacity c.shared.logger.tail)).valid = true := by
    by_contra hv
    simp [AsyncLogger.consumeBody, hv] at hline
  obtain rfl : (c.shared.logger.ring (slot ringCapacity c.shared.logger.tail)).line = line := by
    simpa [AsyncLogger.consumeBody, hv] using hline
  simp [exec, step, Threads.step, consume, hc, hv, AsyncLogger.consumeBody, Shared.setEntry,
    List.replicate]

/-! ## Runs of complete calls and iterations -/

/-- The two models agree, while nobody is inside of a call or an iteration. -/
structure Sequential (t : T) (h : History) (c : Config T Local (Shared T)) : Prop where
  logger : c.shared.logger = h.logger
  accepted : c.shared.accepted.map Prod.snd = h.accepted
  emitted : c.shared.emitted.map Prod.snd = h.emitted
  consumer : c.shared.consumer = .test
  idle : (c.locals t).point = .idle

variable {t : T} {h h' : History} {c : Config T Local (Shared T)}

theorem Sequential.log (hs : Sequential t h c) (level : LogLevel) (msg : Bytes) (now : ℤ)
    (hstep : Logging.step h (.log level msg now) = some h') :
    ∃ as c', exec step c as = some c' ∧ Sequential t h' c' := by
  obtain ⟨n, hidle⟩ : ∃ n, c.locals t = ⟨n, .idle⟩ := ⟨_, congrArg (Local.mk _) hs.idle⟩
  rw [← Option.some.inj hstep, ← hs.logger]
  cases hv : (c.shared.logger.ring (slot ringCapacity c.shared.logger.head)).valid with
  | true =>
    refine ⟨_, _, exec_log_drop hidle hv level msg now, rfl, ?_, hs.emitted, hs.consumer, ?_⟩
    · rw [log_drop hv level msg now]
      exact hs.accepted
    · simp
  | false =>
    obtain ⟨ring, hlog, -⟩ := log_accept hv level msg now
    refine ⟨_, _, exec_log_accept hidle hv level msg now, rfl, ?_, hs.emitted, hs.consumer, ?_⟩
    · rw [hlog]
      simp [hs.accepted]
    · simp

theorem Sequential.iterate (hs : Sequential t h c) (hstep : Logging.step h .iterate = some h') :
    ∃ as c', exec step c as = some c' ∧ Sequential t h' c' := by
  obtain ⟨-, hstep⟩ := Option.ite_none_right_eq_some.mp hstep
  rw [← Option.some.inj hstep, ← hs.logger]
  cases hline : c.shared.logger.consumeBody.1 with
  | some line =>
    refine ⟨_, _, exec_consumeBody hs.consumer hline, rfl, hs.accepted, ?_, hs.consumer, hs.idle⟩
    simp [hs.emitted]
  | none =>
    -- the consumer sleeps
    have hv : (c.shared.logger.ring (slot ringCapacity c.shared.logger.tail)).valid = false := by
      rw [Bool.eq_false_iff]
      intro hv
      simp [AsyncLogger.consumeBody, hv] at hline
    have hbody : c.shared.logger.consumeBody.2 = c.shared.logger := by
      simp [AsyncLogger.consumeBody, hv]
    refine ⟨[], c, rfl, hbody.symm, hs.accepted, ?_, hs.consumer, hs.idle⟩
    simp [hs.emitted]

/-- A run of complete calls and iterations of a running logger is a run of this model. -/
theorem exists_run_of_history (t : T) {events : List Event}
    (hrunning : Event.requestStop ∉ events) (hrun : exec Logging.step .init events = some h) :
    ∃ as c, exec step init as = some c ∧ Sequential t h c := by
  induction events using List.reverseRecOn generalizing h with
  | nil =>
    rw [← Option.some.inj hrun]
    exact ⟨[], init, rfl, rfl, rfl, rfl, rfl, rfl⟩
  | append_singleton events e ih =>
    obtain ⟨u, hu, hlast⟩ := exec_append.mp hrun
    obtain ⟨v, hstep, hend⟩ := exec_cons.mp hlast
    rw [← Option.some.inj hend]
    obtain ⟨as, d, has, hs⟩ := ih (fun hmem => hrunning (List.mem_append_left _ hmem)) hu
    obtain ⟨bs, c, hbs, hs'⟩ : ∃ bs c, exec step d bs = some c ∧ Sequential t v c := by
      cases e with
      | log level msg now => exact hs.log level msg now hstep
      | iterate => exact hs.iterate hstep
      | requestStop => exact absurd (by simp) hrunning
    exact ⟨as ++ bs, c, exec_append.mpr ⟨d, has, hbs⟩, hs'⟩

end Gateway.Logging.Interleaving
