import Gateway.Logging.AsyncLogger

/-!
# The ring buffer as a bounded queue

`head_` moves on every call, also on a dropped one, while `tail_` moves with the
entries. As long as entries are accepted only when the number of drops is a
multiple of the capacity, the valid slots are a window that starts at `tail_`.
-/

namespace Gateway.Logging
open RingWindow AsyncLogger Steps

/-- The lines in the valid slots. -/
def cells (s : AsyncLogger) (i : Fin ringCapacity) : Option LogLine :=
  if (s.ring i).valid then some (s.ring i).line else none

theorem isSome_cells (s : AsyncLogger) (i : Fin ringCapacity) :
    (cells s i).isSome = (s.ring i).valid := by
  unfold cells
  split_ifs with h <;> simp [h]

theorem hasPending_iff (s : AsyncLogger) : s.hasPending = true ↔ ∃ i, (s.ring i).valid = true := by
  simp [hasPending]

theorem wrap_mod (n : ℕ) : wrap n % ringCapacity = n % ringCapacity :=
  Nat.mod_mod_of_dvd n (by decide)

/-! ## One call, one iteration -/

theorem log_drop {s : AsyncLogger} (hv : (s.ring (slot ringCapacity s.head)).valid = true)
    (level : LogLevel) (msg : Bytes) (now : ℤ) :
    s.log level msg now =
      (false, { s with head := wrap (s.head + 1), dropped := wrap (s.dropped + 1) }) :=
  if_pos hv

/-- An accepted call fills the free slot at `head_` with its line. -/
theorem log_accept {s : AsyncLogger} (hv : (s.ring (slot ringCapacity s.head)).valid = false)
    (level : LogLevel) (msg : Bytes) (now : ℤ) :
    ∃ ring, s.log level msg now = (true, { s with head := wrap (s.head + 1), ring := ring }) ∧
      cells { s with head := wrap (s.head + 1), ring := ring } =
        Function.update (cells s) (slot ringCapacity s.head) (some (lineOf level msg now)) := by
  refine ⟨_, if_neg (by simp [hv]), ?_⟩
  funext i
  by_cases hi : i = slot ringCapacity s.head
  · subst hi
    have hcut : msg.take (min msg.length (256 - 1)) = msg.take 255 :=
      List.take_eq_take_iff.mpr (by omega)
    simp [cells, LogEntry.line, lineOf, cStr_append_nul, hcut]
  · simp [cells, hi]

/-- An iteration on a valid slot prints its line and frees it. -/
theorem consumeBody_valid {s : AsyncLogger} {line : LogLine}
    (hc : cells s (slot ringCapacity s.tail) = some line) :
    ∃ ring, s.consumeBody = (some line, { s with tail := wrap (s.tail + 1), ring := ring }) ∧
      cells { s with tail := wrap (s.tail + 1), ring := ring } =
        Function.update (cells s) (slot ringCapacity s.tail) none := by
  obtain ⟨hv, rfl⟩ : (s.ring (slot ringCapacity s.tail)).valid = true ∧
      (s.ring (slot ringCapacity s.tail)).line = line := by
    simpa [cells] using hc
  refine ⟨_, if_pos hv, ?_⟩
  funext i
  by_cases hi : i = slot ringCapacity s.tail <;> simp [cells, hi]

theorem consumeBody_free {s : AsyncLogger} (hc : cells s (slot ringCapacity s.tail) = none) :
    s.consumeBody = (none, s) := by
  have hv := isSome_cells s (slot ringCapacity s.tail)
  rw [hc] at hv
  exact if_neg (by simp [← hv])

/-! ## The queue in the ring -/

/-- The ring holds the accepted lines that were not printed yet, in order; `head_`
is ahead of their end by the number of drops. -/
structure Rep (h : History) (q : List LogLine) : Prop where
  window : Window (cells h.logger) h.logger.tail q
  fifo : h.accepted = h.emitted ++ q
  cursor : h.logger.head % ringCapacity =
    (h.logger.tail + q.length + h.logger.dropped) % ringCapacity

theorem rep_init : Rep .init [] where
  window := Window.nil _
  fifo := rfl
  cursor := rfl

variable {h : History} {q : List LogLine}

theorem Rep.log_drop (hr : Rep h q)
    (hv : (h.logger.ring (slot ringCapacity h.logger.head)).valid = true)
    (level : LogLevel) (msg : Bytes) (now : ℤ) :
    ∃ h', step h (.log level msg now) = some h' ∧ Rep h' q ∧
      h'.logger.dropped = wrap (h.logger.dropped + 1) ∧
      h'.logger.running = h.logger.running := by
  have hlog := Logging.log_drop hv level msg now
  refine ⟨⟨(h.logger.log level msg now).2, h.accepted, h.emitted⟩, by simp [step, hlog], ?_⟩
  rw [hlog]
  refine ⟨⟨hr.window, hr.fifo, ?_⟩, rfl, rfl⟩
  dsimp only
  rw [wrap_mod, Nat.add_mod _ (wrap _), wrap_mod, ← Nat.add_mod, Nat.add_mod, hr.cursor,
    ← Nat.add_mod, Nat.add_assoc]

theorem Rep.slot_head (hr : Rep h q) (hd : h.logger.dropped % ringCapacity = 0) :
    slot ringCapacity h.logger.head = slot ringCapacity (h.logger.tail + q.length) := by
  rw [slot_eq_iff, hr.cursor, Nat.add_mod, hd, Nat.add_zero, Nat.mod_mod]

theorem Rep.head_free (hr : Rep h q) (hd : h.logger.dropped % ringCapacity = 0)
    (hq : q.length < ringCapacity) :
    (h.logger.ring (slot ringCapacity h.logger.head)).valid = false := by
  rw [← isSome_cells, hr.slot_head hd, hr.window.cell_end hq]
  rfl

/-- A call that finds its slot free while the drops are a multiple of the capacity
appends its line to the queue. -/
theorem Rep.log_accept (hr : Rep h q)
    (hv : (h.logger.ring (slot ringCapacity h.logger.head)).valid = false)
    (hd : h.logger.dropped % ringCapacity = 0) (level : LogLevel) (msg : Bytes) (now : ℤ) :
    ∃ h', step h (.log level msg now) = some h' ∧ Rep h' (q ++ [lineOf level msg now]) ∧
      q.length < ringCapacity ∧ h'.logger.dropped = h.logger.dropped ∧
      h'.logger.running = h.logger.running := by
  obtain ⟨ring, hlog, hcells⟩ := Logging.log_accept hv level msg now
  have hlt : q.length < ringCapacity := by
    apply lt_of_le_of_ne hr.window.length_le
    intro hfull
    have := hr.window.isSome_of_full hfull (slot ringCapacity h.logger.head)
    rw [isSome_cells, hv] at this
    exact absurd this (by simp)
  have hhead := hr.slot_head hd
  refine ⟨⟨(h.logger.log level msg now).2, h.accepted ++ [lineOf level msg now], h.emitted⟩,
    by simp [step, hlog], ?_⟩
  rw [hlog]
  refine ⟨⟨?_, ?_, ?_⟩, hlt, rfl, rfl⟩
  · dsimp only
    rw [hcells, hhead]
    exact hr.window.push hlt _
  · dsimp only
    rw [hr.fifo, List.append_assoc]
  · dsimp only
    rw [wrap_mod, List.length_append, List.length_singleton, ← Nat.add_assoc, Nat.add_right_comm,
      Nat.add_mod, hr.cursor, ← Nat.add_mod]

/-- There is something pending exactly when the queue is not empty. -/
theorem Rep.hasPending_iff (hr : Rep h q) : h.logger.hasPending = true ↔ q ≠ [] := by
  rw [Logging.hasPending_iff]
  constructor
  · rintro ⟨i, hi⟩ rfl
    obtain ⟨k, hk, rfl⟩ := exists_slot_add h.logger.tail i
    rw [← isSome_cells, hr.window.cell k hk] at hi
    simp at hi
  · intro hne
    refine ⟨slot ringCapacity h.logger.tail, ?_⟩
    rw [← isSome_cells, hr.window.cell_start]
    exact List.isSome_head?.mpr hne

/-- An iteration prints the first line of the queue, or sleeps when there is none. -/
theorem Rep.consumeBody (hr : Rep h q) :
    h.logger.consumeBody.1 = q.head? ∧
      Rep ⟨h.logger.consumeBody.2, h.accepted, h.emitted ++ q.head?.toList⟩ q.tail ∧
      h.logger.consumeBody.2.dropped = h.logger.dropped ∧
      h.logger.consumeBody.2.running = h.logger.running := by
  cases q with
  | nil =>
    rw [consumeBody_free (by rw [hr.window.cell_start]; rfl)]
    exact ⟨rfl, ⟨hr.window, hr.fifo.trans (by simp), hr.cursor⟩, rfl, rfl⟩
  | cons line q =>
    obtain ⟨ring, hbody, hcells⟩ := consumeBody_valid (hr.window.cell_start)
    rw [hbody]
    refine ⟨rfl, ⟨?_, ?_, ?_⟩, rfl, rfl⟩
    · dsimp only
      rw [hcells]
      exact hr.window.pop.of_mod_eq (wrap_mod _)
    · simpa using hr.fifo
    · dsimp only [List.tail_cons]
      rw [hr.cursor, Nat.add_assoc (wrap _), Nat.add_mod (wrap _), wrap_mod, ← Nat.add_mod,
        List.length_cons]
      congr 1
      omega

theorem Rep.iterate (hr : Rep h q) (hrun : h.logger.running = true ∨ q ≠ []) :
    ∃ h', step h .iterate = some h' ∧ Rep h' q.tail ∧
      h'.logger.dropped = h.logger.dropped ∧ h'.logger.running = h.logger.running := by
  obtain ⟨hline, hrep, hd, hr'⟩ := hr.consumeBody
  have hcond : (h.logger.running || h.logger.hasPending) = true := by
    rw [Bool.or_eq_true, hr.hasPending_iff]
    exact hrun
  refine ⟨_, ?_, hrep, hd, hr'⟩
  simp only [step, hcond, ↓reduceIte, hline]

/-! ## Runs that keep the cursors together -/

/-- A `log` call is dropped, or is made when the number of drops is a multiple of
the capacity. -/
def Aligned (h : History) : Event → Prop
  | .log _ _ _ => (h.logger.ring (slot ringCapacity h.logger.head)).valid = true ∨
      h.logger.dropped % ringCapacity = 0
  | .iterate => True
  | .requestStop => True

theorem rep_step {h h' : History} {q : List LogLine} {e : Event} (hr : Rep h q) (hG : Aligned h e)
    (hs : step h e = some h') : ∃ q', Rep h' q' := by
  cases e with
  | log level msg now =>
    cases hv : (h.logger.ring (slot ringCapacity h.logger.head)).valid with
    | true =>
      obtain ⟨t, ht, hrep, -⟩ := hr.log_drop hv level msg now
      cases hs.symm.trans ht
      exact ⟨q, hrep⟩
    | false =>
      obtain ⟨t, ht, hrep, -⟩ := hr.log_accept hv (hG.resolve_left (by simp [hv])) level msg now
      cases hs.symm.trans ht
      exact ⟨_, hrep⟩
  | iterate =>
    have hrun : h.logger.running = true ∨ q ≠ [] := by
      rw [← hr.hasPending_iff, ← Bool.or_eq_true]
      by_contra hcond
      simp [step, hcond] at hs
    obtain ⟨t, ht, hrep, -⟩ := hr.iterate hrun
    cases hs.symm.trans ht
    exact ⟨_, hrep⟩
  | requestStop =>
    cases hs
    exact ⟨q, hr.window, hr.fifo, hr.cursor⟩

theorem rep_of_aligned {events : List Event} {h : History} (hG : Meets step Aligned .init events)
    (hrun : exec step .init events = some h) : ∃ q, Rep h q :=
  invariant_of_meets (I := fun h => ∃ q, Rep h q)
    (fun _ _ _ ⟨_, hr⟩ hG hs => rep_step hr hG hs) ⟨[], rep_init⟩ hG hrun

/-- Once no more calls are made, the loop prints the queue and ends. -/
theorem Rep.drains (hr : Rep h q) (hstop : h.logger.running = false) {fuel : ℕ}
    (hfuel : q.length ≤ fuel) :
    ∃ t, consumeLoop fuel h.logger = some (q, t) ∧ t.hasPending = false := by
  induction q generalizing h fuel with
  | nil =>
    have hp : h.logger.hasPending = false := by simpa using hr.hasPending_iff
    refine ⟨h.logger, ?_, hp⟩
    rw [consumeLoop.eq_def, if_neg (by simp [hstop, hp])]
  | cons line q ih =>
    have hp : h.logger.hasPending = true := hr.hasPending_iff.mpr (List.cons_ne_nil _ _)
    obtain ⟨hline, hrep, -, hrun⟩ := hr.consumeBody
    cases fuel with
    | zero => exact absurd hfuel (by simp)
    | succ fuel =>
      obtain ⟨t, ht, hdone⟩ := ih hrep (hrun.trans hstop) (Nat.le_of_succ_le_succ hfuel)
      refine ⟨t, ?_, hdone⟩
      rw [consumeLoop, if_pos (by simp [hp])]
      dsimp only at ht ⊢
      rw [ht, hline]
      rfl

end Gateway.Logging
