import Gateway.Logging.RingQueue

/-!
# What a dropped entry does to the consumer

After a burst that overflows the ring, `head_` is ahead of the last accepted entry.
The next accepted entry then leaves a free slot behind it, and the consumer, which
waits at the first free slot, never gets past that one.
-/

namespace Gateway.Logging
open RingWindow AsyncLogger Steps

variable {h : History} {q : List LogLine}

/-! ## Free slots in front of entries -/

/-- Entries are pending while the slot the consumer looks at is free. -/
def Stuck (s : AsyncLogger) : Prop :=
  s.hasPending = true ∧ (s.ring (slot ringCapacity s.tail)).valid = false

/-- The first `m` slots from `tail_` on are taken, the next one is free, and some
slot after that is taken. -/
structure Gap (s : AsyncLogger) (m : ℕ) : Prop where
  taken : ∀ k < m, (cells s (slot ringCapacity (s.tail + k))).isSome
  free : cells s (slot ringCapacity (s.tail + m)) = none
  beyond : ∃ j < ringCapacity, m < j ∧ (cells s (slot ringCapacity (s.tail + j))).isSome

theorem hasPending_of_isSome {s : AsyncLogger} {i : Fin ringCapacity} (hi : (cells s i).isSome) :
    s.hasPending = true :=
  (hasPending_iff s).mpr ⟨i, by rwa [isSome_cells] at hi⟩

theorem Gap.stuck {s : AsyncLogger} (hg : Gap s 0) : Stuck s := by
  obtain ⟨j, -, -, hj⟩ := hg.beyond
  refine ⟨hasPending_of_isSome hj, ?_⟩
  rw [← isSome_cells]
  simpa using congrArg Option.isSome hg.free

/-- A stuck consumer sleeps for ever. -/
theorem Stuck.consumeLoop {s : AsyncLogger} (hs : Stuck s) (fuel : ℕ) :
    consumeLoop fuel s = none := by
  have hfree : s.consumeBody = (none, s) := if_neg (by simp [hs.2])
  induction fuel with
  | zero => rw [consumeLoop.eq_def, if_pos (by simp [hs.1])]
  | succ fuel ih =>
    rw [AsyncLogger.consumeLoop, if_pos (by simp [hs.1]), hfree, ih, Option.map_none]

theorem slot_wrap_succ (tail k : ℕ) :
    slot ringCapacity (wrap (tail + 1) + k) = slot ringCapacity (tail + (k + 1)) := by
  rw [slot_eq_iff, Nat.add_mod, wrap_mod, ← Nat.add_mod, Nat.add_right_comm, Nat.add_assoc]

/-- Each iteration prints one of the entries before the gap. -/
theorem Gap.iterate {m : ℕ} (hg : Gap h.logger (m + 1)) :
    ∃ h', step h .iterate = some h' ∧ Gap h'.logger m := by
  have htail := hg.taken 0 m.succ_pos
  obtain ⟨line, hline⟩ := Option.isSome_iff_exists.mp htail
  obtain ⟨ring, hbody, hcells⟩ := consumeBody_valid hline
  have hcond : (h.logger.running || h.logger.hasPending) = true := by
    rw [hasPending_of_isSome htail, Bool.or_true]
  refine ⟨_, if_pos hcond, ?_⟩
  rw [hbody]
  obtain ⟨j, hjN, hmj, hj⟩ := hg.beyond
  -- the freed slot is the one at `tail_`, so no later slot changes
  have hlater : ∀ k, k + 1 < ringCapacity →
      Function.update (cells h.logger) (slot ringCapacity h.logger.tail) none
        (slot ringCapacity (h.logger.tail + (k + 1))) =
      cells h.logger (slot ringCapacity (h.logger.tail + (k + 1))) := by
    intro k hk
    exact Function.update_of_ne
      (mt (slot_add_inj (k := 0) hk (by decide)).mp (Nat.succ_ne_zero k)) _ _
  refine ⟨fun k hk => ?_, ?_, j - 1, by omega, by omega, ?_⟩
  · dsimp only
    rw [hcells, slot_wrap_succ, hlater k (by omega)]
    exact hg.taken (k + 1) (by omega)
  · dsimp only
    rw [hcells, slot_wrap_succ, hlater m (by omega)]
    exact hg.free
  · dsimp only
    rw [hcells, slot_wrap_succ, hlater (j - 1) (by omega), Nat.sub_add_cancel (by omega)]
    exact hj

/-- An entry accepted while the drops are not a multiple of the capacity lands behind
a free slot. -/
theorem Rep.gap_of_misaligned (hr : Rep h q)
    (hv : (h.logger.ring (slot ringCapacity h.logger.head)).valid = false)
    (hd : h.logger.dropped % ringCapacity ≠ 0) (level : LogLevel) (msg : Bytes) (now : ℤ) :
    ∃ h', step h (.log level msg now) = some h' ∧ Gap h'.logger q.length := by
  obtain ⟨ring, hlog, hcells⟩ := Logging.log_accept hv level msg now
  obtain ⟨j, hjN, hj⟩ := exists_slot_add h.logger.tail (slot ringCapacity h.logger.head)
  have hle : q.length ≤ j := by
    have hnone := isSome_cells h.logger (slot ringCapacity h.logger.head)
    rw [hv, ← hj, hr.window.cell j hjN] at hnone
    simpa using hnone
  have hne : q.length ≠ j := by
    rintro rfl
    have hmod : h.logger.tail + q.length + 0 ≡ h.logger.tail + q.length + h.logger.dropped
        [MOD ringCapacity] := (slot_eq_iff.mp hj).trans hr.cursor
    exact hd (Nat.ModEq.add_left_cancel' _ hmod).symm
  have hlt : q.length < j := lt_of_le_of_ne hle hne
  -- slots before the new entry are as they were
  have hbefore : ∀ k < j, Function.update (cells h.logger) (slot ringCapacity (h.logger.tail + j))
        (some (lineOf level msg now)) (slot ringCapacity (h.logger.tail + k)) = q[k]? := by
    intro k hk
    rw [Function.update_of_ne (mt (slot_add_inj (hk.trans hjN) hjN).mp hk.ne),
      hr.window.cell k (hk.trans hjN)]
  refine ⟨_, rfl, ?_⟩
  rw [hlog]
  refine ⟨fun k hk => ?_, ?_, j, hjN, hlt, ?_⟩
  · dsimp only
    rw [hcells, ← hj, hbefore k (hk.trans hlt), List.getElem?_eq_getElem hk]
    rfl
  · dsimp only
    rw [hcells, ← hj, hbefore _ hlt, List.getElem?_eq_none le_rfl]
  · dsimp only
    rw [hcells, ← hj, Function.update_self]
    rfl

theorem Rep.reaches_stuck (hr : Rep h q)
    (hv : (h.logger.ring (slot ringCapacity h.logger.head)).valid = false)
    (hd : h.logger.dropped % ringCapacity ≠ 0) (level : LogLevel) (msg : Bytes) (now : ℤ) :
    ∃ h', exec step h (.log level msg now :: List.replicate q.length .iterate) = some h' ∧
      Stuck h'.logger := by
  obtain ⟨u, hu, hgap⟩ := hr.gap_of_misaligned hv hd level msg now
  obtain ⟨h', hh', hgap⟩ := exec_replicate
    (R := fun (s : History) m => Gap s.logger m) (fun _ _ hg => hg.iterate) hgap
  exact ⟨h', exec_cons.mpr ⟨u, hu, hh'⟩, hgap.stuck⟩

/-! ## Draining at shutdown -/

/-- In every run whose `log` calls are aligned the consumer is not stuck, `stop()` prints
the pending entries and ends; a call that is not aligned makes the consumer stuck once it has
printed the entries before it. -/
theorem stop_drains_of_aligned {events : List Event} {h : History}
    (hG : Meets step Aligned .init events) (hrun : exec step .init events = some h) :
    (h.logger.hasPending = true → (h.logger.ring (slot ringCapacity h.logger.tail)).valid = true) ∧
    (∀ fuel ≥ ringCapacity, ∃ lines t,
      consumeLoop fuel h.logger.requestStop = some (lines, t) ∧ t.hasPending = false ∧
        h.accepted = h.emitted ++ lines) ∧
    (∀ level msg now, ¬ Aligned h (.log level msg now) → ∃ n h',
      exec step h (.log level msg now :: List.replicate n .iterate) = some h' ∧
        Stuck h'.logger) := by
  obtain ⟨q, hr⟩ := rep_of_aligned hG hrun
  refine ⟨fun hp => ?_, fun fuel hfuel => ?_, fun level msg now hna => ?_⟩
  · rw [← isSome_cells, hr.window.cell_start]
    exact List.isSome_head?.mpr (hr.hasPending_iff.mp hp)
  · have hstop : Rep { h with logger := h.logger.requestStop } q :=
      ⟨hr.window, hr.fifo, hr.cursor⟩
    obtain ⟨t, ht, hdone⟩ := hstop.drains rfl (hr.window.length_le.trans hfuel)
    exact ⟨q, t, ht, hdone, hr.fifo⟩
  · obtain ⟨hv, hd⟩ := not_or.mp hna
    obtain ⟨h', hexec, hstuck⟩ := hr.reaches_stuck (by simpa using hv) hd level msg now
    exact ⟨q.length, h', hexec, hstuck⟩

/-! ## A burst of one entry more than the capacity -/

/-- Calls on a ring with room, the drops being a multiple of the capacity. -/
theorem Rep.fill (hr : Rep h q) (hd : h.logger.dropped % ringCapacity = 0) {n : ℕ}
    (hn : q.length + n ≤ ringCapacity) (level : LogLevel) (msg : Bytes) (now : ℤ) :
    ∃ h' q', exec step h (List.replicate n (.log level msg now)) = some h' ∧ Rep h' q' ∧
      q'.length = q.length + n ∧ h'.logger.dropped = h.logger.dropped ∧
      h'.logger.running = h.logger.running := by
  induction n generalizing h q with
  | zero => exact ⟨h, q, rfl, hr, rfl, rfl, rfl⟩
  | succ n ih =>
    have hv := hr.head_free hd (by omega)
    obtain ⟨u, hu, hru, -, hdu, hrunu⟩ := hr.log_accept hv hd level msg now
    have hlen : (q ++ [lineOf level msg now]).length = q.length + 1 := List.length_append
    obtain ⟨h', q', hh', hr', hlen', hd', hrun'⟩ := ih hru (by rw [hdu, hd]) (by omega)
    exact ⟨h', q', exec_cons.mpr ⟨u, hu, hh'⟩, hr', by omega, hd'.trans hdu, hrun'.trans hrunu⟩

/-- Iterations print the queue. -/
theorem Rep.iterates (hr : Rep h q) (hrun : h.logger.running = true) :
    ∃ h', exec step h (List.replicate q.length .iterate) = some h' ∧ Rep h' [] ∧
      h'.logger.dropped = h.logger.dropped := by
  induction q generalizing h with
  | nil => exact ⟨h, rfl, hr, rfl⟩
  | cons line q ih =>
    obtain ⟨u, hu, hru, hdu, hrunu⟩ := hr.iterate (Or.inl hrun)
    obtain ⟨h', hh', hr', hd'⟩ := ih hru (hrunu.trans hrun)
    exact ⟨h', exec_cons.mpr ⟨u, hu, hh'⟩, hr', hd'.trans hdu⟩

/-- The ring after `ringCapacity + 1` calls: all slots taken, one drop. -/
theorem exists_overflowed (level : LogLevel) (msg : Bytes) (now : ℤ) :
    ∃ h q, exec step .init (List.replicate (ringCapacity + 1) (.log level msg now)) = some h ∧
      Rep h q ∧ q.length = ringCapacity ∧ h.logger.dropped = 1 ∧ h.logger.running = true := by
  obtain ⟨t, q, ht, hr, hlen, hd, hrun⟩ :=
    rep_init.fill rfl (Nat.zero_add _).le level msg now
  have hfull : q.length = ringCapacity := hlen.trans (Nat.zero_add _)
  have hv := hr.window.isSome_of_full hfull (slot ringCapacity t.logger.head)
  rw [isSome_cells] at hv
  obtain ⟨h, hh, hrep, hd', hrun'⟩ := hr.log_drop hv level msg now
  refine ⟨h, q, ?_, hrep, hfull, by rw [hd', hd]; rfl, hrun'.trans hrun⟩
  rw [List.replicate_succ']
  exact exec_append.mpr ⟨t, ht, exec_cons.mpr ⟨h, hh, rfl⟩⟩

/-- The ring when one of its entries has then been printed. -/
theorem exists_overflowed_printed (level : LogLevel) (msg : Bytes) (now : ℤ) :
    ∃ h q, exec step .init
        (List.replicate (ringCapacity + 1) (.log level msg now) ++ [.iterate]) = some h ∧
      Rep h q ∧ q.length + 1 = ringCapacity ∧ h.logger.dropped = 1 ∧ h.emitted ≠ [] := by
  obtain ⟨u, q, hu, hr, hlen, hd, hrun⟩ := exists_overflowed level msg now
  obtain ⟨h, hh, hrh, hdh, -⟩ := hr.iterate (Or.inl hrun)
  have hpos : 0 < q.length := by
    rw [hlen]
    decide
  refine ⟨h, q.tail, exec_append.mpr ⟨u, hu, exec_cons.mpr ⟨h, hh, rfl⟩⟩, hrh, ?_,
    hdh.trans hd, ?_⟩
  · rw [List.length_tail]
    omega
  · obtain ⟨-, ht⟩ := Option.ite_none_right_eq_some.mp hh
    rw [← Option.some.inj ht]
    dsimp only
    rw [hr.consumeBody.1, List.head?_eq_some_head (List.ne_nil_of_length_pos hpos)]
    simp

/-- Calls up to the first drop are aligned. -/
theorem Rep.meets_logs (hr : Rep h q) (hd : h.logger.dropped % ringCapacity = 0) {n : ℕ}
    (hn : q.length + n ≤ ringCapacity + 1) (level : LogLevel) (msg : Bytes) (now : ℤ) :
    Meets step Aligned h (List.replicate n (.log level msg now)) := by
  induction n generalizing h q with
  | zero => trivial
  | succ n ih =>
    refine ⟨Or.inr hd, ?_⟩
    intro t ht
    by_cases hfull : q.length = ringCapacity
    · have hzero : n = 0 := by omega
      rw [hzero]
      trivial
    · have hlt := lt_of_le_of_ne hr.window.length_le hfull
      obtain ⟨u, hu, hru, -, hdu, -⟩ := hr.log_accept (hr.head_free hd hlt) hd level msg now
      rw [← Option.some.inj (hu.symm.trans ht)]
      have hlen : (q ++ [lineOf level msg now]).length = q.length + 1 := List.length_append
      exact ih hru (by rw [hdu, hd]) (by omega)

/-- A burst of 1025 entries, one of them dropped and one printed: `stop()` prints the others. -/
theorem stop_drains_of_aligned_burst :
    let events := List.replicate 1025 (Event.log .info (ascii "burst") 0) ++ [.iterate]
    Meets step Aligned .init events ∧ ∃ h, exec step .init events = some h ∧
      h.logger.droppedCount = 1 ∧ h.emitted ≠ [] ∧ ∃ lines t,
        consumeLoop 1024 h.logger.requestStop = some (lines, t) ∧ t.hasPending = false ∧
          h.accepted = h.emitted ++ lines := by
  intro events
  have hG : Meets step Aligned .init events :=
    meets_append (rep_init.meets_logs rfl le_rfl .info (ascii "burst") 0)
      fun _ _ => ⟨trivial, fun _ _ => trivial⟩
  obtain ⟨h, q, hexec, -, -, hd, hemitted⟩ := exists_overflowed_printed .info (ascii "burst") 0
  exact ⟨hG, h, hexec, hd, hemitted,
    (stop_drains_of_aligned hG hexec).2.1 1024 le_rfl⟩

/-- A burst of 1025 entries, all printed, then one more: the consumer waits at a free slot
with an entry pending, and `stop()` does not end. -/
theorem burst_hangs_stop :
    ∃ h, exec step .init (List.replicate 1025 (.log .info (ascii "burst") 0) ++
        (List.replicate 1024 .iterate ++ [.log .info (ascii "late") 0])) = some h ∧
      h.logger.hasPending = true ∧
      (h.logger.ring (slot ringCapacity h.logger.tail)).valid = false ∧
      ∀ fuel, consumeLoop fuel h.logger.requestStop = none := by
  obtain ⟨u, q, hu, hr, hlen, hd, hrun⟩ := exists_overflowed .info (ascii "burst") 0
  obtain ⟨v, hv, hr, hdv⟩ := hr.iterates hrun
  rw [hlen] at hv
  have hfree : (v.logger.ring (slot ringCapacity v.logger.head)).valid = false := by
    rw [← isSome_cells]
    obtain ⟨k, hk, hslot⟩ := exists_slot_add v.logger.tail (slot ringCapacity v.logger.head)
    rw [← hslot, hr.window.cell k hk]
    rfl
  obtain ⟨h, hh, hstuck⟩ :=
    hr.reaches_stuck hfree (by rw [hdv, hd]; decide) .info (ascii "late") 0
  exact ⟨h, exec_append.mpr ⟨u, hu, exec_append.mpr ⟨v, hv, hh⟩⟩, hstuck.1, hstuck.2,
    Stuck.consumeLoop (s := h.logger.requestStop) hstuck⟩

/-! ## The bounded queue -/

/-- A `log` call is made when every slot is taken, or when the number of drops is a
multiple of the capacity. -/
def InStep (h : History) : Event → Prop
  | .log _ _ _ => (∀ i, (h.logger.ring i).valid = true) ∨ h.logger.dropped % ringCapacity = 0
  | .iterate => True
  | .requestStop => True

theorem InStep.aligned {e : Event} (he : InStep h e) : Aligned h e := by
  cases e with
  | log level msg now => exact he.imp_left fun hall => hall _
  | iterate => trivial
  | requestStop => trivial

/-- A call in step is dropped exactly when the queue is full. -/
theorem Rep.head_valid_iff (hr : Rep h q) {level : LogLevel} {msg : Bytes} {now : ℤ}
    (he : InStep h (.log level msg now)) :
    (h.logger.ring (slot ringCapacity h.logger.head)).valid = true ↔ q.length = ringCapacity := by
  constructor
  · intro hv
    by_contra hne
    have hlt := lt_of_le_of_ne hr.window.length_le hne
    rcases he with hall | hd
    · have hend := isSome_cells h.logger (slot ringCapacity (h.logger.tail + q.length))
      rw [hr.window.cell_end hlt, hall] at hend
      simp at hend
    · rw [hr.head_free hd hlt] at hv
      simp at hv
  · intro hfull
    rw [← isSome_cells]
    exact hr.window.isSome_of_full hfull _

/-- In every run whose `log` calls are in step the printed entries are a prefix of the
accepted ones, and a call is refused, and counted as one drop, exactly when `ringCapacity`
accepted entries are still to be printed. -/
theorem bounded_fifo_of_inStep {events : List Event} {h : History}
    (hG : Meets step InStep .init events) (hrun : exec step .init events = some h) :
    h.emitted <+: h.accepted ∧
    ∀ level msg now, InStep h (.log level msg now) →
      ((h.logger.log level msg now).1 = false ↔
        h.accepted.length = h.emitted.length + ringCapacity) ∧
      (h.logger.log level msg now).2.droppedCount =
        if h.accepted.length = h.emitted.length + ringCapacity
        then wrap (h.logger.droppedCount + 1) else h.logger.droppedCount := by
  obtain ⟨q, hr⟩ := rep_of_aligned (hG.mono fun _ _ he => he.aligned) hrun
  refine ⟨⟨q, hr.fifo.symm⟩, fun level msg now he => ?_⟩
  have hfull : h.accepted.length = h.emitted.length + ringCapacity ↔
      (h.logger.ring (slot ringCapacity h.logger.head)).valid = true := by
    rw [hr.head_valid_iff he, hr.fifo, List.length_append, Nat.add_left_cancel_iff]
  cases hv : (h.logger.ring (slot ringCapacity h.logger.head)).valid with
  | true =>
    have hlen := hfull.mpr hv
    rw [log_drop hv level msg now, if_pos hlen]
    exact ⟨iff_of_true rfl hlen, rfl⟩
  | false =>
    have hlen := mt hfull.mp (by simp [hv])
    obtain ⟨ring, hlog, -⟩ := log_accept hv level msg now
    rw [hlog, if_neg hlen]
    exact ⟨iff_of_false (by simp) hlen, rfl⟩

theorem bounded_fifo_of_inStep_two :
    let events := [Event.log .warn (ascii "link down") 5000, .iterate]
    Meets step InStep .init events ∧ ∃ h, exec step .init events = some h ∧
      h.emitted <+: h.accepted := by
  obtain ⟨u, hu, hr, -, -, hrun⟩ := rep_init.log_accept rfl rfl .warn (ascii "link down") 5000
  obtain ⟨h, hh, -⟩ := hr.iterate (Or.inl hrun)
  have hG : Meets step InStep .init [Event.log .warn (ascii "link down") 5000, .iterate] :=
    ⟨Or.inr rfl, fun _ _ => ⟨trivial, fun _ _ => trivial⟩⟩
  have hexec := exec_cons.mpr ⟨u, hu, exec_cons.mpr ⟨h, hh, exec_nil h⟩⟩
  exact ⟨hG, h, hexec, (bounded_fifo_of_inStep hG hexec).1⟩

/-- A burst of 1025 entries, one of them printed: the next call is refused although only
1023 entries are left in the ring. -/
theorem burst_refuses_early :
    ∃ h, exec step .init (List.replicate 1025 (.log .info (ascii "burst") 0) ++ [.iterate]) =
        some h ∧
      h.accepted.length = h.emitted.length + 1023 ∧
      (h.logger.log .info (ascii "late") 0).1 = false := by
  obtain ⟨h, q, hh, hr, hlen, hd, -⟩ := exists_overflowed_printed .info (ascii "burst") 0
  have hlen' : q.length = 1023 := Nat.succ_injective hlen
  refine ⟨h, hh, ?_, ?_⟩
  · rw [hr.fifo, List.length_append, hlen']
  -- `head_` is back at the first entry
  · have hhead : slot ringCapacity h.logger.head = slot ringCapacity h.logger.tail := by
      rw [slot_eq_iff, hr.cursor, hlen', hd, Nat.add_assoc]
      exact Nat.add_mod_right _ 1024
    have hv : (h.logger.ring (slot ringCapacity h.logger.head)).valid = true := by
      rw [← isSome_cells, hhead, hr.window.cell_start]
      exact List.isSome_head?.mpr (List.ne_nil_of_length_pos (by omega))
    rw [log_drop hv]

end Gateway.Logging
