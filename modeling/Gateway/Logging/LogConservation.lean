import Gateway.Logging.Overflow
import Mathlib.Data.Multiset.Basic

/-!
# No accepted entry is lost, overwritten or printed twice

What was accepted is what was printed and what the valid slots hold, over any number of
laps of the ring and of drops. `dropped_` counts the refused calls modulo 2^64.
-/

namespace Gateway.Logging
open RingWindow AsyncLogger Steps
open scoped List

/-- The level and the message of a line. -/
def LogLine.pair (line : LogLine) : LogLevel × Bytes := (line.level, line.text)

def Event.isLog : Event → Bool
  | .log _ _ _ => true
  | .iterate => false
  | .requestStop => false

/-- How many `log` calls are made. -/
def logCalls (events : List Event) : ℕ := events.countP Event.isLog

/-- What a call that returns true leaves to print, the message cut to its first 255 bytes. -/
def acceptedPair (s : AsyncLogger) : Event → List (LogLevel × Bytes)
  | .log level msg now => if (s.log level msg now).1 then [(level, msg.take 255)] else []
  | .iterate => []
  | .requestStop => []

/-- What the calls that return true leave to print. -/
def acceptedPairs : History → List Event → List (LogLevel × Bytes)
  | _, [] => []
  | h, e :: events => acceptedPair h.logger e ++ (step h e).elim [] (acceptedPairs · events)

/-- The levels and the messages in the valid slots. -/
def validPairs (s : AsyncLogger) : List (LogLevel × Bytes) :=
  (contents (cells s)).map LogLine.pair

/-- The slots at the positions from `tail_` to `head_ - 1`; the distance is a `size_t`. -/
def betweenCursors (s : AsyncLogger) (i : Fin ringCapacity) : Prop :=
  ∃ k < (s.head + 2 ^ 64 - s.tail) % 2 ^ 64, i = slot ringCapacity (s.tail + k)

/-! ## One step -/

/-- What holds after a number of calls; without a refused one the ring is a window between
the cursors. -/
structure Conserved (h : History) (calls : ℕ) : Prop where
  counted : ∃ refused, calls = h.accepted.length + refused ∧ h.logger.dropped = wrap refused
  kept : h.accepted.Perm (h.emitted ++ contents (cells h.logger))
  window : calls = h.accepted.length →
    ∃ q, Rep h q ∧ h.logger.head = wrap (h.logger.tail + q.length)
  tail_lt : h.logger.tail < 2 ^ 64

variable {h t : History} {calls : ℕ}

theorem conserved_init : Conserved .init 0 where
  counted := ⟨0, rfl, rfl⟩
  kept := by
    have hcells : cells History.init.logger = fun _ => none := rfl
    rw [hcells, contents, List.filterMap_none]
    exact List.Perm.refl _
  window _ := ⟨[], rep_init, rfl⟩
  tail_lt := by decide

theorem wrap_lt (n : ℕ) : wrap n < 2 ^ 64 := Nat.mod_lt n (by decide)

theorem wrap_wrap_add (m n : ℕ) : wrap (wrap m + n) = wrap (m + n) := Nat.mod_add_mod m _ n

theorem Conserved.log_drop (hc : Conserved h calls)
    (hv : (h.logger.ring (slot ringCapacity h.logger.head)).valid = true)
    (level : LogLevel) (msg : Bytes) (now : ℤ) (hs : step h (.log level msg now) = some t) :
    Conserved t (calls + 1) := by
  have hlog := Logging.log_drop hv level msg now
  obtain rfl := Option.some.inj hs
  rw [hlog]
  obtain ⟨refused, hcalls, hdropped⟩ := hc.counted
  refine ⟨⟨refused + 1, ?_, ?_⟩, hc.kept, fun hall => ?_, hc.tail_lt⟩
  · rw [hcalls, Nat.add_assoc]
    rfl
  · dsimp only
    rw [hdropped, wrap_wrap_add]
  · have hlen : calls + 1 = h.accepted.length := hall
    omega

theorem Conserved.log_accept (hc : Conserved h calls)
    (hv : (h.logger.ring (slot ringCapacity h.logger.head)).valid = false)
    (level : LogLevel) (msg : Bytes) (now : ℤ) (hs : step h (.log level msg now) = some t) :
    Conserved t (calls + 1) := by
  obtain ⟨ring, hlog, hcells⟩ := Logging.log_accept hv level msg now
  obtain ⟨refused, hcalls, hdropped⟩ := hc.counted
  have hfree : cells h.logger (slot ringCapacity h.logger.head) = none := by
    simp [cells, hv]
  have ht : t = ⟨⟨ring, wrap (h.logger.head + 1), h.logger.tail, h.logger.running,
      h.logger.dropped⟩, h.accepted ++ [lineOf level msg now], h.emitted⟩ := by
    rw [← Option.some.inj hs, hlog]
    rfl
  refine ⟨⟨refused, ?_, ?_⟩, ?_, fun hall => ?_, by rw [ht]; exact hc.tail_lt⟩
  · rw [ht, hcalls, List.length_append, List.length_singleton]
    omega
  · rw [ht, hdropped]
  · rw [ht]
    dsimp only
    rw [hcells]
    calc h.accepted ++ [lineOf level msg now]
      _ ~ lineOf level msg now :: h.accepted := List.perm_append_singleton _ _
      _ ~ lineOf level msg now :: (h.emitted ++ contents (cells h.logger)) := hc.kept.cons _
      _ ~ h.emitted ++ lineOf level msg now :: contents (cells h.logger) := List.perm_middle.symm
      _ ~ _ := (contents_take hfree).symm.append_left _
  · have hlen : calls = h.accepted.length := by
      rw [ht, List.length_append, List.length_singleton] at hall
      omega
    -- as long as every call was accepted, the drops are none
    have hzero : refused = 0 := by omega
    obtain ⟨q, hr, hhead⟩ := hc.window hlen
    obtain ⟨u, hu, hrep, -⟩ := hr.log_accept hv (by rw [hdropped, hzero]; rfl) level msg now
    obtain rfl := Option.some.inj (hs.symm.trans hu)
    refine ⟨_, hrep, ?_⟩
    rw [ht]
    dsimp only
    rw [hhead, wrap_wrap_add, List.length_append, List.length_singleton, Nat.add_assoc]

theorem Conserved.iterate (hc : Conserved h calls) (hs : step h .iterate = some t) :
    Conserved t calls := by
  obtain ⟨-, ht⟩ := Option.ite_none_right_eq_some.mp hs
  obtain rfl := Option.some.inj ht
  cases hcell : cells h.logger (slot ringCapacity h.logger.tail) with
  | none =>
    rw [consumeBody_free hcell, Option.toList_none, List.append_nil]
    exact hc
  | some line =>
    obtain ⟨ring, hbody, hcells⟩ := consumeBody_valid hcell
    refine ⟨?_, ?_, fun hall => ?_, by rw [hbody]; exact wrap_lt _⟩
    · rw [hbody]
      exact hc.counted
    · rw [hbody]
      dsimp only
      rw [hcells, Option.toList_some, List.append_assoc, List.singleton_append]
      exact hc.kept.trans ((contents_free hcell).append_left _)
    · dsimp only at hall
      obtain ⟨q, hr, hhead⟩ := hc.window hall
      obtain ⟨hline, hrep, -⟩ := hr.consumeBody
      rw [hline]
      refine ⟨q.tail, hrep, ?_⟩
      have hhead? : q.head? = some line := by
        rw [← hr.window.cell_start]
        exact hcell
      have hlength : q.length = q.tail.length + 1 := by
        obtain ⟨q', rfl⟩ := List.head?_eq_some_iff.mp hhead?
        rfl
      rw [hbody]
      dsimp only
      rw [hhead, hlength, wrap_wrap_add, Nat.add_assoc, Nat.add_comm 1]

theorem Conserved.of_step (hc : Conserved h calls) {e : Event} (hs : step h e = some t) :
    Conserved t (calls + if e.isLog then 1 else 0) := by
  cases e with
  | log level msg now =>
    cases hv : (h.logger.ring (slot ringCapacity h.logger.head)).valid with
    | true => exact hc.log_drop hv level msg now hs
    | false => exact hc.log_accept hv level msg now hs
  | iterate => exact hc.iterate hs
  | requestStop =>
    obtain rfl := Option.some.inj hs
    refine ⟨hc.counted, hc.kept, fun hall => ?_, hc.tail_lt⟩
    obtain ⟨q, hr, hhead⟩ := hc.window hall
    exact ⟨q, ⟨hr.window, hr.fifo, hr.cursor⟩, hhead⟩

theorem acceptedPair_of_step {e : Event} (hs : step h e = some t)
    (hnul : ∀ level msg now, e = .log level msg now → 0 ∉ msg) :
    t.accepted.map LogLine.pair = h.accepted.map LogLine.pair ++ acceptedPair h.logger e := by
  cases e with
  | log level msg now =>
    have htext : cStr (msg.take 255) = msg.take 255 :=
      takeWhile_bne_of_notMem fun h => hnul level msg now rfl (List.mem_of_mem_take h)
    obtain rfl := Option.some.inj hs
    dsimp only [acceptedPair]
    split_ifs
    · rw [List.map_append, List.map_singleton, LogLine.pair, lineOf, htext]
    · rw [List.append_nil]
  | iterate =>
    obtain ⟨-, ht⟩ := Option.ite_none_right_eq_some.mp hs
    obtain rfl := Option.some.inj ht
    exact (List.append_nil _).symm
  | requestStop =>
    obtain rfl := Option.some.inj hs
    exact (List.append_nil _).symm

/-! ## Runs -/

theorem Conserved.of_exec {events : List Event} (hc : Conserved h calls)
    (hrun : exec step h events = some t) : Conserved t (calls + logCalls events) := by
  induction events generalizing h calls with
  | nil =>
    obtain rfl := Option.some.inj hrun
    exact hc
  | cons e events ih =>
    obtain ⟨u, hu, hrun⟩ := exec_cons.mp hrun
    have ht := ih (hc.of_step hu) hrun
    rwa [Nat.add_assoc, Nat.add_comm (ite _ _ _), logCalls, ← List.countP_cons] at ht

theorem acceptedPairs_of_exec {events : List Event} (hrun : exec step h events = some t)
    (hnul : ∀ level msg now, .log level msg now ∈ events → 0 ∉ msg) :
    t.accepted.map LogLine.pair = h.accepted.map LogLine.pair ++ acceptedPairs h events := by
  induction events generalizing h with
  | nil =>
    obtain rfl := Option.some.inj hrun
    exact (List.append_nil _).symm
  | cons e events ih =>
    obtain ⟨u, hu, hrun⟩ := exec_cons.mp hrun
    have hstep := acceptedPair_of_step hu fun level msg now he =>
      hnul level msg now (he ▸ List.mem_cons_self)
    rw [acceptedPairs, hu, Option.elim_some, ← List.append_assoc, ← hstep]
    exact ih hrun fun level msg now he => hnul level msg now (List.mem_cons_of_mem e he)

/-- The valid slots of a window are those between the cursors. -/
theorem Rep.valid_iff {q : List LogLine} (hr : Rep h q)
    (hhead : h.logger.head = wrap (h.logger.tail + q.length)) (htail : h.logger.tail < 2 ^ 64)
    (i : Fin ringCapacity) :
    (h.logger.ring i).valid = true ↔ betweenCursors h.logger i := by
  have hcap : ringCapacity < 2 ^ 64 := by decide
  have hle := hr.window.length_le
  have hdist : (h.logger.head + 2 ^ 64 - h.logger.tail) % 2 ^ 64 = q.length := by
    rw [hhead, wrap]
    omega
  rw [betweenCursors, hdist, ← isSome_cells]
  constructor
  · intro hi
    obtain ⟨k, hk, rfl⟩ := exists_slot_add h.logger.tail i
    rw [hr.window.cell k hk, isSome_getElem?] at hi
    exact ⟨k, by simpa using hi, rfl⟩
  · rintro ⟨k, hk, rfl⟩
    rw [hr.window.cell k (hk.trans_le hle), List.getElem?_eq_getElem hk]
    rfl

/-- In every run, the calls are those accepted and those refused, `dropped_` counts the
refused ones modulo 2^64, what was accepted is what was printed and what the valid slots
hold, and as long as no call is refused the valid slots are those between the cursors. -/
theorem log_conservation {events : List Event} {h : History}
    (hrun : exec step .init events = some h)
    (hnul : ∀ level msg now, .log level msg now ∈ events → 0 ∉ msg) :
    (∃ refused, logCalls events = (acceptedPairs .init events).length + refused ∧
      h.logger.droppedCount = refused % 2 ^ 64) ∧
    (acceptedPairs .init events : Multiset (LogLevel × Bytes)) =
      (h.emitted.map LogLine.pair : Multiset (LogLevel × Bytes)) + validPairs h.logger ∧
    (logCalls events = (acceptedPairs .init events).length →
      ∀ i, (h.logger.ring i).valid = true ↔ betweenCursors h.logger i) := by
  have hc := conserved_init.of_exec hrun
  rw [Nat.zero_add] at hc
  have hpairs : h.accepted.map LogLine.pair = acceptedPairs .init events :=
    acceptedPairs_of_exec hrun hnul
  rw [← hpairs, List.length_map]
  refine ⟨hc.counted, ?_, fun hall => ?_⟩
  · rw [Multiset.coe_add, Multiset.coe_eq_coe, validPairs, ← List.map_append]
    exact hc.kept.map _
  · obtain ⟨q, hr, hhead⟩ := hc.window hall
    exact hr.valid_iff hhead hc.tail_lt

/-- A call is refused, and an entry is printed. -/
theorem log_conservation_burst :
    let events := List.replicate 1025 (Event.log .info (ascii "burst") 0) ++ [.iterate]
    ∃ h, exec step .init events = some h ∧ h.logger.droppedCount = 1 ∧ h.emitted ≠ [] ∧
      (∃ refused, logCalls events = (acceptedPairs .init events).length + refused ∧
        h.logger.droppedCount = refused % 2 ^ 64) ∧
      (acceptedPairs .init events : Multiset (LogLevel × Bytes)) =
        (h.emitted.map LogLine.pair : Multiset (LogLevel × Bytes)) + validPairs h.logger := by
  intro events
  have hnul : ∀ level msg now, .log level msg now ∈ events → 0 ∉ msg := by
    intro level msg now hmem
    rcases List.mem_append.mp hmem with hlog | hiterate
    · cases List.eq_of_mem_replicate hlog
      decide
    · exact absurd hiterate (by simp)
  obtain ⟨h, q, hexec, -, -, hd, hemitted⟩ := exists_overflowed_printed .info (ascii "burst") 0
  obtain ⟨hcounted, hkept, -⟩ := log_conservation hexec hnul
  exact ⟨h, hexec, hd, hemitted, hcounted, hkept⟩

/-! ## The counter wraps around -/

/-- Calls on a full ring are refused. -/
theorem refuse_all {d : ℕ} (hfull : ∀ i, (h.logger.ring i).valid = true)
    (hd : h.logger.dropped = wrap d) (n : ℕ) (level : LogLevel) (msg : Bytes) (now : ℤ) :
    ∃ t, exec step h (List.replicate n (.log level msg now)) = some t ∧
      t.accepted = h.accepted ∧ t.logger.dropped = wrap (d + n) := by
  induction n generalizing h d with
  | zero => exact ⟨h, rfl, rfl, hd⟩
  | succ n ih =>
    have hlog := log_drop (hfull _) level msg now
    let u : History := ⟨(h.logger.log level msg now).2, h.accepted, h.emitted⟩
    have hu : step h (.log level msg now) = some u := by
      simp [step, hlog, u]
    have hdu : u.logger.dropped = wrap (d + 1) := by
      simp only [u, hlog, hd, wrap_wrap_add]
    have hfullu : ∀ i, (u.logger.ring i).valid = true := by
      simpa only [u, hlog] using hfull
    obtain ⟨t, ht, haccepted, hdt⟩ := ih hfullu hdu
    refine ⟨t, exec_cons.mpr ⟨u, hu, ht⟩, haccepted, ?_⟩
    rw [hdt, Nat.add_assoc, Nat.add_comm 1]

theorem logCalls_replicate (n : ℕ) (level : LogLevel) (msg : Bytes) (now : ℤ) :
    logCalls (List.replicate n (.log level msg now)) = n := by
  rw [logCalls, List.countP_replicate, if_pos (by rfl)]

/-- Calls that nothing is printed between: those after the first `ringCapacity` are refused. -/
theorem exists_refused (n : ℕ) (level : LogLevel) {msg : Bytes} (hmsg : 0 ∉ msg) (now : ℤ) :
    ∃ h, exec step .init (List.replicate (ringCapacity + n) (.log level msg now)) = some h ∧
      (acceptedPairs .init (List.replicate (ringCapacity + n) (.log level msg now))).length ≤
        ringCapacity ∧
      h.logger.droppedCount = wrap n := by
  obtain ⟨u, q, hu, hr, hlen, hd, -⟩ := rep_init.fill rfl (Nat.zero_add _).le level msg now
  have hfull : ∀ i, (u.logger.ring i).valid = true := by
    intro i
    rw [← isSome_cells]
    exact hr.window.isSome_of_full (hlen.trans (Nat.zero_add _)) i
  obtain ⟨h, hh, haccepted, hdh⟩ := refuse_all (d := 0) hfull hd n level msg now
  have hrun : exec step .init (List.replicate (ringCapacity + n) (.log level msg now)) =
      some h := by
    rw [List.replicate_add]
    exact exec_append.mpr ⟨u, hu, hh⟩
  refine ⟨h, hrun, ?_, ?_⟩
  · obtain ⟨refused, hcounted, -⟩ := (conserved_init.of_exec hu).counted
    have hpairs := acceptedPairs_of_exec hrun fun level' msg' now' hmem => by
      cases List.eq_of_mem_replicate hmem
      exact hmsg
    have hlength := congrArg List.length hpairs
    rw [List.length_append, List.length_map, List.length_map, haccepted] at hlength
    rw [logCalls_replicate, Nat.zero_add] at hcounted
    omega
  · rw [Nat.zero_add] at hdh
    exact hdh

/-- After 2^64 refused calls `dropped_count()` is zero again. -/
theorem dropped_count_wraps :
    let events := List.replicate (ringCapacity + 2 ^ 64) (Event.log .info (ascii "burst") 0)
    0 ∉ ascii "burst" ∧ ∃ h, exec step .init events = some h ∧
      logCalls events ≠ (acceptedPairs .init events).length + h.logger.droppedCount := by
  have hmsg : 0 ∉ ascii "burst" := by decide
  obtain ⟨h, hrun, hle, hd⟩ := exists_refused (2 ^ 64) .info hmsg 0
  have hzero : wrap (2 ^ 64) = 0 := by decide
  refine ⟨hmsg, h, hrun, ?_⟩
  rw [hd, hzero, logCalls_replicate]
  omega

end Gateway.Logging
