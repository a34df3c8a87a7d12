import Gateway.Logging.Interleaving

/-!
# The ledger of accepted messages

What the ring, the calls that returned true and the printed lines say of one another while
calls and the consumer are under way, and how each step of theirs keeps it. A producer's
setting of `valid` needs that its slot is free and holds what it wrote.
-/

namespace Gateway.Logging.Interleaving
open RingWindow

variable {T : Type*}

/-! ## The valid slots -/

/-- The message of the call `m.1` is intact in the valid slot `i`. -/
def Shared.Holds (g : Shared T) (i : Fin ringCapacity) (m : (T × ℕ) × LogLine) : Prop :=
  cells g.logger i = some m.2 ∧ g.writer i = some m.1

theorem cells_eq_none {s : AsyncLogger} {i : Fin ringCapacity} :
    cells s i = none ↔ (s.ring i).valid = false := by
  unfold cells
  split_ifs with hv <;> simp [hv]

/-- An entry that is written but not yet valid has the line of its call. -/
theorem line_overwrite (entry : LogEntry) (level : LogLevel) (msg : Bytes) (now : ℤ) :
    (LogEntry.overwrite entry level msg now).line = lineOf level msg now := by
  have hcut : msg.take (min msg.length (256 - 1)) = msg.take 255 :=
    List.take_eq_take_iff.mpr (by omega)
  simp only [LogEntry.overwrite, LogEntry.line, lineOf, cStr_append_nul, hcut]

theorem cells_setEntry (g : Shared T) (i : Fin ringCapacity) (entry : LogEntry) :
    cells (g.setEntry i entry).logger =
      Function.update (cells g.logger) i (if entry.valid then some entry.line else none) := by
  funext j
  by_cases hj : j = i
  · subst hj
    simp [cells, Shared.setEntry]
  · simp [cells, Shared.setEntry, hj]

theorem cells_setValid (g : Shared T) (i : Fin ringCapacity) :
    cells (g.setEntry i { g.logger.ring i with valid := true }).logger =
      Function.update (cells g.logger) i (some (g.logger.ring i).line) := by
  rw [cells_setEntry, if_pos rfl]
  rfl

theorem cells_clearValid (g : Shared T) (i : Fin ringCapacity) :
    cells (g.setEntry i { g.logger.ring i with valid := false }).logger =
      Function.update (cells g.logger) i none := by
  rw [cells_setEntry, if_neg (by simp)]

/-- The writing of a free slot shows in no valid slot. -/
theorem cells_fill {g : Shared T} {i : Fin ringCapacity} (hfree : cells g.logger i = none)
    (level : LogLevel) (msg : Bytes) (now : ℤ) :
    cells (g.setEntry i (LogEntry.overwrite (g.logger.ring i) level msg now)).logger =
      cells g.logger := by
  have hv : (LogEntry.overwrite (g.logger.ring i) level msg now).valid = false :=
    cells_eq_none.mp hfree
  rw [cells_setEntry, hv, if_neg (by simp), ← hfree, Function.update_eq_self]

/-! ## The ledger -/

variable [DecidableEq T]

/-- The lines printed from the slot that the call wrote. -/
def Shared.emissions (g : Shared T) (call : T × ℕ) : List LogLine :=
  (g.emitted.filter fun e => e.1 = some call).map Prod.snd

/-- The message of every call that returned true is printed exactly once, or is still intact
in a valid slot. -/
def Shared.Accounted (g : Shared T) : Prop :=
  ∀ m ∈ g.accepted, g.emissions m.1 = [m.2] ∨ g.emissions m.1 = [] ∧ ∃ i, g.Holds i m

/-- Valid slots hold the messages of different calls, none of them printed except the one
that the consumer is about to clear. -/
structure Ledger (g : Shared T) : Prop where
  filled : ∀ i line, cells g.logger i = some line → ∃ call, g.writer i = some call ∧
    (call, line) ∈ g.accepted ∧ g.emissions call =
      if g.consumer = .clear ∧ slot ringCapacity g.logger.tail = i then [line] else []
  reading : g.consumer = .emit ∨ g.consumer = .clear →
    cells g.logger (slot ringCapacity g.logger.tail) ≠ none
  single : ∀ i j, cells g.logger i ≠ none → cells g.logger j ≠ none →
    g.writer i = g.writer j → i = j
  printed : ∀ call, (∀ line, (call, line) ∉ g.accepted) → g.emissions call = []
  accounted : g.Accounted

variable {g g' : Shared T}

theorem Shared.emissions_congr (h : g'.emitted = g.emitted) (call : T × ℕ) :
    g'.emissions call = g.emissions call := by
  rw [Shared.emissions, Shared.emissions, h]

/-- The ledger does not see the writers of free slots. -/
theorem Ledger.congr (hl : Ledger g) (hcells : cells g'.logger = cells g.logger)
    (htail : g'.logger.tail = g.logger.tail) (hconsumer : g'.consumer = g.consumer)
    (hwriter : ∀ j, cells g.logger j ≠ none → g'.writer j = g.writer j)
    (haccepted : g'.accepted = g.accepted) (hemitted : g'.emitted = g.emitted) : Ledger g' where
  filled i line hi := by
    rw [hcells] at hi
    rw [hwriter i (by simp [hi]), haccepted, htail, hconsumer]
    simpa only [Shared.emissions_congr hemitted] using hl.filled i line hi
  reading := by
    rw [hcells, htail, hconsumer]
    exact hl.reading
  single i j hi hj hij := by
    rw [hcells] at hi hj
    rw [hwriter i hi, hwriter j hj] at hij
    exact hl.single i j hi hj hij
  printed call hcall := by
    rw [haccepted] at hcall
    rw [Shared.emissions_congr hemitted]
    exact hl.printed call hcall
  accounted m hm := by
    rw [haccepted] at hm
    rw [Shared.emissions_congr hemitted]
    apply (hl.accounted m hm).imp_right
    rintro ⟨hnone, i, hi, hw⟩
    refine ⟨hnone, i, ?_, ?_⟩
    · rw [hcells]
      exact hi
    · rw [hwriter i (by simp [hi]), hw]

/-- A call that has not returned true is not the writer of a valid slot. -/
theorem Ledger.writer_ne (hl : Ledger g) {call : T × ℕ} (hnew : ∀ line, (call, line) ∉ g.accepted)
    {i : Fin ringCapacity} (hi : cells g.logger i ≠ none) : g.writer i ≠ some call := by
  intro hw
  obtain ⟨line, hline⟩ := Option.ne_none_iff_exists'.mp hi
  obtain ⟨call', hw', hmem, -⟩ := hl.filled i line hline
  obtain rfl := Option.some.inj (hw'.symm.trans hw)
  exact hnew line hmem

/-- While the consumer is not about to clear a slot, no valid slot has been printed. -/
theorem Ledger.unprinted (hl : Ledger g) (hc : g.consumer ≠ .clear) {i : Fin ringCapacity}
    {line : LogLine} (hi : cells g.logger i = some line) :
    ∃ call, g.writer i = some call ∧ (call, line) ∈ g.accepted ∧ g.emissions call = [] := by
  obtain ⟨call, hw, hmem, hem⟩ := hl.filled i line hi
  rw [if_neg (fun h => hc h.1)] at hem
  exact ⟨call, hw, hmem, hem⟩

/-- The setting of `valid` on a free slot that its call has written. -/
theorem Ledger.publish (hl : Ledger g) {i : Fin ringCapacity} {call : T × ℕ} {line : LogLine}
    (hfree : cells g.logger i = none) (hwriter : g.writer i = some call)
    (hline : (g.logger.ring i).line = line) (hnew : ∀ line, (call, line) ∉ g.accepted) :
    Ledger { g.setEntry i { g.logger.ring i with valid := true } with
      accepted := g.accepted ++ [(call, line)] } := by
  have hcells : cells (g.setEntry i { g.logger.ring i with valid := true }).logger =
      Function.update (cells g.logger) i (some line) := hline ▸ cells_setValid g i
  have hother : ∀ j, j ≠ i → cells (g.setEntry i { g.logger.ring i with valid := true }).logger j =
      cells g.logger j := by
    intro j hj
    rw [hcells, Function.update_of_ne hj]
  -- the consumer is not at this slot, since it only reads slots that are valid
  have hread : ¬(g.consumer = .clear ∧ slot ringCapacity g.logger.tail = i) := by
    rintro ⟨hclear, rfl⟩
    exact hl.reading (.inr hclear) hfree
  constructor
  · intro j l hj
    by_cases hji : j = i
    · subst hji
      dsimp only at hj
      rw [hcells, Function.update_self] at hj
      obtain rfl := Option.some.inj hj
      refine ⟨call, hwriter, by simp, ?_⟩
      exact (hl.printed call hnew).trans (if_neg hread).symm
    · obtain ⟨call', hw, hmem, hem⟩ := hl.filled j l ((hother j hji).symm.trans hj)
      exact ⟨call', hw, List.mem_append_left _ hmem, hem⟩
  · intro hc hnone
    by_cases hr : slot ringCapacity g.logger.tail = i
    · exact hl.reading hc (hr ▸ hfree)
    · exact hl.reading hc ((hother _ hr).symm.trans hnone)
  · intro j k hj hk hjk
    -- two slots of one call: neither can be the new one, whose call has no line in the ring yet
    by_cases hji : j = i <;> by_cases hki : k = i
    · rw [hji, hki]
    · subst hji
      exact absurd (hjk.symm.trans hwriter) (hl.writer_ne hnew (hother k hki ▸ hk))
    · subst hki
      exact absurd (hjk.trans hwriter) (hl.writer_ne hnew (hother j hji ▸ hj))
    · exact hl.single j k (hother j hji ▸ hj) (hother k hki ▸ hk) hjk
  · intro call' hcall'
    exact hl.printed call' fun l hmem => hcall' l (List.mem_append_left _ hmem)
  · intro m hm
    rcases List.mem_append.mp hm with hm | hm
    · apply (hl.accounted m hm).imp_right
      rintro ⟨hnone, j, hj, hw⟩
      refine ⟨hnone, j, ?_, hw⟩
      -- an older line's slot was filled before, so it is not the free one
      by_cases hji : j = i
      · subst hji
        rw [hfree] at hj
        exact absurd hj (by simp)
      · exact (hother j hji).trans hj
    · obtain rfl := List.mem_singleton.mp hm
      refine .inr ⟨hl.printed call hnew, i, ?_, hwriter⟩
      dsimp only
      rw [hcells, Function.update_self]

theorem Shared.emissions_emit (g : Shared T) (w : Option (T × ℕ)) (line : LogLine)
    (consumer : ConsumerPoint) (call : T × ℕ) :
    Shared.emissions { g with emitted := g.emitted ++ [(w, line)], consumer := consumer } call =
      g.emissions call ++ if w = some call then [line] else [] := by
  rw [Shared.emissions, Shared.emissions, List.filter_append, List.map_append]
  by_cases hw : w = some call <;> simp [hw]

/-- The slot that the consumer prints has not been printed before. -/
theorem Ledger.emit (hl : Ledger g) (hc : g.consumer = .emit) : Ledger { g with
    emitted := g.emitted ++ [(g.writer (slot ringCapacity g.logger.tail),
      (g.logger.ring (slot ringCapacity g.logger.tail)).line)]
    consumer := .clear } := by
  generalize hr : slot ringCapacity g.logger.tail = r
  have hvalid : cells g.logger r ≠ none := hr ▸ hl.reading (.inl hc)
  obtain ⟨line, hline⟩ := Option.ne_none_iff_exists'.mp hvalid
  have hcell : (g.logger.ring r).line = line := by
    unfold cells at hline
    split_ifs at hline
    exact Option.some.inj hline
  have hclear : g.consumer ≠ .clear := by simp [hc]
  obtain ⟨call, hw, hmem, hem⟩ := hl.unprinted hclear hline
  rw [hw, hcell]
  constructor
  · intro i l hi
    obtain ⟨call', hw', hmem', hem'⟩ := hl.unprinted hclear hi
    refine ⟨call', hw', hmem', ?_⟩
    rw [Shared.emissions_emit, hem', List.nil_append]
    dsimp only
    rw [hr]
    by_cases hri : r = i
    · subst hri
      obtain rfl := Option.some.inj (hw.symm.trans hw')
      obtain rfl := Option.some.inj (hline.symm.trans hi)
      rw [if_pos rfl, if_pos ⟨rfl, rfl⟩]
    -- another slot belongs to another call
    · have hne : some call ≠ some call' := by
        intro heq
        exact hri (hl.single r i hvalid (by simp [hi]) (by rw [hw, hw', heq]))
      rw [if_neg hne, if_neg (fun h => hri h.2)]
  · intro _
    dsimp only
    rw [hr]
    exact hvalid
  · exact hl.single
  · intro call' hcall'
    rw [Shared.emissions_emit, hl.printed call' hcall', List.nil_append]
    apply if_neg
    intro heq
    obtain rfl := Option.some.inj heq
    exact hcall' line hmem
  · intro m hm
    rw [Shared.emissions_emit]
    by_cases heq : some call = some m.1
    · obtain rfl := Option.some.inj heq
      -- the slot that holds `m` is the one printed, by `single`
      rcases hl.accounted m hm with hone | ⟨-, i, hi, hwi⟩
      · rw [hem] at hone
        exact absurd hone (by simp)
      · obtain rfl := hl.single r i hvalid (by simp [hi]) (hw.trans hwi.symm)
        obtain rfl := Option.some.inj (hline.symm.trans hi)
        rw [hem, if_pos rfl]
        exact .inl rfl
    · rw [if_neg heq, List.append_nil]
      exact hl.accounted m hm

/-- The slot that the consumer clears has been printed. -/
theorem Ledger.clear (hl : Ledger g) (hc : g.consumer = .clear) : Ledger
    { g.setEntry (slot ringCapacity g.logger.tail)
        { g.logger.ring (slot ringCapacity g.logger.tail) with valid := false } with
      consumer := .advance } := by
  generalize hr : slot ringCapacity g.logger.tail = r
  have hcells := cells_clearValid g r
  have hkept : ∀ i, cells (g.setEntry r { g.logger.ring r with valid := false }).logger i ≠ none →
      i ≠ r ∧ cells g.logger i =
        cells (g.setEntry r { g.logger.ring r with valid := false }).logger i := by
    intro i hi
    rw [hcells] at hi ⊢
    have hir : i ≠ r := by
      rintro rfl
      rw [Function.update_self] at hi
      exact hi rfl
    rw [Function.update_of_ne hir]
    exact ⟨hir, rfl⟩
  constructor
  · intro i line hi
    obtain ⟨hir, hcell⟩ := hkept i (hi ▸ Option.some_ne_none line)
    obtain ⟨call, hw, hmem, hem⟩ := hl.filled i line (hcell.trans hi)
    rw [if_neg (fun h => hir (h.2.symm.trans hr))] at hem
    exact ⟨call, hw, hmem, hem.trans (if_neg (by simp)).symm⟩
  · simp
  · intro i j hi hj hij
    exact hl.single i j ((hkept i hi).2 ▸ hi) ((hkept j hj).2 ▸ hj) hij
  · exact hl.printed
  · intro m hm
    apply (hl.accounted m hm).imp_right
    rintro ⟨hnone, i, hi, hw⟩
    refine ⟨hnone, i, ?_, hw⟩
    have hir : i ≠ r := by
      rintro rfl
      -- the line in the cleared slot has been printed, so it does not wait any more
      obtain ⟨call, hw', -, hem⟩ := hl.filled i m.2 hi
      obtain rfl := Option.some.inj (hw.symm.trans hw')
      rw [if_pos ⟨hc, hr⟩, hnone] at hem
      exact absurd hem (by simp)
    dsimp only
    rw [hcells, Function.update_of_ne hir]
    exact hi

/-- The steps of the consumer that neither print nor clear. -/
theorem Ledger.retarget (hl : Ledger g) (hc : g.consumer ≠ .clear) {consumer : ConsumerPoint}
    (hconsumer : consumer ≠ .clear) {tail : ℕ}
    (hread : consumer = .emit → cells g.logger (slot ringCapacity tail) ≠ none) :
    Ledger { g with logger := { g.logger with tail := tail }, consumer := consumer } where
  filled i line hi := by
    obtain ⟨call, hw, hmem, hem⟩ := hl.unprinted hc hi
    exact ⟨call, hw, hmem, hem.trans (if_neg fun h => hconsumer h.1).symm⟩
  reading h := hread (h.resolve_right hconsumer)
  single := hl.single
  printed := hl.printed
  accounted := hl.accounted

theorem Ledger.consume (hl : Ledger g) : Ledger (Interleaving.consume () g) := by
  unfold Interleaving.consume
  cases hc : g.consumer with
  | test =>
    dsimp only
    split_ifs with hv
    · apply hl.retarget (by simp [hc]) (by simp)
      intro _ hnone
      rw [cells_eq_none.mp hnone] at hv
      exact absurd hv (by simp)
    · exact hl
  | emit => exact hl.emit hc
  | clear => exact hl.clear hc
  | advance => exact hl.retarget (by simp [hc]) (by simp) (by simp)

end Gateway.Logging.Interleaving
