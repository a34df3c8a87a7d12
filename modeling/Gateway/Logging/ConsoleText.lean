import Gateway.Lib.Records
import Gateway.Logging.LogConservation
import Gateway.Network.PacketDissector

/-!
# The text on the console (`include/logging/AsyncLogger.hpp`)

What `consume_loop` writes for an entry begins with its time and level and ends in a newline. The
message goes in as it is, so a newline in it can be followed by what looks like the beginning of
another entry. What is forged so passes for an entry of the run when its time is one that the clock
could still show.
-/

namespace Gateway.Logging
open Steps Records Network

/-- `level_str`. The `default` of the source is for numbers that are no level. -/
def levelStr : LogLevel → Bytes
  | .debug => ascii "DEBUG"
  | .info => ascii "INFO "
  | .warn => ascii "WARN "
  | .error => ascii "ERROR"

/-- An `int64_t` under `<<`. -/
def intText (n : ℤ) : Bytes := (if n < 0 then [45] else []) ++ decText n.natAbs

/-- What is written of an entry before its message. -/
def header (timestampUs : ℤ) (level : LogLevel) : Bytes :=
  ascii "[" ++ intText timestampUs ++ ascii " us] " ++ ascii "[" ++ levelStr level ++ ascii "] "

/-- What `consume_loop` writes to `std::cout` for an entry. -/
def LogLine.printed (line : LogLine) : Bytes :=
  header line.timestampUs line.level ++ line.text ++ ascii "\n"

def consoleText (lines : List LogLine) : Bytes := lines.flatMap LogLine.printed

/-! ## The headers -/

theorem notMem_intText {c : UInt8} (hsign : c ≠ 45) (hdigit : isDigit c = false) (n : ℤ) :
    c ∉ intText n := by
  intro hc
  rcases List.mem_append.mp hc with hc | hc
  · split_ifs at hc
    · exact hsign (List.mem_singleton.mp hc)
    · exact List.not_mem_nil hc
  · simp [isDigit_decText hc] at hdigit

theorem decText_injective : Function.Injective decText := by
  intro m n h
  rw [← decimal_decText m, h, decimal_decText]

/-- A sign is no digit, so it can be told from the first byte. -/
theorem intText_injective : Function.Injective intText := by
  have hsign (n : ℤ) (hn : ¬n < 0) : (45 : UInt8) ∉ intText n := by
    rw [intText, if_neg hn, List.nil_append]
    intro h
    exact absurd (isDigit_decText h) (by decide)
  have hsigned (n : ℤ) (hn : n < 0) : (45 : UInt8) ∈ intText n := by
    simp [intText, hn]
  intro m n h
  -- both signs are the same, and then the digits are
  by_cases hm : m < 0 <;> by_cases hn : n < 0
  · have := decText_injective (by simpa [intText, hm, hn] using h : decText _ = decText _)
    omega
  · exact absurd (h ▸ hsigned m hm) (hsign n hn)
  · exact absurd (h ▸ hsigned n hn) (hsign m hm)
  · have := decText_injective (by simpa [intText, hm, hn] using h : decText _ = decText _)
    omega

theorem length_levelStr (level : LogLevel) : (levelStr level).length = 5 := by
  cases level <;> rfl

theorem levelStr_injective : Function.Injective levelStr := by
  intro level level' h
  cases level <;> cases level' <;> first | rfl | exact absurd h (by decide)

/-- What stands before the first separator is known from the text. -/
theorem append_sep_inj {c : UInt8} {x y r r' : Bytes} (hx : c ∉ x) (hy : c ∉ y)
    (h : x ++ c :: r = y ++ c :: r') : x = y ∧ r = r' := by
  have hlen : x.length = y.length := by
    have hx' := findIdx?_append_cons hx r
    have hy' := findIdx?_append_cons hy r'
    rw [h] at hx'
    exact Option.some.inj (hx'.symm.trans hy')
  obtain ⟨hxy, hr⟩ := List.append_inj h hlen
  exact ⟨hxy, (List.cons.inj hr).2⟩

theorem header_append_inj {ts ts' : ℤ} {level level' : LogLevel} {r r' : Bytes}
    (h : header ts level ++ r = header ts' level' ++ r') :
    (ts, level) = (ts', level') ∧ r = r' := by
  have hspace (n : ℤ) : (32 : UInt8) ∉ intText n := notMem_intText (by decide) (by decide) n
  have hform (ts : ℤ) (level : LogLevel) (r : Bytes) : header ts level ++ r =
      91 :: (intText ts ++ 32 :: (ascii "us] [" ++ (levelStr level ++ (ascii "] " ++ r)))) := by
    simp only [header, ascii, String.reduceToList, List.map_cons, List.map_nil, List.append_assoc,
      List.cons_append, List.nil_append]
    rfl
  rw [hform, hform] at h
  -- the time ends at the first space, and a level has five characters
  obtain ⟨hts, h⟩ := append_sep_inj (hspace ts) (hspace ts') (List.cons.inj h).2
  obtain ⟨hlevel, h⟩ := List.append_inj (List.append_cancel_left h)
    ((length_levelStr level).trans (length_levelStr level').symm)
  rw [intText_injective hts, levelStr_injective hlevel]
  exact ⟨rfl, List.append_cancel_left h⟩

/-- The lines on the console as records. -/
def lineFormat : Format UInt8 (ℤ × LogLevel) where
  header key := header key.1 key.2
  stop := 10
  header_inj := header_append_inj
  stop_notMem key := by
    have hlevel : (10 : UInt8) ∉ levelStr key.2 := by
      cases key.2 <;> decide
    have hts := notMem_intText (by decide : (10 : UInt8) ≠ 45) (by decide) key.1
    simp only [header, List.mem_append, not_or]
    exact ⟨⟨⟨⟨⟨by decide, hts⟩, by decide⟩, by decide⟩, hlevel⟩, by decide⟩

def LogLine.fields (line : LogLine) : (ℤ × LogLevel) × Bytes :=
  ((line.timestampUs, line.level), line.text)

theorem LogLine.fields_injective : Function.Injective LogLine.fields := by
  rintro ⟨_, _, _⟩ ⟨_, _, _⟩ h
  simpa [LogLine.fields, and_assoc] using h

theorem record_fields (line : LogLine) : lineFormat.record line.fields = line.printed :=
  (List.append_assoc _ _ _).symm

theorem text_fields (lines : List LogLine) :
    lineFormat.text (lines.map LogLine.fields) = consoleText lines := by
  rw [Format.text, List.flatMap_map, consoleText]
  exact List.flatMap_congr fun line _ => record_fields line

/-- No header stands after a newline of the message. -/
def LogLine.Plain (line : LogLine) : Prop := lineFormat.Plain line.text

/-! ## Runs -/

/-- The messages of the calls are plain, as far as they are kept. -/
def PlainCalls (events : List Event) : Prop :=
  ∀ level msg now, .log level msg now ∈ events → (lineOf level msg now).Plain

theorem plain_of_step {h t : History} {e : Event} (hh : ∀ line ∈ h.accepted, line.Plain)
    (he : ∀ level msg now, e = .log level msg now → (lineOf level msg now).Plain)
    (hs : step h e = some t) : ∀ line ∈ t.accepted, line.Plain := by
  cases e with
  | log level msg now =>
    obtain rfl := Option.some.inj hs
    dsimp only
    split_ifs
    · intro line hline
      rcases List.mem_append.mp hline with hold | hnew
      · exact hh line hold
      · rw [List.mem_singleton.mp hnew]
        exact he level msg now rfl
    · exact hh
  | iterate =>
    obtain ⟨-, ht⟩ := Option.ite_none_right_eq_some.mp hs
    obtain rfl := Option.some.inj ht
    exact hh
  | requestStop =>
    obtain rfl := Option.some.inj hs
    exact hh

/-- What is printed was accepted, and so it is the message of a call. -/
theorem plain_emitted {events : List Event} {h : History} (hrun : exec step .init events = some h)
    (hplain : PlainCalls events) : ∀ line ∈ h.emitted, line.Plain := by
  have hmeets : Meets step (fun _ e => ∀ level msg now, e = .log level msg now →
      (lineOf level msg now).Plain) .init events := by
    apply meets_of_forall_mem
    intro e he _ level msg now hlog
    exact hplain level msg now (hlog ▸ he)
  have haccepted : ∀ line ∈ h.accepted, line.Plain :=
    invariant_of_meets (fun _ _ _ hh he hs => plain_of_step hh he hs) (by simp [History.init])
      hmeets hrun
  intro line hline
  apply haccepted
  apply (conserved_init.of_exec hrun).kept.mem_iff.mpr
  exact List.mem_append_left _ hline

/-- A message that is logged when nothing is pending is printed next. -/
theorem Rep.prints {h : History} (hr : Rep h []) (hd : h.logger.dropped % ringCapacity = 0)
    (hrun : h.logger.running = true) (level : LogLevel) (msg : Bytes) (now : ℤ) :
    ∃ t, exec step h [.log level msg now, .iterate] = some t ∧ Rep t [] ∧
      t.logger.dropped = h.logger.dropped ∧ t.logger.running = true ∧
      t.accepted = h.accepted ++ [lineOf level msg now] := by
  have hv := hr.head_free hd (by decide)
  obtain ⟨u, hu, hru, -, hdu, hrunu⟩ := hr.log_accept hv hd level msg now
  obtain ⟨t, ht, hrt, hdt, hrunt⟩ := hru.iterate (Or.inl (hrunu.trans hrun))
  have hrt : Rep t [] := hrt
  refine ⟨t, ?_, hrt, hdt.trans hdu, hrunt.trans (hrunu.trans hrun), ?_⟩
  · rw [exec_cons]
    refine ⟨u, hu, ?_⟩
    rw [exec_cons]
    exact ⟨t, ht, rfl⟩
  · have hemitted : u.emitted = h.emitted := by
      rw [← Option.some.inj hu]
    have haccepted : t.accepted = u.accepted := by
      obtain ⟨-, ht⟩ := Option.ite_none_right_eq_some.mp ht
      rw [← Option.some.inj ht]
    rw [haccepted, hru.fifo, hr.fifo, hemitted, List.append_nil, List.nil_append]

/-! ## Forged entries -/

/-- The readings of the clock, in the order of the calls. -/
def clocks (events : List Event) : List ℤ :=
  events.filterMap fun
    | .log _ _ now => some now
    | _ => none

/-- The readings are those of `steady_clock`: they do not go back and fit in `int64_t`. -/
structure Timed (events : List Event) : Prop where
  mono : (clocks events).Pairwise (· ≤ ·)
  fits : ∀ now ∈ clocks events, 0 ≤ now ∧ now < 2 ^ 63

/-- After a newline of the message stands the header of an entry that could be written from the
time of the message on. -/
def LogLine.Forges (line : LogLine) : Prop :=
  ∃ before after timestampUs level,
    line.text = before ++ 10 :: (header timestampUs level ++ after) ∧
      line.timestampUs ≤ timestampUs ∧ timestampUs * 1000 < 2 ^ 63

/-- Two messages, each of them printed before the next call. -/
def twoCalls (level level' : LogLevel) (msg msg' : Bytes) (now now' : ℤ) : List Event :=
  [.log level msg now, .iterate, .log level' msg' now', .iterate]

theorem timed_twoCalls (level level' : LogLevel) (msg msg' : Bytes) {now now' : ℤ}
    (hnow : 0 ≤ now) (hle : now ≤ now') (hfits : now' < 2 ^ 63) :
    Timed (twoCalls level level' msg msg' now now') := by
  have hclocks : clocks (twoCalls level level' msg msg' now now') = [now, now'] := rfl
  constructor
  · rw [hclocks, List.pairwise_pair]
    exact hle
  · rw [hclocks]
    intro c hc
    rcases List.mem_pair.mp hc with rfl | rfl
    all_goals omega

/-- Two messages that are kept whole are all that the run prints. -/
theorem exec_twoCalls (level level' : LogLevel) (msg msg' : Bytes) (now now' : ℤ) :
    ∃ h, exec step .init (twoCalls level level' msg msg' now now') = some h ∧
      h.emitted = [lineOf level msg now, lineOf level' msg' now'] := by
  obtain ⟨t, ht, hrt, hdt, hrunt, hat⟩ := rep_init.prints rfl rfl level msg now
  obtain ⟨h, hh, hrh, -, -, hah⟩ := hrt.prints (by rw [hdt]; rfl) hrunt level' msg' now'
  refine ⟨h, exec_append.mpr ⟨t, ht, hh⟩, ?_⟩
  have hemitted : h.emitted = h.accepted := by rw [hrh.fifo, List.append_nil]
  rw [hemitted, hah, hat]
  rfl

/-- A part of what is kept of a message is kept whole as a message of its own. -/
theorem lineOf_of_sublist {level : LogLevel} {msg part : Bytes} {now : ℤ}
    (hpart : part.Sublist (lineOf level msg now).text) (timestampUs : ℤ) (level' : LogLevel) :
    lineOf level' part (timestampUs * 1000) = ⟨timestampUs, level', part⟩ := by
  have hlen : part.length ≤ 255 :=
    calc part.length ≤ (cStr (msg.take 255)).length := hpart.length_le
      _ ≤ (msg.take 255).length := (List.takeWhile_sublist _).length_le
      _ ≤ 255 := List.length_take_le _ _
  have hnul : 0 ∉ part := by
    intro hzero
    have hne := List.mem_takeWhile_imp (hpart.subset hzero)
    simp at hne
  rw [lineOf, List.take_of_length_le hlen, Int.mul_tdiv_cancel _ (by decide)]
  congr
  exact takeWhile_bne_of_notMem hnul

/-- A message forges an entry when two calls, the later one at the forged time, leave the text of
the one that logs the message. -/
theorem exists_run_of_forges {level : LogLevel} {msg : Bytes} {now : ℤ} (hnow : 0 ≤ now)
    (h : (lineOf level msg now).Forges) :
    ∃ events h, Timed events ∧ exec step .init events = some h ∧
      consoleText h.emitted = (lineOf level msg now).printed ∧ h.emitted.length = 2 := by
  obtain ⟨before, after, timestampUs, level', hbody, hle, hfits⟩ := h
  have hbefore : before.Sublist (lineOf level msg now).text := by
    rw [hbody]
    exact List.sublist_append_left _ _
  have hafter : after.Sublist (lineOf level msg now).text := by
    rw [hbody, ← List.cons_append, ← List.append_assoc]
    exact List.sublist_append_right _ _
  have hstart : 0 ≤ now.tdiv 1000 := Int.tdiv_nonneg hnow (by decide)
  have hle : now.tdiv 1000 ≤ timestampUs := hle
  -- `before` is logged at the time of the message, `after` at the time in the forged header
  obtain ⟨h, hrun, hemitted⟩ := exec_twoCalls level level' before after (now.tdiv 1000 * 1000)
    (timestampUs * 1000)
  rw [lineOf_of_sublist hbefore, lineOf_of_sublist hafter] at hemitted
  refine ⟨_, h, timed_twoCalls _ _ _ _ (by omega) (by omega) hfits, hrun, ?_, ?_⟩
  · rw [hemitted, ← text_fields, ← record_fields, LogLine.fields, hbody]
    exact Format.text_two (f := lineFormat) _ (timestampUs, level') before after
  · rw [hemitted]
    rfl

/-- Two runs that leave the same text on the console have printed the same entries, as long as the
messages are plain; no other run leaves the text of an entry with a plain message; and the text of
an entry whose message forges one is left by a run, with the readings of a steady clock, that has
not printed that entry. -/
theorem console_text_tells_lines :
    (∀ events events' h h', exec step .init events = some h → exec step .init events' = some h' →
      PlainCalls events → PlainCalls events' → consoleText h.emitted = consoleText h'.emitted →
      h.emitted = h'.emitted) ∧
    (∀ level msg now, (lineOf level msg now).Plain →
      ∀ events h, exec step .init events = some h →
        consoleText h.emitted = (lineOf level msg now).printed →
        h.emitted = [lineOf level msg now]) ∧
    ∀ level msg now, 0 ≤ now → (lineOf level msg now).Forges →
      ∃ events h, Timed events ∧ exec step .init events = some h ∧
        consoleText h.emitted = (lineOf level msg now).printed ∧
        h.emitted ≠ [lineOf level msg now] := by
  refine ⟨?_, ?_, ?_⟩
  · intro events events' h h' hrun hrun' hplain hplain' htext
    rw [← text_fields, ← text_fields] at htext
    apply List.map_injective_iff.mpr LogLine.fields_injective
    apply Format.text_injOn _ _ htext
    · exact List.forall_mem_map.mpr (plain_emitted hrun hplain)
    · exact List.forall_mem_map.mpr (plain_emitted hrun' hplain')
  · intro level msg now hplain events h _ htext
    rw [← text_fields, ← record_fields] at htext
    have hone := (Format.plain_iff_unique _ _).mp hplain _ htext
    exact List.map_injective_iff.mpr LogLine.fields_injective hone
  · intro level msg now hnow hforges
    obtain ⟨events, h, htimed, hrun, htext, hlength⟩ := exists_run_of_forges hnow hforges
    refine ⟨events, h, htimed, hrun, htext, ?_⟩
    intro hone
    rw [hone, List.length_singleton] at hlength
    omega

/-- A message that forges an entry of two microseconds later, and two runs with a message of one
line. -/
theorem console_text_tells_lines_forgedEntry :
    let forged := lineOf .info (ascii "login\n[7 us] [ERROR] disk full") 5000
    (∃ events h, Timed events ∧ exec step .init events = some h ∧
        consoleText h.emitted = forged.printed ∧ h.emitted ≠ [forged]) ∧
      ∃ h h', exec step .init [.log .warn (ascii "up") 6000, .iterate] = some h ∧
        exec step .init [.log .warn (ascii "up") 6999, .iterate, .requestStop] = some h' ∧
        h.emitted = h'.emitted ∧ h.emitted = [lineOf .warn (ascii "up") 6000] := by
  intro forged
  have hforged : forged.Forges :=
    ⟨ascii "login", ascii "disk full", 7, .error, rfl, by decide, by decide⟩
  refine ⟨console_text_tells_lines.2.2 .info _ 5000 (by decide) hforged, ?_⟩
  have hplain (now : ℤ) : (lineOf .warn (ascii "up") now).Plain := by
    apply Format.plain_of_notMem
    show (10 : UInt8) ∉ cStr ((ascii "up").take 255)
    decide +kernel
  have hrun : (exec step .init [.log .warn (ascii "up") 6000, .iterate]).map (fun h =>
      consoleText h.emitted) = some (lineOf .warn (ascii "up") 6000).printed := by
    decide +kernel
  have hrun' : (exec step .init [.log .warn (ascii "up") 6999, .iterate, .requestStop]).map
      (fun h => consoleText h.emitted) = some (lineOf .warn (ascii "up") 6000).printed := by
    decide +kernel
  obtain ⟨h, hh, htext⟩ := Option.map_eq_some_iff.mp hrun
  obtain ⟨h', hh', htext'⟩ := Option.map_eq_some_iff.mp hrun'
  refine ⟨h, h', hh, hh', console_text_tells_lines.1 _ _ h h' hh hh' ?_ ?_
    (htext.trans htext'.symm), console_text_tells_lines.2.1 _ _ _ (hplain 6000) _ h hh htext⟩
  all_goals
    intro level msg now hmem
    simp only [List.mem_cons, Event.log.injEq, reduceCtorEq, List.not_mem_nil, or_false] at hmem
    obtain ⟨rfl, rfl, rfl⟩ := hmem
    exact hplain _

end Gateway.Logging
