import Gateway.Echo.EchoServer

/-!
# Whether the echo depends on how the stream is cut

The server looks for its exit commands at the start of every chunk, so a cut right before one
ends the session there, and a cut inside one hides it.
-/

namespace Gateway.Echo
variable {strerror : Errno → Bytes}

def Turn.received (turn : Turn) : Bytes :=
  match turn.recv with
  | .data chunk => chunk.bytes
  | _ => []

/-- The turns receive the stream, and all their sends succeed. -/
def Carries (stream : Bytes) (turns : List Turn) : Prop :=
  turns.flatMap Turn.received = stream ∧
    ∀ turn ∈ turns, (∃ chunk, turn.recv = .data chunk) ∧ turn.SendsSucceed

/-- However the stream is cut, and however the sends go, the loop ends with the same bytes
sent. -/
def IgnoresChunking (strerror : Errno → Bytes) (stream : Bytes) : Prop :=
  ∀ (turns turns' : List Turn) (buffer buffer' : Buffer),
    Carries stream turns → Carries stream turns' →
      ∃ s s', echoLoop strerror { buffer } (turns ++ [{ recv := .endOfFile }]) = some s ∧
        echoLoop strerror { buffer := buffer' } (turns' ++ [{ recv := .endOfFile }]) = some s' ∧
        s.running = false ∧ s'.running = false ∧ s.sent = s'.sent

/-- A turn that sends its chunk back. -/
def Turn.EchoesBack (turn : Turn) : Prop :=
  ∃ chunk, turn.recv = .data chunk ∧ ¬chunk.AsksExit ∧ turn.SendsSucceed

theorem sent_of_log_append {s t : Session} {it : Iteration} (h : t.log = s.log ++ [it]) :
    t.sent = s.sent ++ it.sent := by
  simp [Session.sent, h]

theorem echoTurn_of_echoesBack {turn : Turn} (h : turn.EchoesBack) (s : Session) :
    ∃ t, echoTurn strerror s turn = some t ∧ t.running = true ∧
      t.sent = s.sent ++ turn.received := by
  obtain ⟨chunk, hrecv, hexit, hsends⟩ := h
  obtain ⟨t, it, hturn, hlog, hrunning, hit⟩ := echoTurn_of_data hrecv hsends
  refine ⟨t, hturn, hrunning.mpr hexit, ?_⟩
  rw [sent_of_log_append hlog, hit.sent, Chunk.echo, if_neg hexit, Turn.received, hrecv]

/-- Chunks without an exit command are echoed one after the other. -/
theorem echoLoop_of_echoesBack {turns : List Turn} (h : ∀ turn ∈ turns, turn.EchoesBack)
    (s : Session) :
    ∃ t, (∀ rest, echoLoop strerror s (turns ++ rest) = echoLoop strerror t rest) ∧
      t.sent = s.sent ++ turns.flatMap Turn.received := by
  induction turns generalizing s with
  | nil => exact ⟨s, fun _ => rfl, by simp⟩
  | cons turn turns ih =>
    obtain ⟨u, hturn, hrunning, hu⟩ :=
      echoTurn_of_echoesBack (h turn List.mem_cons_self) s
    obtain ⟨t, hloop, ht⟩ := ih (fun turn hmem => h turn (List.mem_cons_of_mem _ hmem)) u
    refine ⟨t, ?_, ?_⟩
    · intro rest
      rw [List.cons_append, echoLoop, hturn, Option.bind_some, if_pos hrunning, hloop]
    · rw [ht, hu, List.flatMap_cons, List.append_assoc]

/-- Without an exit command at the start of a chunk, the whole stream comes back. -/
theorem echoLoop_echoes_stream (strerror : Errno → Bytes) {turns : List Turn}
    (h : ∀ turn ∈ turns, turn.EchoesBack) (buffer : Buffer) :
    ∃ s, echoLoop strerror { buffer } (turns ++ [{ recv := .endOfFile }]) = some s ∧
      s.running = false ∧ s.sent = turns.flatMap Turn.received := by
  obtain ⟨t, hloop, ht⟩ := echoLoop_of_echoesBack h { buffer }
  have hrecv : ∀ chunk, Recv.endOfFile ≠ .data chunk := by simp
  obtain ⟨it, -, -, hsent, hend⟩ := echoTurn_of_end hrecv
  obtain ⟨u, hturn, hlog, hrunning⟩ := hend t { recv := .endOfFile } rfl
  refine ⟨u, ?_, hrunning, ?_⟩
  · rw [hloop, echoLoop, hturn, Option.bind_some, if_neg (by simp [hrunning])]
  · rw [sent_of_log_append hlog, hsent, ht]
    simp [Session.sent]

/-- The first exit command at the start of a chunk ends the session. -/
theorem echoLoop_stops_at_exit (strerror : Errno → Bytes) {turns : List Turn}
    (h : ∀ turn ∈ turns, turn.EchoesBack) {turn : Turn} {chunk : Chunk}
    (hrecv : turn.recv = .data chunk) (hexit : chunk.AsksExit) (hsends : turn.SendsSucceed)
    (rest : List Turn) (buffer : Buffer) :
    ∃ s, echoLoop strerror { buffer } (turns ++ turn :: rest) = some s ∧
      s.running = false ∧ s.sent = turns.flatMap Turn.received := by
  obtain ⟨t, hloop, ht⟩ := echoLoop_of_echoesBack h { buffer }
  obtain ⟨u, it, hturn, hlog, hrunning, hit⟩ := echoTurn_of_data hrecv hsends
  have hstop : ¬u.running = true := fun hrun => hrunning.mp hrun hexit
  refine ⟨u, ?_, eq_false_of_ne_true hstop, ?_⟩
  · rw [hloop, echoLoop, hturn, Option.bind_some, if_neg hstop]
  · rw [sent_of_log_append hlog, hit.sent, Chunk.echo, if_pos hexit, ht]
    simp [Session.sent]

/-- The turns that receive a text byte by byte. -/
def bytewise (text : Bytes) : List Turn :=
  text.map fun b => .whole ⟨[b], List.cons_ne_nil b [], show 1 ≤ bufferSize by decide⟩

theorem flatMap_received_bytewise (text : Bytes) :
    (bytewise text).flatMap Turn.received = text := by
  induction text with
  | nil => rfl
  | cons b text ih =>
    rw [bytewise, List.map_cons, List.flatMap_cons]
    exact congrArg (b :: ·) ih

/-- No exit command fits in one byte. -/
theorem echoesBack_bytewise (text : Bytes) : ∀ turn ∈ bytewise text, turn.EchoesBack := by
  intro turn hmem
  obtain ⟨b, -, rfl⟩ := List.mem_map.mp hmem
  refine ⟨_, rfl, ?_, sendsSucceed_whole _⟩
  rintro (hexit | hexit)
  · exact absurd hexit.length_le (by simp [ascii])
  · exact absurd hexit.length_le (by simp [ascii])

theorem carries_bytewise (text : Bytes) : Carries text (bytewise text) := by
  refine ⟨flatMap_received_bytewise text, ?_⟩
  intro turn hmem
  obtain ⟨chunk, hrecv, -, hsends⟩ := echoesBack_bytewise text turn hmem
  exact ⟨⟨chunk, hrecv⟩, hsends⟩

theorem carries_whole (chunk : Chunk) : Carries chunk.bytes [.whole chunk] := by
  refine ⟨by simp [Turn.received, Turn.whole], ?_⟩
  intro turn hmem
  obtain rfl := List.mem_singleton.mp hmem
  exact ⟨⟨chunk, rfl⟩, sendsSucceed_whole chunk⟩

theorem Carries.append {a b : Bytes} {turns turns' : List Turn} (h : Carries a turns)
    (h' : Carries b turns') : Carries (a ++ b) (turns ++ turns') := by
  refine ⟨?_, ?_⟩
  · rw [List.flatMap_append, h.1, h'.1]
  · intro turn hmem
    rcases List.mem_append.mp hmem with hmem | hmem
    · exact h.2 turn hmem
    · exact h'.2 turn hmem

/-- An exit command in the stream is echoed or obeyed, as the cuts happen to fall. -/
theorem not_ignoresChunking {command : Chunk} (hexit : command.AsksExit) (before after : Bytes) :
    ¬IgnoresChunking strerror (before ++ command.bytes ++ after) := by
  intro h
  let buffer : Buffer := ⟨List.replicate bufferSize 0, List.length_replicate⟩
  have hcut : Carries (before ++ command.bytes ++ after)
      (bytewise before ++ [.whole command] ++ bytewise after) :=
    ((carries_bytewise before).append (carries_whole command)).append (carries_bytewise after)
  obtain ⟨s, s', hs, hs', -, -, hsent⟩ := h _ _ buffer buffer (carries_bytewise _) hcut
  obtain ⟨t, ht, -, hechoed⟩ := echoLoop_echoes_stream strerror
    (echoesBack_bytewise (before ++ command.bytes ++ after)) buffer
  obtain ⟨t', ht', -, hstopped⟩ := echoLoop_stops_at_exit strerror (echoesBack_bytewise before)
    rfl hexit (sendsSucceed_whole command) (bytewise after ++ [{ recv := .endOfFile }]) buffer
  obtain rfl := Option.some.inj (hs.symm.trans ht)
  simp only [List.append_assoc, List.cons_append] at hs'
  obtain rfl := Option.some.inj (hs'.symm.trans ht')
  rw [hechoed, hstopped, flatMap_received_bytewise, flatMap_received_bytewise] at hsent
  simp [command.ne_nil] at hsent

theorem received_infix {stream : Bytes} {turns : List Turn} (h : Carries stream turns)
    {turn : Turn} (hmem : turn ∈ turns) : turn.received <:+: stream := by
  obtain ⟨before, after, rfl⟩ := List.append_of_mem hmem
  rw [← h.1, List.flatMap_append, List.flatMap_cons]
  exact List.infix_append' _ _ _

theorem echoesBack_of_carries {stream : Bytes} {turns : List Turn} (h : Carries stream turns)
    (hquit : ¬ascii "quit" <:+: stream) (hexit : ¬ascii "exit" <:+: stream) :
    ∀ turn ∈ turns, turn.EchoesBack := by
  intro turn hmem
  obtain ⟨⟨chunk, hrecv⟩, hsends⟩ := h.2 turn hmem
  have hinfix : chunk.bytes <:+: stream := by
    have hreceived := received_infix h hmem
    rwa [Turn.received, hrecv] at hreceived
  refine ⟨chunk, hrecv, ?_, hsends⟩
  rintro (hasks | hasks)
  · exact hquit (hasks.isInfix.trans hinfix)
  · exact hexit (hasks.isInfix.trans hinfix)

def quitChunk : Chunk := ⟨ascii "quit", by decide, by decide⟩

def exitChunk : Chunk := ⟨ascii "exit", by decide, by decide⟩

/-- What the server sends back does not depend on the cuts exactly for the streams that hold
no exit command anywhere. -/
theorem ignoresChunking_iff (strerror : Errno → Bytes) (stream : Bytes) :
    IgnoresChunking strerror stream ↔
      ¬ascii "quit" <:+: stream ∧ ¬ascii "exit" <:+: stream := by
  constructor
  · intro h
    refine ⟨?_, ?_⟩
    · rintro ⟨before, after, rfl⟩
      have hasks : quitChunk.AsksExit := Or.inl (List.prefix_refl _)
      exact not_ignoresChunking hasks before after h
    · rintro ⟨before, after, rfl⟩
      have hasks : exitChunk.AsksExit := Or.inr (List.prefix_refl _)
      exact not_ignoresChunking hasks before after h
  · rintro ⟨hquit, hexit⟩ turns turns' buffer buffer' hturns hturns'
    obtain ⟨s, hs, hended, hsent⟩ := echoLoop_echoes_stream strerror
      (echoesBack_of_carries hturns hquit hexit) buffer
    obtain ⟨s', hs', hended', hsent'⟩ := echoLoop_echoes_stream strerror
      (echoesBack_of_carries hturns' hquit hexit) buffer'
    refine ⟨s, s', hs, hs', hended, hended', ?_⟩
    rw [hsent, hsent', hturns.1, hturns'.1]

/-- Received as `a` and `quit`, this stream comes back as `a`; received at once, as a whole. -/
theorem aquit_depends_on_chunking : ¬IgnoresChunking (fun _ => []) (ascii "aquit") := by
  intro h
  let buffer : Buffer := ⟨List.replicate bufferSize 0, List.length_replicate⟩
  let a : Chunk := ⟨ascii "a", by decide, by decide⟩
  let aquit : Chunk := ⟨ascii "aquit", by decide, by decide⟩
  obtain ⟨s, s', hs, hs', -, -, hsent⟩ := h _ _ buffer buffer
    ((carries_whole a).append (carries_whole quitChunk)) (carries_whole aquit)
  have hcut : (echoLoop (fun _ => []) { buffer }
      [.whole a, .whole quitChunk, { recv := .endOfFile }]).map Session.sent =
        some (ascii "a") := by decide +kernel
  have hwhole : (echoLoop (fun _ => []) { buffer }
      [.whole aquit, { recv := .endOfFile }]).map Session.sent = some (ascii "aquit") := by
    decide +kernel
  simp only [List.cons_append, List.nil_append] at hs hs'
  rw [hs] at hcut
  rw [hs'] at hwhole
  have heq : ascii "a" = ascii "aquit" := by
    rw [← Option.some.inj hcut, ← Option.some.inj hwhole]
    exact hsent
  exact absurd heq (by decide)

end Gateway.Echo
