import Gateway.Echo.EchoServer

/-!
# What a turn of the echo loop reads

The buffer is zeroed before every `recv`, which leaves a terminator for the print as long as
the chunk does not fill the buffer.
-/

namespace Gateway.Echo

/-- Every index that the turn reads lies in the buffer. -/
def Iteration.InBounds (it : Iteration) : Prop := ∀ i ∈ it.reads, i < bufferSize

/-- What the turn prints and sends is a matter of what it received: a turn that receives the
same prints and sends the same, whatever the buffer held before and memory holds past it. -/
def Iteration.OnlyOfReceived (strerror : Errno → Bytes) (it : Iteration) : Prop :=
  ∀ (s t : Session) (turn : Turn) (it' : Iteration), turn.recv = it.recv → turn.SendsSucceed →
    echoTurn strerror s turn = some t → t.log = s.log ++ [it'] →
      it'.out = it.out ∧ it'.err = it.err ∧ it'.sent = it.sent

/-- The buffer holds a terminator once the chunk is in it. -/
def Chunk.Terminated (chunk : Chunk) : Prop :=
  chunk.bytes.length < bufferSize ∨ 0 ∈ chunk.bytes

/-- The chunks that the loop gets to: it stops at the first exit command, and when the
connection ends. -/
def reached : List Turn → List Chunk
  | [] => []
  | turn :: turns =>
    match turn.recv with
    | .data chunk => if chunk.AsksExit then [chunk] else chunk :: reached turns
    | _ => []

theorem reached_of_data {turn : Turn} {chunk : Chunk} (h : turn.recv = .data chunk)
    (turns : List Turn) :
    reached (turn :: turns) = if chunk.AsksExit then [chunk] else chunk :: reached turns := by
  rw [reached]
  simp only [h]

theorem reached_of_end {turn : Turn} (h : ∀ chunk, turn.recv ≠ .data chunk)
    (turns : List Turn) : reached (turn :: turns) = [] := by
  rw [reached]
  split
  · next chunk hrecv => exact absurd hrecv (h chunk)
  · rfl

section Text
variable {chunk : Chunk}

theorem cStr_append_zeros (a : Bytes) (n : ℕ) : cStr (a ++ List.replicate n 0) = cStr a := by
  by_cases h : 0 ∈ a
  · exact cStr_append_of_mem h _
  · rw [cStr, List.takeWhile_append_of_pos (bne_of_notMem h), cStr, takeWhile_bne_of_notMem h]
    cases n <;> simp [List.replicate_succ]

theorem length_cStr_lt {a : Bytes} (h : 0 ∈ a) : (cStr a).length < a.length := by
  have hprefix : cStr a <+: a := List.takeWhile_prefix _
  apply lt_of_le_of_ne hprefix.length_le
  intro hlen
  have hself := hprefix.eq_of_length hlen
  have hne := List.takeWhile_eq_self_iff.mp hself 0 h
  simp at hne

/-- With a terminator in place, the print shows the chunk and stops inside the buffer. -/
theorem cStr_of_terminated (h : chunk.Terminated) (buffer : Buffer) (past : Bytes) :
    cStr (((buffer.memset 0).recv chunk).bytes ++ past) = cStr chunk.bytes := by
  have hmem : 0 ∈ ((buffer.memset 0).recv chunk).bytes := by
    rw [recv_bytes]
    rcases h with hlt | hmem
    · apply List.mem_append_right
      rw [List.mem_replicate]
      exact ⟨by omega, rfl⟩
    · exact List.mem_append_left _ hmem
  rw [cStr_append_of_mem hmem, recv_bytes, cStr_append_zeros]

theorem length_cStr_of_terminated (h : chunk.Terminated) :
    (cStr chunk.bytes).length < bufferSize := by
  have hle := chunk.length_le
  have hprefix : (cStr chunk.bytes).length ≤ chunk.bytes.length :=
    (List.takeWhile_prefix _).length_le
  rcases h with hlt | hmem
  · omega
  · have hlt := length_cStr_lt hmem
    omega

/-- Without one, the print goes past the end of the buffer. -/
theorem length_cStr_of_not_terminated (h : ¬chunk.Terminated) (buffer : Buffer) (past : Bytes) :
    bufferSize ≤ (cStr (((buffer.memset 0).recv chunk).bytes ++ past)).length := by
  obtain ⟨hlen, hnul⟩ := not_or.mp h
  rw [recv_bytes, List.append_assoc, cStr, List.takeWhile_append_of_pos (bne_of_notMem hnul),
    List.length_append]
  omega

theorem receivedText_of_terminated (h : chunk.Terminated) (buffer buffer' : Buffer)
    (past past' : Bytes) :
    receivedText ((buffer.memset 0).recv chunk) chunk.bytes.length past =
      receivedText ((buffer'.memset 0).recv chunk) chunk.bytes.length past' := by
  rw [receivedText, receivedText, cStr_of_terminated h, cStr_of_terminated h, recv_bytes,
    recv_bytes]

end Text

section Turns
variable {strerror : Errno → Bytes} {chunk : Chunk}

theorem record_unique {s t t' : Session} {turn : Turn} {it it' : Iteration}
    (ht : echoTurn strerror s turn = some t) (ht' : echoTurn strerror s turn = some t')
    (hlog : t.log = s.log ++ [it]) (hlog' : t'.log = s.log ++ [it']) : it = it' := by
  have hsame : t = t' := Option.some.inj (ht.symm.trans ht')
  rw [← hsame, hlog] at hlog'
  exact List.singleton_inj.mp (List.append_cancel_left hlog')

/-- The reads of a turn stay in the buffer exactly when its chunk leaves a terminator. -/
theorem inBounds_iff_terminated {buffer : Buffer} {past : Bytes} {it : Iteration}
    (h : Handles ((buffer.memset 0).recv chunk) chunk past it) :
    it.InBounds ↔ chunk.Terminated := by
  constructor
  · intro hbounds
    by_contra hnot
    have hover := length_cStr_of_not_terminated hnot buffer past
    have hread : bufferSize ∈
        receivedReads ((buffer.memset 0).recv chunk) chunk.bytes.length past := by
      rw [receivedReads, List.append_assoc]
      apply List.mem_append_left
      rw [List.mem_range]
      omega
    exact lt_irrefl _ (hbounds bufferSize (h.reads_ge bufferSize hread))
  · intro hterm i hi
    have hlen := chunk.length_le
    have hpos := List.length_pos_iff.mpr chunk.ne_nil
    have hprint := length_cStr_of_terminated hterm
    rcases h.reads_le i hi with hi | hi
    · rw [receivedReads, cStr_of_terminated hterm] at hi
      simp only [List.mem_append, List.mem_range, List.mem_singleton] at hi
      have hfour : 4 ≤ bufferSize := by decide
      omega
    · omega

theorem onlyOfReceived_of_terminated {buffer : Buffer} {past : Bytes} {it : Iteration}
    (h : Handles ((buffer.memset 0).recv chunk) chunk past it) (hterm : chunk.Terminated) :
    it.OnlyOfReceived strerror := by
  intro s t turn it' hrecv hsends hturn hlog
  obtain ⟨t', it'', hturn', hlog', -, hit⟩ := echoTurn_of_data (hrecv.trans h.recv) hsends
  obtain rfl := record_unique hturn hturn' hlog hlog'
  refine ⟨?_, ?_, ?_⟩
  · rw [hit.out, h.out, receivedText_of_terminated hterm s.buffer buffer turn.past past]
  · rw [hit.err, h.err]
  · rw [hit.sent, h.sent]

/-- The record of a turn is sound exactly when its chunk leaves a terminator. -/
theorem sound_iff_terminated {buffer : Buffer} {past : Bytes} {it : Iteration}
    (h : Handles ((buffer.memset 0).recv chunk) chunk past it) :
    it.InBounds ∧ it.OnlyOfReceived strerror ↔ chunk.Terminated := by
  rw [inBounds_iff_terminated h]
  exact and_iff_left_of_imp (onlyOfReceived_of_terminated h)

/-- The record of a turn in which the connection ends is sound. -/
theorem sound_of_end {it : Iteration} (hreads : it.reads = [])
    (hend : ∀ (s : Session) (turn : Turn), turn.recv = it.recv →
      ∃ t, echoTurn strerror s turn = some t ∧ t.log = s.log ++ [it] ∧ t.running = false) :
    it.InBounds ∧ it.OnlyOfReceived strerror := by
  refine ⟨?_, ?_⟩
  · intro i hi
    simp [hreads] at hi
  · intro s t turn it' hturn _ ht hlog
    obtain ⟨t', ht', hlog', -⟩ := hend s turn hturn
    obtain rfl := record_unique ht ht' hlog hlog'
    exact ⟨rfl, rfl, rfl⟩

/-- What the loop adds to the log is sound exactly when every chunk it gets to leaves a
terminator. -/
theorem echoLoop_sound_iff {turns : List Turn} (hsends : ∀ turn ∈ turns, turn.SendsSucceed)
    (s : Session) :
    ∃ t its, echoLoop strerror s turns = some t ∧ t.log = s.log ++ its ∧
      ((∀ it ∈ its, it.InBounds ∧ it.OnlyOfReceived strerror) ↔
        ∀ chunk ∈ reached turns, chunk.Terminated) := by
  induction turns generalizing s with
  | nil => exact ⟨s, [], rfl, by simp, by simp [reached]⟩
  | cons turn turns ih =>
    by_cases hdata : ∃ chunk, turn.recv = .data chunk
    · obtain ⟨chunk, hrecv⟩ := hdata
      obtain ⟨u, it, hturn, hlog, hrunning, hit⟩ :=
        echoTurn_of_data hrecv (hsends turn List.mem_cons_self)
      have hsound : it.InBounds ∧ it.OnlyOfReceived strerror ↔ chunk.Terminated :=
        sound_iff_terminated hit
      rw [echoLoop, hturn, Option.bind_some, reached_of_data hrecv]
      by_cases hexit : chunk.AsksExit
      · rw [if_neg (fun hrun => hrunning.mp hrun hexit), if_pos hexit]
        exact ⟨u, [it], rfl, hlog, by simpa using hsound⟩
      · obtain ⟨t, its, hloop, hlog', hrest⟩ :=
          ih (fun turn hmem => hsends turn (List.mem_cons_of_mem _ hmem)) u
        rw [if_pos (hrunning.mpr hexit), if_neg hexit]
        refine ⟨t, it :: its, hloop, ?_, ?_⟩
        · rw [hlog', hlog, List.append_assoc, List.singleton_append]
        · rw [List.forall_mem_cons, List.forall_mem_cons, hsound, hrest]
    · have hend : ∀ chunk, turn.recv ≠ .data chunk := fun chunk hrecv => hdata ⟨chunk, hrecv⟩
      obtain ⟨it, hit, hreads, -, hturns⟩ := echoTurn_of_end hend
      obtain ⟨u, hturn, hlog, hrunning⟩ := hturns s turn rfl
      rw [← hit] at hturns
      refine ⟨u, [it], ?_, hlog, ?_⟩
      · rw [echoLoop, hturn, Option.bind_some, if_neg (by simp [hrunning])]
      · rw [reached_of_end hend]
        simpa using sound_of_end hreads hturns

/-- The loop reads its buffer only, and each turn prints and sends what its own chunk
determines, exactly when every chunk it gets to is shorter than the buffer or holds a NUL. -/
theorem echoLoop_reads_chunk_only_iff (strerror : Errno → Bytes) (buffer : Buffer)
    (turns : List Turn) (hsends : ∀ turn ∈ turns, turn.SendsSucceed) :
    ∃ s, echoLoop strerror { buffer } turns = some s ∧
      ((∀ it ∈ s.log, it.InBounds ∧ it.OnlyOfReceived strerror) ↔
        ∀ chunk ∈ reached turns, chunk.bytes.length < bufferSize ∨ 0 ∈ chunk.bytes) := by
  obtain ⟨s, its, hloop, hlog, hsound⟩ := echoLoop_sound_iff hsends { buffer }
  refine ⟨s, hloop, ?_⟩
  rw [hlog, List.nil_append]
  exact hsound

theorem sendsSucceed_singleton (chunk : Chunk) :
    ∀ turn ∈ [Turn.whole chunk], turn.SendsSucceed := by
  intro turn hmem
  rw [List.mem_singleton.mp hmem]
  exact sendsSucceed_whole chunk

/-- A chunk that leaves room for one byte, and a shorter one after it. -/
theorem echoLoop_reads_chunk_only_iff_shorter :
    let long : Chunk := ⟨List.replicate 1023 65, List.cons_ne_nil _ _, by
      rw [List.length_replicate]; decide⟩
    let greeting : Chunk := ⟨ascii "hi", by decide, by decide⟩
    ∃ s, echoLoop (fun _ => [])
        { buffer := ⟨List.replicate bufferSize 0, List.length_replicate⟩ }
        [.whole long, .whole greeting] = some s ∧
      ∀ it ∈ s.log, it.InBounds ∧ it.OnlyOfReceived (fun _ => []) := by
  intro long greeting
  have hsends : ∀ turn ∈ [Turn.whole long, Turn.whole greeting], turn.SendsSucceed := by
    intro turn hmem
    rcases List.mem_pair.mp hmem with rfl | rfl
    · exact sendsSucceed_whole long
    · exact sendsSucceed_whole greeting
  obtain ⟨s, hloop, hiff⟩ := echoLoop_reads_chunk_only_iff (fun _ => [])
    ⟨List.replicate bufferSize 0, List.length_replicate⟩ [.whole long, .whole greeting] hsends
  refine ⟨s, hloop, hiff.mpr ?_⟩
  intro chunk hmem
  have hchunk : chunk = long ∨ chunk = greeting := by
    rw [reached_of_data rfl, if_neg (by decide +kernel), reached_of_data rfl,
      if_neg (by decide)] at hmem
    simpa [reached] using hmem
  left
  rcases hchunk with rfl | rfl
  · have hlen : long.bytes.length = 1023 := List.length_replicate
    rw [hlen]
    decide
  · decide

/-- A chunk that fills the buffer and holds no NUL. -/
def fullChunk : Chunk where
  bytes := List.replicate bufferSize 65
  ne_nil := List.ne_nil_of_length_pos (by rw [List.length_replicate]; decide)
  length_le := List.length_replicate.le

theorem fullChunk_not_terminated : ¬fullChunk.Terminated := by
  rintro (hlt | hmem)
  · rw [fullChunk, List.length_replicate] at hlt
    exact lt_irrefl _ hlt
  · rw [fullChunk] at hmem
    have heq : (0 : UInt8) = 65 := List.eq_of_mem_replicate hmem
    exact absurd heq (by decide)

/-- Such a chunk makes the loop read past the end of its buffer. -/
theorem fullChunk_overread :
    ∃ s, echoLoop (fun _ => [])
        { buffer := ⟨List.replicate bufferSize 0, List.length_replicate⟩ } [.whole fullChunk] =
          some s ∧
      ¬∀ it ∈ s.log, it.InBounds ∧ it.OnlyOfReceived (fun _ => []) := by
  obtain ⟨s, its, hloop, hlog, hsound⟩ := echoLoop_sound_iff (sendsSucceed_singleton fullChunk)
    { buffer := ⟨List.replicate bufferSize 0, List.length_replicate⟩ }
  refine ⟨s, hloop, ?_⟩
  rw [hlog, List.nil_append, hsound]
  intro h
  apply fullChunk_not_terminated
  apply h
  rw [reached_of_data rfl]
  split <;> exact List.mem_cons_self

end Turns

end Gateway.Echo
