import Gateway.Echo.SendLoops
import Gateway.Network.PacketDissector

/-!
# The echo server (`src/phase2_tcp_echo_server.cpp`)

The loop that `main` runs for its one client, from the connection on. What the system calls
of a turn return comes with the turn.
-/

namespace Gateway.Echo
open Network (decText)

def bufferSize : ℕ := 1024

/-- `strncmp(a, b, n)`: the difference of the first bytes that differ, the end of a list
standing for its terminator. -/
def strncmp : Bytes → Bytes → ℕ → ℤ
  | _, _, 0 => 0
  | a, b, n + 1 =>
    if a.headD 0 = b.headD 0 then
      if a.headD 0 = 0 then 0 else strncmp a.tail b.tail n
    else (a.headD 0).toNat - (b.headD 0).toNat

theorem strncmp_literal {lit : Bytes} (h : 0 ∉ lit) (a : Bytes) :
    strncmp a lit lit.length = 0 ↔ lit <+: a := by
  induction lit generalizing a with
  | nil => simp [strncmp]
  | cons c lit ih =>
    have hc : c ≠ 0 := fun heq => h (heq ▸ List.mem_cons_self)
    have hlit := ih (fun hmem => h (List.mem_cons_of_mem c hmem))
    cases a with
    | nil =>
      rw [List.length_cons, strncmp]
      have hne : c.toNat ≠ 0 := fun heq => hc (UInt8.toNat_inj.mp heq)
      simp [hc.symm, hne]
    | cons d a =>
      rw [List.length_cons, strncmp]
      by_cases hd : d = c
      · subst hd
        simp [hc, hlit]
      · have hne : (d.toNat : ℤ) - c.toNat ≠ 0 := by
          have hne : d.toNat ≠ c.toNat := fun heq => hd (UInt8.toNat_inj.mp heq)
          omega
        simp [hd, hne, Ne.symm hd]

/-- A NUL-free text at the start of a zero-padded one lies before the padding. -/
theorem prefix_append_zeros {lit : Bytes} (h : 0 ∉ lit) (a : Bytes) (n : ℕ) :
    lit <+: a ++ List.replicate n 0 ↔ lit <+: a := by
  induction lit generalizing a with
  | nil => simp
  | cons c lit ih =>
    have hc : c ≠ 0 := fun heq => h (heq ▸ List.mem_cons_self)
    have hlit := ih (fun hmem => h (List.mem_cons_of_mem c hmem))
    cases a with
    | nil => cases n <;> simp [List.replicate_succ, hc]
    | cons d a => simp [List.cons_prefix_cons, hlit]

/-- `char buffer[BUFFER_SIZE]` -/
structure Buffer where
  bytes : Bytes
  length_eq : bytes.length = bufferSize

/-- What a `recv` into the buffer can return: something, and at most what fits. -/
structure Chunk where
  bytes : Bytes
  ne_nil : bytes ≠ []
  length_le : bytes.length ≤ bufferSize

namespace Buffer

/-- `memset(buffer, value, BUFFER_SIZE)` -/
def memset (buffer : Buffer) (value : UInt8) : Buffer where
  bytes := List.replicate bufferSize value ++ buffer.bytes.drop bufferSize
  length_eq := by simp [buffer.length_eq]

/-- `recv(client_fd, buffer, BUFFER_SIZE, 0)` when it returns a chunk. -/
def recv (buffer : Buffer) (chunk : Chunk) : Buffer where
  bytes := chunk.bytes ++ buffer.bytes.drop chunk.bytes.length
  length_eq := by
    have hle := chunk.length_le
    rw [List.length_append, List.length_drop, buffer.length_eq]
    omega

/-- The exit commands the server looks for. -/
def requestsExit (buffer : Buffer) : Bool :=
  strncmp buffer.bytes (ascii "quit") 4 = 0 ∨ strncmp buffer.bytes (ascii "exit") 4 = 0

end Buffer

inductive Recv where
  | data (chunk : Chunk)
  | endOfFile
  | error (errno : Errno)

/-- One turn of the loop: what `recv` does, what the `send`s of `send_all` do, and what
memory holds past the buffer at the time. -/
structure Turn where
  recv : Recv
  sends : List SendOutcome := []
  past : Bytes := []

/-- A record of one turn: what was received, the indices of the buffer that were read, the
console output and the bytes that were sent. -/
structure Iteration where
  recv : Recv
  reads : List ℕ := []
  out : Bytes := []
  err : Bytes := []
  sent : Bytes := []

structure Session where
  buffer : Buffer
  totalBytesEchoed : UInt64 := 0
  running : Bool := true
  log : List Iteration := []

/-- Everything sent to the client. -/
def Session.sent (s : Session) : Bytes := s.log.flatMap Iteration.sent

/-- What is printed about a chunk; the text ends at the first NUL from the buffer on. -/
def receivedText (buffer : Buffer) (count : ℕ) (past : Bytes) : Bytes :=
  ascii "[+] Received " ++ decText count ++ ascii " bytes: " ++ cStr (buffer.bytes ++ past) ++
    if buffer.bytes.getD (count - 1) 0 = 10 then [] else [10]

/-- What is read for the print, for the last-byte test and, at most, for the two
comparisons. -/
def receivedReads (buffer : Buffer) (count : ℕ) (past : Bytes) : List ℕ :=
  List.range ((cStr (buffer.bytes ++ past)).length + 1) ++ [count - 1] ++ List.range 4

section Loop
variable (strerror : Errno → Bytes)

/-- The body of the loop for a chunk that is in the buffer, and whether the loop goes on;
`none` when the script ends before `send_all` returns. -/
def serve (buffer : Buffer) (chunk : Chunk) (turn : Turn) : Option (Iteration × Bool) :=
  let count := chunk.bytes.length
  let text := receivedText buffer count turn.past
  let reads := receivedReads buffer count turn.past
  if buffer.requestsExit then
    some ({ recv := turn.recv, reads
            out := text ++ ascii "[+] Client requested session termination.\n" }, false)
  else
    (sendAll strerror (buffer.bytes.take count) turn.sends).map fun sending =>
      let reads := reads ++ sending.slices.flatMap fun slice => List.range' slice.1 slice.2
      if sending.ret ≤ 0 then
        ({ recv := turn.recv, reads, err := sending.err, sent := sending.accepted
           out := text ++ ascii "[-] Failed to echo data back to client.\n" }, false)
      else
        ({ recv := turn.recv, reads, err := sending.err, sent := sending.accepted
           out := text ++ ascii "  -> Echoed " ++ decText sending.ret.toNat ++
             ascii " bytes back to client.\n" }, true)

/-- The record of a turn in which the client closed the connection. -/
def disconnected : Iteration where
  recv := .endOfFile
  out := ascii "[+] Client cleanly disconnected (EOF / TCP FIN received).\n"

/-- The record of a turn in which `recv` failed. -/
def recvError (errno : Errno) : Iteration where
  recv := .error errno
  err := perror strerror (ascii "[-] recv error") errno

/-- One turn of the loop. -/
def echoTurn (s : Session) (turn : Turn) : Option Session :=
  let zeroed := s.buffer.memset 0
  match turn.recv with
  | .data chunk =>
    let buffer := zeroed.recv chunk
    (serve strerror buffer chunk turn).map fun served =>
      { buffer, running := served.2, log := s.log ++ [served.1]
        totalBytesEchoed := s.totalBytesEchoed + .ofNat chunk.bytes.length }
  | .endOfFile =>
    some { s with buffer := zeroed, running := false, log := s.log ++ [disconnected] }
  | .error errno =>
    some { s with buffer := zeroed, running := false, log := s.log ++ [recvError strerror errno] }

/-- The loop, until a turn ends it or the turns run out. -/
def echoLoop (s : Session) : List Turn → Option Session
  | [] => some s
  | turn :: turns =>
    (echoTurn strerror s turn).bind fun t => if t.running then echoLoop t turns else some t

end Loop

/-- The line printed after the loop. -/
def Session.closing (s : Session) : Bytes :=
  ascii "[+] Connection closed. Total bytes echoed: " ++ decText s.totalBytesEchoed.toNat ++
    ascii " bytes.\n"

/-! ## What a turn does -/

/-- The chunk begins with an exit command. -/
def Chunk.AsksExit (chunk : Chunk) : Prop :=
  ascii "quit" <+: chunk.bytes ∨ ascii "exit" <+: chunk.bytes

instance (chunk : Chunk) : Decidable chunk.AsksExit := inferInstanceAs (Decidable (_ ∨ _))

theorem recv_bytes (buffer : Buffer) (chunk : Chunk) :
    ((buffer.memset 0).recv chunk).bytes =
      chunk.bytes ++ List.replicate (bufferSize - chunk.bytes.length) 0 := by
  have hle := chunk.length_le
  have hdrop : buffer.bytes.drop bufferSize = [] := by
    rw [List.drop_eq_nil_iff, buffer.length_eq]
  rw [Buffer.recv, Buffer.memset]
  simp only [hdrop, List.append_nil, List.drop_replicate]

theorem requestsExit_recv (buffer : Buffer) (chunk : Chunk) :
    ((buffer.memset 0).recv chunk).requestsExit = true ↔ chunk.AsksExit := by
  have hquit : 0 ∉ ascii "quit" := by decide
  have hexit : 0 ∉ ascii "exit" := by decide
  rw [Buffer.requestsExit, decide_eq_true_iff, recv_bytes, Chunk.AsksExit,
    ← prefix_append_zeros hquit, ← prefix_append_zeros hexit, ← strncmp_literal hquit,
    ← strncmp_literal hexit]
  rfl

/-- Every `send` of the turn accepts something, and together they offer to take the chunk. -/
def Turn.SendsSucceed (turn : Turn) : Prop :=
  ∀ chunk, turn.recv = .data chunk → (∀ outcome ∈ turn.sends, 0 < outcome.count) ∧
    chunk.bytes.length ≤ (turn.sends.map SendOutcome.count).sum

/-- A chunk that arrives with a `send` that takes all of it. -/
def Turn.whole (chunk : Chunk) : Turn where
  recv := .data chunk
  sends := [.sent chunk.bytes.length]

theorem sendsSucceed_whole (chunk : Chunk) : (Turn.whole chunk).SendsSucceed := by
  intro chunk hchunk
  obtain rfl := Recv.data.inj hchunk
  have hpos := List.length_pos_iff.mpr chunk.ne_nil
  simpa [Turn.whole, SendOutcome.count] using hpos

/-- What is printed once a chunk is dealt with. -/
def Chunk.notice (chunk : Chunk) : Bytes :=
  if chunk.AsksExit then ascii "[+] Client requested session termination.\n"
  else ascii "  -> Echoed " ++ decText chunk.bytes.length ++ ascii " bytes back to client.\n"

/-- What is sent back for a chunk. -/
def Chunk.echo (chunk : Chunk) : Bytes := if chunk.AsksExit then [] else chunk.bytes

/-- The record of a turn that received `chunk`. -/
structure Handles (buffer : Buffer) (chunk : Chunk) (past : Bytes) (it : Iteration) : Prop where
  recv : it.recv = .data chunk
  out : it.out = receivedText buffer chunk.bytes.length past ++ chunk.notice
  err : it.err = []
  sent : it.sent = chunk.echo
  reads_ge : ∀ i ∈ receivedReads buffer chunk.bytes.length past, i ∈ it.reads
  reads_le : ∀ i ∈ it.reads,
    i ∈ receivedReads buffer chunk.bytes.length past ∨ i < chunk.bytes.length

section Spec
variable {strerror : Errno → Bytes} {buffer : Buffer} {turn : Turn} {chunk : Chunk}

theorem serve_of_asksExit (hrecv : turn.recv = .data chunk) (hexit : chunk.AsksExit)
    (hreq : buffer.requestsExit = true) :
    ∃ it, serve strerror buffer chunk turn = some (it, false) ∧
      Handles buffer chunk turn.past it := by
  rw [serve, if_pos hreq]
  refine ⟨_, rfl, hrecv, ?_, rfl, ?_, ?_, ?_⟩
  · rw [Chunk.notice, if_pos hexit]
  · rw [Chunk.echo, if_pos hexit]
  · exact fun i hi => hi
  · exact fun i hi => Or.inl hi

theorem serve_of_not_asksExit (hrecv : turn.recv = .data chunk) (hexit : ¬chunk.AsksExit)
    (hreq : ¬buffer.requestsExit = true)
    (htake : buffer.bytes.take chunk.bytes.length = chunk.bytes) (hsends : turn.SendsSucceed) :
    ∃ it, serve strerror buffer chunk turn = some (it, true) ∧
      Handles buffer chunk turn.past it := by
  obtain ⟨hpos, hsum⟩ := hsends chunk hrecv
  obtain ⟨slices, unused, hsend, hslices⟩ :
      ∃ slices unused, sendAll strerror chunk.bytes turn.sends =
          some { ret := chunk.bytes.length, accepted := chunk.bytes, slices, unused } ∧
        ∀ slice ∈ slices, slice.1 + slice.2 = chunk.bytes.length :=
    sendAllFrom_of_progress hpos (by omega) (Nat.zero_le _)
  have hret : ¬((chunk.bytes.length : ℤ) ≤ 0) := by
    have hlen := List.length_pos_iff.mpr chunk.ne_nil
    omega
  rw [serve, if_neg hreq, htake, hsend, Option.map_some, if_neg hret]
  refine ⟨_, rfl, hrecv, ?_, rfl, ?_, ?_, ?_⟩
  · rw [Chunk.notice, if_neg hexit]
    simp only [List.append_assoc, Int.toNat_natCast]
  · rw [Chunk.echo, if_neg hexit]
  · exact fun i hi => List.mem_append_left _ hi
  · intro i hi
    rcases List.mem_append.mp hi with hi | hi
    · exact Or.inl hi
    · obtain ⟨slice, hslice, hi⟩ := List.mem_flatMap.mp hi
      have hlen := hslices slice hslice
      rw [List.mem_range'_1] at hi
      exact Or.inr (by omega)

/-- A turn that receives a chunk: the loop goes on unless the chunk asks for the exit. -/
theorem echoTurn_of_data {s : Session} (hrecv : turn.recv = .data chunk)
    (hsends : turn.SendsSucceed) :
    ∃ t it, echoTurn strerror s turn = some t ∧ t.log = s.log ++ [it] ∧
      (t.running = true ↔ ¬chunk.AsksExit) ∧
      Handles ((s.buffer.memset 0).recv chunk) chunk turn.past it := by
  have hreq := requestsExit_recv s.buffer chunk
  rw [echoTurn]
  simp only [hrecv]
  by_cases hexit : chunk.AsksExit
  · obtain ⟨it, hserve, hit⟩ := serve_of_asksExit hrecv hexit (hreq.mpr hexit)
    rw [hserve]
    exact ⟨_, it, rfl, rfl, iff_of_false (by simp) (not_not.mpr hexit), hit⟩
  · have htake : ((s.buffer.memset 0).recv chunk).bytes.take chunk.bytes.length =
        chunk.bytes := by
      rw [recv_bytes, List.take_left]
    obtain ⟨it, hserve, hit⟩ :=
      serve_of_not_asksExit hrecv hexit (mt hreq.mp hexit) htake hsends
    rw [hserve]
    exact ⟨_, it, rfl, rfl, iff_of_true rfl hexit, hit⟩

/-- A turn in which the connection ends leaves a record that only says how. -/
theorem echoTurn_of_end {recv : Recv} (hrecv : ∀ chunk, recv ≠ .data chunk) :
    ∃ it : Iteration, it.recv = recv ∧ it.reads = [] ∧ it.sent = [] ∧
      ∀ (s : Session) (turn : Turn), turn.recv = recv →
        ∃ t, echoTurn strerror s turn = some t ∧ t.log = s.log ++ [it] ∧ t.running = false := by
  cases recv with
  | data chunk => exact absurd rfl (hrecv chunk)
  | endOfFile =>
    refine ⟨disconnected, rfl, rfl, rfl, ?_⟩
    intro s turn h
    rw [echoTurn]
    simp only [h]
    exact ⟨_, rfl, rfl, rfl⟩
  | error errno =>
    refine ⟨recvError strerror errno, rfl, rfl, rfl, ?_⟩
    intro s turn h
    rw [echoTurn]
    simp only [h]
    exact ⟨_, rfl, rfl, rfl⟩

end Spec

end Gateway.Echo
