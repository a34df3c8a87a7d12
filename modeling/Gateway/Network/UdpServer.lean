import Gateway.Echo.SendLoops
import Gateway.Lib.Steps
import Gateway.Network.PacketDissector

/-!
# The UDP server (`src/phase11_udp_server.cpp`)

The event loop of `main`, from the bound socket on. What the system calls of a turn do comes
with the turn; only the UDP socket is registered, so `epoll_wait` reports at most that one.
`inet_ntop(AF_INET, ..)` and `strerror` are parameters.
-/

namespace Gateway.Network
open Echo (Errno SendOutcome perror)
open Steps

/-- `MAX_PAYLOAD` -/
def maxPayload : ℕ := 65507

structure Address where
  ip : Net32
  port : Net16
deriving DecidableEq

/-- A datagram that has reached the socket. -/
structure Datagram where
  sender : Address
  payload : Bytes
  length_le : payload.length ≤ 65507

/-- `char buf[MAX_PAYLOAD]` -/
structure UdpBuffer where
  bytes : Bytes
  length_eq : bytes.length = maxPayload

/-- The part of a datagram that `recvfrom` stores; the rest is dropped. -/
def Datagram.received (d : Datagram) : Bytes := d.payload.take (maxPayload - 1)

theorem Datagram.length_received_lt (d : Datagram) : d.received.length < maxPayload := by
  simp only [received, List.length_take, maxPayload]
  omega

namespace UdpBuffer

/-- `recvfrom(udp_fd, buf, sizeof(buf) - 1, ..)` when it returns a datagram. -/
def recvfrom (buf : UdpBuffer) (d : Datagram) : UdpBuffer where
  bytes := d.received ++ buf.bytes.drop d.received.length
  length_eq := by
    have hlt := d.length_received_lt
    rw [List.length_append, List.length_drop, buf.length_eq]
    omega

/-- `buf[bytes] = '\0'` -/
def terminate (buf : UdpBuffer) (bytes : ℕ) : UdpBuffer where
  bytes := buf.bytes.set bytes 0
  length_eq := by rw [List.length_set, buf.length_eq]

end UdpBuffer

/-- The variables of `main`, the console output, what was given to `sendto`, what `sendto` sent
of it and the indices at which the buffer was terminated. -/
structure UdpServer where
  buf : UdpBuffer
  totalDatagrams : UInt64 := 0
  totalBytes : UInt64 := 0
  running : Bool := true
  out : Bytes := []
  err : Bytes := []
  offered : List (Address × Bytes) := []
  sent : List (Address × Bytes) := []
  terminated : List ℕ := []

/-- One turn of the loop. -/
inductive UdpTurn where
  | waitFailed (errno : Errno)
  | idle
  | recvFailed (errno : Errno)
  | datagram (d : Datagram) (send : SendOutcome)

/-- A datagram socket sends all that `sendto` is given, or nothing. -/
def UdpTurn.Possible : UdpTurn → Prop
  | .datagram d (.sent count) => count = d.received.length
  | _ => True

instance decidablePossibleTurn : ∀ turn : UdpTurn, Decidable turn.Possible
  | .datagram d (.sent count) => inferInstanceAs (Decidable (count = d.received.length))
  | .datagram _ (.failed _) => inferInstanceAs (Decidable True)
  | .waitFailed _ => inferInstanceAs (Decidable True)
  | .idle => inferInstanceAs (Decidable True)
  | .recvFailed _ => inferInstanceAs (Decidable True)

/-- The datagrams that leave the machine. -/
def sendto (receiver : Address) (bytes : Bytes) : SendOutcome → List (Address × Bytes)
  | .sent count => [(receiver, bytes.take count)]
  | .failed _ => []

namespace UdpServer

section Texts
variable (inetNtop : Net32 → Bytes)

def emDash : Bytes := [0xE2, 0x80, 0x94]

def idleText : Bytes := ascii "[~] 5s idle " ++ emDash ++ ascii " waiting...\n"

def warnText : Bytes :=
  ascii "  [WARN] Buffer full " ++ emDash ++ ascii " datagram may have been truncated!\n"

def addressText (a : Address) : Bytes :=
  cStr (inetNtop a.ip) ++ ascii ":" ++ decText (ntohs a.port).toNat

def datagramText (number : UInt64) (sender : Address) (bytes : ℕ) (payload : Bytes) : Bytes :=
  ascii "[DATAGRAM #" ++ decText number.toNat ++ ascii "] From " ++
    addressText inetNtop sender ++ ascii "  Size=" ++ decText bytes ++ ascii " B  Payload: \"" ++
    payload ++ ascii "\"\n"

/-- The line printed after the loop. -/
def summary (datagrams bytes : UInt64) : Bytes :=
  ascii "\n[+] Summary: " ++ decText datagrams.toNat ++ ascii " datagrams, " ++
    decText bytes.toNat ++ ascii " bytes total\n"

def sendText (sender : Address) : SendOutcome → Bytes
  | .failed _ => []
  | .sent count =>
    ascii "  [ECHO] Sent " ++ decText count ++ ascii " B back to " ++
      addressText inetNtop sender ++ ascii "\n"

end Texts

section Loop
variable (strerror : Errno → Bytes) (inetNtop : Net32 → Bytes)

def sendErr : SendOutcome → Bytes
  | .failed errno => perror strerror (ascii "[!] sendto") errno
  | .sent _ => []

/-- The body of the loop for a datagram. -/
def onDatagram (s : UdpServer) (d : Datagram) (send : SendOutcome) : UdpServer :=
  let bytes := d.received.length
  let buf := (s.buf.recvfrom d).terminate bytes
  let totalDatagrams := s.totalDatagrams + 1
  { s with
    buf, totalDatagrams
    totalBytes := s.totalBytes + .ofNat bytes
    out := s.out ++ datagramText inetNtop totalDatagrams d.sender bytes (cStr buf.bytes) ++
      sendText inetNtop d.sender send ++ if bytes = maxPayload - 1 then warnText else []
    err := s.err ++ sendErr strerror send
    offered := s.offered ++ [(d.sender, buf.bytes.take bytes)]
    sent := s.sent ++ sendto d.sender (buf.bytes.take bytes) send
    terminated := s.terminated ++ [bytes] }

def step (s : UdpServer) (turn : UdpTurn) : Option UdpServer :=
  if s.running ∧ turn.Possible then
    match turn with
    | .waitFailed errno =>
      some
        { s with
          running := false
          out := s.out ++ summary s.totalDatagrams s.totalBytes
          err := s.err ++ perror strerror (ascii "[!] epoll_wait") errno }
    | .idle => some { s with out := s.out ++ idleText }
    | .recvFailed errno =>
      some { s with err := s.err ++ perror strerror (ascii "[!] recvfrom") errno }
    | .datagram d send => some (s.onDatagram strerror inetNtop d send)
  else none

end Loop

/-! ## What the loop says and sends, whatever was in the buffer -/

/-- The datagram that a turn receives. -/
def datagram? : UdpTurn → Option Datagram
  | .datagram d _ => some d
  | _ => none

/-- The datagram that a turn receives and sends back. -/
def returned? : UdpTurn → Option Datagram
  | .datagram d (.sent _) => some d
  | _ => none

section Report
variable (inetNtop : Net32 → Bytes)

/-- What is printed about a datagram: the text ends at its own first NUL. -/
def report (number : UInt64) (d : Datagram) (send : SendOutcome) : Bytes :=
  datagramText inetNtop number d.sender d.received.length (cStr d.received) ++
    sendText inetNtop d.sender send ++ if d.received.length = maxPayload - 1 then warnText else []

/-- What is printed along a run, after so many datagrams and bytes. -/
def reports (datagrams bytes : UInt64) : List UdpTurn → Bytes
  | [] => []
  | .waitFailed _ :: turns => summary datagrams bytes ++ reports datagrams bytes turns
  | .idle :: turns => idleText ++ reports datagrams bytes turns
  | .recvFailed _ :: turns => reports datagrams bytes turns
  | .datagram d send :: turns =>
    report inetNtop (datagrams + 1) d send ++
      reports (datagrams + 1) (bytes + .ofNat d.received.length) turns

end Report

/-- The buffer holds the datagram, and a terminator right after it. -/
theorem take_terminate_recvfrom (buf : UdpBuffer) (d : Datagram) :
    ((buf.recvfrom d).terminate d.received.length).bytes.take d.received.length = d.received := by
  simp only [UdpBuffer.terminate, UdpBuffer.recvfrom]
  rw [List.take_set_of_le (Nat.le_refl _), List.take_left]

theorem cStr_terminate_recvfrom (buf : UdpBuffer) (d : Datagram) :
    cStr ((buf.recvfrom d).terminate d.received.length).bytes = cStr d.received := by
  have hlt := d.length_received_lt
  have hrest : buf.bytes.drop d.received.length ≠ [] := by
    intro hnil
    have hle := List.drop_eq_nil_iff.mp hnil
    rw [buf.length_eq] at hle
    omega
  obtain ⟨c, rest, hcons⟩ := List.exists_cons_of_ne_nil hrest
  have hbytes : ((buf.recvfrom d).terminate d.received.length).bytes =
      d.received ++ 0 :: rest := by
    simp only [UdpBuffer.terminate, UdpBuffer.recvfrom, hcons]
    rw [List.set_append_right _ _ (Nat.le_refl _), Nat.sub_self, List.set_cons_zero]
  rw [hbytes, cStr_append_nul]

section Runs
variable {strerror : Errno → Bytes} {inetNtop : Net32 → Bytes}

theorem onDatagram_out (s : UdpServer) (d : Datagram) (send : SendOutcome) :
    (s.onDatagram strerror inetNtop d send).out =
      s.out ++ report inetNtop (s.totalDatagrams + 1) d send := by
  simp only [onDatagram, report, cStr_terminate_recvfrom, List.append_assoc]

theorem onDatagram_offered (s : UdpServer) (d : Datagram) (send : SendOutcome) :
    (s.onDatagram strerror inetNtop d send).offered = s.offered ++ [(d.sender, d.received)] := by
  simp only [onDatagram, take_terminate_recvfrom]

theorem onDatagram_sent (s : UdpServer) {d : Datagram} {send : SendOutcome}
    (hpossible : (UdpTurn.datagram d send).Possible) :
    (s.onDatagram strerror inetNtop d send).sent =
      s.sent ++ ([.datagram d send].filterMap returned?).map fun d => (d.sender, d.received) := by
  simp only [onDatagram, take_terminate_recvfrom]
  cases send with
  | sent count =>
    have hwhole : d.received.take count = d.received := List.take_of_length_le hpossible.ge
    simp only [sendto, hwhole]
    rfl
  | failed errno => rfl

/-- What a run from `s` to `t` has added. -/
structure Added (inetNtop : Net32 → Bytes) (s t : UdpServer) (turns : List UdpTurn) : Prop where
  offered : t.offered = s.offered ++
    (turns.filterMap datagram?).map fun d => (d.sender, d.received)
  sent : t.sent = s.sent ++
    (turns.filterMap returned?).map fun d => (d.sender, d.received)
  datagrams : t.totalDatagrams = s.totalDatagrams + .ofNat (turns.filterMap datagram?).length
  bytes : t.totalBytes = s.totalBytes +
    .ofNat ((turns.filterMap datagram?).map fun d => d.received.length).sum
  out : t.out = s.out ++ reports inetNtop s.totalDatagrams s.totalBytes turns
  terminated : t.terminated = s.terminated ++
    (turns.filterMap datagram?).map fun d => d.received.length

theorem added_run {turns : List UdpTurn} {s t : UdpServer}
    (hrun : exec (step strerror inetNtop) s turns = some t) : Added inetNtop s t turns := by
  -- the reports of later turns start from the totals that this turn leaves
  induction turns generalizing s with
  | nil =>
    obtain rfl := Option.some.inj hrun
    exact ⟨by simp, by simp, by simp, by simp, by simp [reports], by simp⟩
  | cons turn turns ih =>
    obtain ⟨u, hu, hrest⟩ := exec_cons.mp hrun
    have hadded := ih hrest
    unfold step at hu
    split_ifs at hu with hif
    obtain ⟨-, hpossible⟩ := hif
    cases turn with
    | waitFailed errno =>
      obtain rfl := Option.some.inj hu
      refine ⟨hadded.offered, hadded.sent, hadded.datagrams, hadded.bytes, ?_, hadded.terminated⟩
      rw [hadded.out, reports, List.append_assoc]
    | idle =>
      obtain rfl := Option.some.inj hu
      refine ⟨hadded.offered, hadded.sent, hadded.datagrams, hadded.bytes, ?_, hadded.terminated⟩
      rw [hadded.out, reports, List.append_assoc]
    | recvFailed errno =>
      -- a failed `recvfrom` writes to `cerr` alone
      obtain rfl := Option.some.inj hu
      exact ⟨hadded.offered, hadded.sent, hadded.datagrams, hadded.bytes, hadded.out,
        hadded.terminated⟩
    | datagram d send =>
      obtain rfl := Option.some.inj hu
      have hlist : (UdpTurn.datagram d send :: turns).filterMap datagram? =
          d :: turns.filterMap datagram? := rfl
      have hreturned : (UdpTurn.datagram d send :: turns).filterMap returned? =
          [.datagram d send].filterMap returned? ++ turns.filterMap returned? :=
        List.filterMap_append (l := [UdpTurn.datagram d send])
      refine ⟨?_, ?_, ?_, ?_, ?_, ?_⟩
      · rw [hadded.offered, onDatagram_offered, hlist, List.map_cons, List.append_assoc]
        rfl
      · rw [hadded.sent, onDatagram_sent s hpossible, hreturned, List.map_append,
          List.append_assoc]
      · rw [hadded.datagrams, hlist, List.length_cons, Nat.add_comm, UInt64.ofNat_add,
          ← UInt64.add_assoc]
        rfl
      · rw [hadded.bytes, hlist, List.map_cons, List.sum_cons, UInt64.ofNat_add,
          ← UInt64.add_assoc]
        rfl
      · rw [hadded.out, onDatagram_out, reports, List.append_assoc]
        rfl
      · rw [hadded.terminated, hlist, List.map_cons]
        simp [onDatagram]

/-- In every run each datagram that was received is given to `sendto` for its own sender, once
and in order, as far as the buffer took it, and goes back whole unless that call fails; the
totals count all of them; what is printed depends on the turns alone, whatever the buffer held
before; the terminator is written inside of the buffer; and a datagram that was cut is one that
the warning is printed for. -/
theorem udp_echoes_each_datagram (strerror : Errno → Bytes) (inetNtop : Net32 → Bytes)
    (buf : UdpBuffer) (turns : List UdpTurn) (s : UdpServer)
    (hrun : exec (step strerror inetNtop) { buf } turns = some s) :
    s.offered = (turns.filterMap datagram?).map (fun d => (d.sender, d.received)) ∧
      s.sent = (turns.filterMap returned?).map (fun d => (d.sender, d.received)) ∧
      s.totalDatagrams = .ofNat (turns.filterMap datagram?).length ∧
      s.totalBytes = .ofNat ((turns.filterMap datagram?).map fun d => d.received.length).sum ∧
      s.out = reports inetNtop 0 0 turns ∧
      (∀ i ∈ s.terminated, i < maxPayload) ∧
      ∀ d ∈ turns.filterMap datagram?, d.received ≠ d.payload →
        d.received.length = maxPayload - 1 := by
  have hadded := added_run hrun
  refine ⟨by simpa using hadded.offered, by simpa using hadded.sent, ?_, ?_,
    by simpa using hadded.out, ?_, ?_⟩
  · rw [hadded.datagrams]
    exact UInt64.zero_add _
  · rw [hadded.bytes]
    exact UInt64.zero_add _
  · intro i hi
    rw [hadded.terminated] at hi
    obtain ⟨d, -, rfl⟩ := List.mem_map.mp hi
    exact d.length_received_lt
  · intro d _ hcut
    have hlt : maxPayload - 1 < d.payload.length := by
      by_contra hle
      exact hcut (List.take_of_length_le (not_lt.mp hle))
    simp only [Datagram.received, List.length_take]
    omega

end Runs

/-- A datagram with a NUL inside, after a longer one; the second answer cannot be sent. -/
def twoDatagrams : List UdpTurn :=
  let sender : Address := ⟨⟨127, 0, 0, 1⟩, ⟨0, 80⟩⟩
  [.datagram ⟨sender, ascii "hello", by decide⟩ (.sent 5), .idle,
    .datagram ⟨sender, [104, 0, 105], by decide⟩ (.failed (.other 101)),
    .waitFailed .eintr]

theorem udp_echoes_each_datagram_twoDatagrams :
    ∃ s, exec (step (fun _ => []) (fun _ => ascii "127.0.0.1"))
        { buf := ⟨List.replicate 65507 1, List.length_replicate⟩ } twoDatagrams = some s ∧
      s.offered.map Prod.snd = [ascii "hello", [104, 0, 105]] ∧
      s.sent.map Prod.snd = [ascii "hello"] ∧ s.totalDatagrams = 2 := by
  have hrun : ∃ s, exec (step (fun _ => []) (fun _ => ascii "127.0.0.1"))
      { buf := ⟨List.replicate 65507 1, List.length_replicate⟩ } twoDatagrams = some s :=
    ⟨_, rfl⟩
  obtain ⟨s, hs⟩ := hrun
  obtain ⟨hoffered, hsent, hcount, -⟩ := udp_echoes_each_datagram _ _ _ twoDatagrams s hs
  refine ⟨s, hs, ?_, ?_, hcount⟩
  · rw [hoffered]
    rfl
  · rw [hsent]
    rfl

end UdpServer

end Gateway.Network
