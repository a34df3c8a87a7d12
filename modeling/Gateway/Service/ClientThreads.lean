import Gateway.Echo.EchoServer
import Gateway.Lib.Owners
import Gateway.Service.EchoService

/-!
# A thread for each client (`src/phase3_multithreaded_server.cpp`)

`main` accepts clients and starts a detached thread for each, and the threads run
`handle_client` in any order, one access to a counter or a socket at a time. The server of
phase 4 runs the same function, without its second counter, so the handler takes as a parameter
whether there is one. What the system calls return comes with each step, and console output is
left out.
-/

namespace Gateway.Service
open Owners Steps

/-- Where a thread is in `handle_client`. -/
inductive HandlerPoint where
  /-- before `active_clients++` -/
  | entry
  /-- before `total_clients_served++` -/
  | counting
  | recv
  /-- in `send_all`, with `total` of the `length` bytes out -/
  | sending (length total : ℕ)
  /-- out of the loop, before `close` -/
  | closing
  /-- before `active_clients--` -/
  | leaving
  | returned
deriving DecidableEq

/-- The variables of one `handle_client`. -/
structure Handler where
  fd : ℤ
  buffer : Echo.Buffer
  point : HandlerPoint

/-- What the threads share. -/
structure Globals where
  activeClients : UInt64 := 0
  totalClientsServed : UInt64 := 0
  sockets : Sockets := {}

inductive HandlerAct where
  | next
  | recv (result : Echo.Recv)
  | send (outcome : Echo.SendOutcome)

namespace Handler

/-- The thread that `main` starts for `client_fd`; its array is not initialised. -/
def new (fd : ℤ) (buffer : Echo.Buffer) : Handler := ⟨fd, buffer, .entry⟩

/-- The body of the loop up to `send_all`. -/
def onRecv (h : Handler) (g : Globals) (result : Echo.Recv) : Handler × Globals :=
  let zeroed := h.buffer.memset 0
  match result with
  | .data chunk =>
    let h := { h with buffer := zeroed.recv chunk }
    let g := { g with sockets := g.sockets.recv h.fd chunk.bytes }
    if h.buffer.requestsExit then ({ h with point := .closing }, g)
    else ({ h with point := .sending chunk.bytes.length 0 }, g)
  | .endOfFile => ({ h with buffer := zeroed, point := .closing }, g)
  | .error _ => ({ h with buffer := zeroed, point := .closing }, g)

/-- The `length - total` bytes at `buffer + total`, which the next `send` is given. -/
def offered (h : Handler) (length total : ℕ) : Bytes :=
  (h.buffer.bytes.drop total).take (length - total)

/-- One turn of `send_all`, and what the loop does with its result. -/
def onSend (h : Handler) (g : Globals) (length total : ℕ) (outcome : Echo.SendOutcome) :
    Handler × Globals :=
  let offered := h.offered length total
  match outcome with
  | .failed _ => ({ h with point := .closing }, { g with sockets := g.sockets.send h.fd offered 0 })
  | .sent count =>
    let bytesSent := min count (length - total)
    let g := { g with sockets := g.sockets.send h.fd offered bytesSent }
    if bytesSent = 0 then ({ h with point := .closing }, g)
    else if total + bytesSent < length then
      ({ h with point := .sending length (total + bytesSent) }, g)
    else ({ h with point := .recv }, g)

/-- One step of `handle_client`; `counts` says whether it has `total_clients_served`. -/
def move (counts : Bool) (h : Handler) (g : Globals) : HandlerAct → Option (Handler × Globals)
  | .next =>
    match h.point with
    | .entry =>
      some ({ h with point := if counts then .counting else .recv },
        { g with activeClients := g.activeClients + 1 })
    | .counting =>
      some ({ h with point := .recv }, { g with totalClientsServed := g.totalClientsServed + 1 })
    | .closing => some ({ h with point := .leaving }, { g with sockets := g.sockets.close h.fd })
    | .leaving =>
      some ({ h with point := .returned }, { g with activeClients := g.activeClients - 1 })
    | _ => none
  | .recv result =>
    match h.point with
    | .recv => some (h.onRecv g result)
    | _ => none
  | .send outcome =>
    match h.point with
    | .sending length total => some (h.onSend g length total outcome)
    | _ => none

/-- The descriptor that the thread has to close. -/
def holding (h : Handler) : Option ℤ :=
  match h.point with
  | .leaving => none
  | .returned => none
  | _ => some h.fd

/-- The thread is counted in `active_clients`. -/
def active (h : Handler) : Bool :=
  match h.point with
  | .entry => false
  | .returned => false
  | _ => true

/-- The thread is counted in `total_clients_served`. -/
def served (h : Handler) : Bool :=
  match h.point with
  | .entry => false
  | .counting => false
  | _ => true

/-- What is owed to the client is in the buffer from `total` on, and all else went back. -/
structure InOrder (h : Handler) (x : Session) : Prop where
  echoed : x.echoed ++ x.owed = x.received
  answered : h.point = .entry ∨ h.point = .counting ∨ h.point = .recv → x.owed = []
  sending : ∀ length total, h.point = .sending length total →
    total < length ∧ length ≤ h.buffer.bytes.length ∧ x.owed = h.offered length total

end Handler

/-- The threads, in the order in which `main` started them, and what they share. -/
structure ThreadServer where
  handlers : List Handler := []
  globals : Globals := {}

inductive ThreadAct where
  /-- `accept` returned `fd`, and `main` started a thread with this array -/
  | accept (fd : ℤ) (buffer : Echo.Buffer)
  | acceptFailed
  | thread (i : ℕ) (act : HandlerAct)

namespace ThreadServer

/-- `accept` and the start of the thread; the system returns a descriptor that is not in use. -/
def accept (serverFd : ℤ) (s : ThreadServer) (fd : ℤ) (buffer : Echo.Buffer) :
    Option ThreadServer :=
  if 0 ≤ fd ∧ fd ≠ serverFd ∧ fd ∉ s.globals.sockets.openFds then
    some
      { handlers := s.handlers ++ [.new fd buffer]
        globals := { s.globals with sockets := s.globals.sockets.accept fd } }
  else none

/-- One step of thread `i`. -/
def thread (counts : Bool) (s : ThreadServer) (i : ℕ) (act : HandlerAct) :
    Option ThreadServer :=
  (s.handlers[i]?.bind fun h => h.move counts s.globals act).map fun r =>
    ⟨s.handlers.set i r.1, r.2⟩

/-- The server of phase 3. -/
def step (serverFd : ℤ) (s : ThreadServer) : ThreadAct → Option ThreadServer
  | .accept fd buffer => s.accept serverFd fd buffer
  | .acceptFailed => some s
  | .thread i act => s.thread true i act

/-- The descriptor that thread `i` has to close. -/
def holding (s : ThreadServer) (i : ℕ) : Option ℤ := s.handlers[i]?.bind Handler.holding

/-- The open connections of the service are those of the threads, and what ended before is in
order. -/
structure Tracks (s : ThreadServer) (t : EchoService) : Prop where
  leads : s.globals.sockets.Leads t
  current : ∀ (i : ℕ) (h : Handler) (fd : ℤ), s.handlers[i]? = some h → h.holding = some fd →
    ∃ x, t.sessions fd = some x ∧ h.InOrder x
  ended : ∀ y ∈ t.ended, y.2.echoed <+: y.2.received

structure Inv (counts : Bool) (s : ThreadServer) : Prop where
  tracks : ∃ t, s.Tracks t
  owns : Owns s.holding s.globals.sockets.openFds
  active : s.globals.activeClients = .ofNat (s.handlers.countP Handler.active)
  served : counts = true →
    s.globals.totalClientsServed = .ofNat (s.handlers.countP Handler.served)

end ThreadServer

/-! ## What one step of a handler does -/

namespace Handler

inductive Moves (counts : Bool) (h : Handler) (g : Globals) : Handler → Globals → Prop
  | enter (hpoint : h.point = .entry) :
      Moves counts h g { h with point := if counts then .counting else .recv }
        { g with activeClients := g.activeClients + 1 }
  | count (hpoint : h.point = .counting) :
      Moves counts h g { h with point := .recv }
        { g with totalClientsServed := g.totalClientsServed + 1 }
  | receive (hpoint : h.point = .recv) (chunk : Echo.Chunk) :
      Moves counts h g
        { h with buffer := (h.buffer.memset 0).recv chunk, point := .sending chunk.bytes.length 0 }
        { g with sockets := g.sockets.recv h.fd chunk.bytes }
  /-- an exit command, which is not sent back -/
  | quit (hpoint : h.point = .recv) (chunk : Echo.Chunk) :
      Moves counts h g { h with buffer := (h.buffer.memset 0).recv chunk, point := .closing }
        { g with sockets := g.sockets.recv h.fd chunk.bytes }
  | stop (hpoint : h.point = .recv) (buffer : Echo.Buffer) :
      Moves counts h g { h with buffer, point := .closing } g
  | send {length total n : ℕ} (hpoint : h.point = .sending length total)
      (hlt : total + n < length) :
      Moves counts h g { h with point := .sending length (total + n) }
        { g with sockets := g.sockets.send h.fd (h.offered length total) n }
  /-- a `send` that took nothing -/
  | cut {length total : ℕ} (hpoint : h.point = .sending length total) :
      Moves counts h g { h with point := .closing }
        { g with sockets := g.sockets.send h.fd (h.offered length total) 0 }
  | echoed {length total : ℕ} (hpoint : h.point = .sending length total) :
      Moves counts h g { h with point := .recv }
        { g with sockets := g.sockets.send h.fd (h.offered length total) (length - total) }
  | close (hpoint : h.point = .closing) :
      Moves counts h g { h with point := .leaving } { g with sockets := g.sockets.close h.fd }
  | leave (hpoint : h.point = .leaving) :
      Moves counts h g { h with point := .returned }
        { g with activeClients := g.activeClients - 1 }

section
variable {counts : Bool} {h h' : Handler} {g g' : Globals} {x : Session}

theorem moves_onRecv (hpoint : h.point = .recv) (result : Echo.Recv) :
    Moves counts h g (h.onRecv g result).1 (h.onRecv g result).2 := by
  cases result with
  | data chunk =>
    simp only [onRecv]
    split_ifs
    · exact .quit hpoint chunk
    · exact .receive hpoint chunk
  | endOfFile => exact .stop hpoint _
  | error errno => exact .stop hpoint _

theorem moves_onSend {length total : ℕ} (hpoint : h.point = .sending length total)
    (outcome : Echo.SendOutcome) :
    Moves counts h g (h.onSend g length total outcome).1 (h.onSend g length total outcome).2 := by
  cases outcome with
  | failed errno => exact .cut hpoint
  | sent count =>
    simp only [onSend]
    split_ifs with hzero hmore
    · rw [hzero]
      exact .cut hpoint
    · exact .send hpoint hmore
    · have hall : min count (length - total) = length - total := by omega
      rw [hall]
      exact .echoed hpoint

theorem moves_of_move {act : HandlerAct} (hmove : h.move counts g act = some (h', g')) :
    Moves counts h g h' g' := by
  cases act with
  | next =>
    rw [move] at hmove
    split at hmove
    · next hpoint =>
      cases hmove
      exact .enter hpoint
    · next hpoint =>
      cases hmove
      exact .count hpoint
    · next hpoint =>
      cases hmove
      exact .close hpoint
    · next hpoint =>
      cases hmove
      exact .leave hpoint
    · cases hmove
  | recv result =>
    rw [move] at hmove
    split at hmove
    · next hpoint =>
      have hr := Option.some.inj hmove
      have hm : Moves counts h g _ _ := moves_onRecv hpoint result
      simpa only [hr] using hm
    · cases hmove
  | send outcome =>
    rw [move] at hmove
    split at hmove
    · next length total hpoint =>
      have hr := Option.some.inj hmove
      have hm : Moves counts h g _ _ := moves_onSend hpoint outcome
      simpa only [hr] using hm
    · cases hmove

theorem length_offered {length total : ℕ} (hle : length ≤ h.buffer.bytes.length) :
    (h.offered length total).length = length - total := by
  rw [offered, List.length_take, List.length_drop]
  omega

/-- What a `send` does not take is offered next. -/
theorem drop_offered (h : Handler) (length total n : ℕ) :
    (h.offered length total).drop n = h.offered length (total + n) := by
  rw [offered, offered, List.drop_take, List.drop_drop, Nat.sub_sub]

/-- The buffer holds the chunk from its start on. -/
theorem offered_recv (h : Handler) (chunk : Echo.Chunk) :
    offered { h with
      buffer := (h.buffer.memset 0).recv chunk, point := .sending chunk.bytes.length 0 }
      chunk.bytes.length 0 = chunk.bytes := by
  show (((h.buffer.memset 0).recv chunk).bytes.drop 0).take (chunk.bytes.length - 0) = chunk.bytes
  rw [List.drop_zero, Nat.sub_zero, Echo.recv_bytes, List.take_left]

theorem InOrder.isPrefix (hin : h.InOrder x) : x.echoed <+: x.received :=
  ⟨x.owed, hin.echoed⟩

theorem InOrder.receive (hin : h.InOrder x) (hpoint : h.point = .recv) (chunk : Echo.Chunk)
    {point : HandlerPoint} (hnext : point = .sending chunk.bytes.length 0 ∨ point = .closing) :
    InOrder { h with buffer := (h.buffer.memset 0).recv chunk, point } (x.recv chunk.bytes) := by
  have howed : x.owed = [] := hin.answered (Or.inr (Or.inr hpoint))
  refine ⟨?_, ?_, ?_⟩
  · show x.echoed ++ chunk.bytes = x.received ++ chunk.bytes
    rw [← hin.echoed, howed, List.append_nil]
  · rintro (hp | hp | hp) <;> rcases hnext with hn | hn <;> cases hn.symm.trans hp
  · intro length total hp
    rcases hnext with hn | hn
    · cases hn.symm.trans hp
      refine ⟨List.length_pos_iff.mpr chunk.ne_nil, ?_, ?_⟩
      · show chunk.bytes.length ≤ ((h.buffer.memset 0).recv chunk).bytes.length
        rw [((h.buffer.memset 0).recv chunk).length_eq]
        exact chunk.length_le
      · exact (h.offered_recv chunk).symm
    · cases hn.symm.trans hp

/-- A `send` that took `n` bytes leaves the rest owed. -/
theorem InOrder.send (hin : h.InOrder x) {length total n : ℕ}
    (hpoint : h.point = .sending length total) {point : HandlerPoint}
    (hnext : point = .sending length (total + n) ∧ total + n < length ∨
      point = .recv ∧ total + n = length ∨ point = .closing) :
    InOrder { h with point } (x.send x.owed n) := by
  obtain ⟨hlt, hle, howed⟩ := hin.sending length total hpoint
  have hrest : (x.send x.owed n).owed = h.offered length (total + n) := by
    show x.owed.drop n = h.offered length (total + n)
    rw [howed, drop_offered]
  refine ⟨?_, ?_, ?_⟩
  · show x.echoed ++ x.owed.take n ++ x.owed.drop n = x.received
    rw [List.append_assoc, List.take_append_drop, hin.echoed]
  · intro hp
    rw [hrest]
    rcases hnext with ⟨hn, -⟩ | ⟨-, hall⟩ | hn
    · rcases hp with hp | hp | hp <;> cases hn.symm.trans hp
    · rw [offered, hall, Nat.sub_self, List.take_zero]
    · rcases hp with hp | hp | hp <;> cases hn.symm.trans hp
  · intro length' total' hp
    rcases hnext with ⟨hn, hmore⟩ | ⟨hn, -⟩ | hn
    · cases hn.symm.trans hp
      exact ⟨hmore, hle, hrest⟩
    · cases hn.symm.trans hp
    · cases hn.symm.trans hp

/-- A move within the loop that makes no call for the client. -/
theorem InOrder.goOn (hin : h.InOrder x) {point : HandlerPoint} {buffer : Echo.Buffer}
    (hanswered : point = .recv ∨ point = .counting →
      h.point = .entry ∨ h.point = .counting ∨ h.point = .recv)
    (hnext : point = .recv ∨ point = .counting ∨ point = .closing) :
    InOrder { h with buffer, point } x := by
  refine ⟨hin.echoed, ?_, ?_⟩
  · rintro (hp | hp | hp)
    · rcases hnext with hn | hn | hn <;> cases hn.symm.trans hp
    · exact hin.answered (hanswered (.inr hp))
    · exact hin.answered (hanswered (.inl hp))
  · intro length total hp
    rcases hnext with hn | hn | hn <;> cases hn.symm.trans hp

end

end Handler

/-! ## What the steps of the server keep -/

section Counting
variable {α : Type*} {p : α → Bool} {l : List α} {i : ℕ} {a b : α}

theorem countP_set_same (hi : l[i]? = some a) (hp : p b = p a) :
    (l.set i b).countP p = l.countP p := by
  obtain ⟨hlt, hget⟩ := List.getElem?_eq_some_iff.mp hi
  have hle := List.boole_getElem_le_countP (p := p) hlt
  rw [List.countP_set hlt, hp, hget]
  rw [hget] at hle
  omega

theorem countP_set_true (hi : l[i]? = some a) (ha : p a = false) (hb : p b = true) :
    (l.set i b).countP p = l.countP p + 1 := by
  obtain ⟨hlt, hget⟩ := List.getElem?_eq_some_iff.mp hi
  rw [List.countP_set hlt, hget, ha, hb]
  simp

theorem countP_set_false (hi : l[i]? = some a) (ha : p a = true) (hb : p b = false) :
    l.countP p = (l.set i b).countP p + 1 := by
  obtain ⟨hlt, hget⟩ := List.getElem?_eq_some_iff.mp hi
  have hle := List.boole_getElem_le_countP (p := p) hlt
  rw [List.countP_set hlt, hget, ha, hb]
  rw [hget, ha] at hle
  simp only [if_true, Bool.false_eq_true, if_false] at hle ⊢
  omega

end Counting

namespace ThreadServer
variable {counts : Bool} {s : ThreadServer} {i : ℕ} {h h' : Handler} {g' : Globals}

theorem holding_set (hi : s.handlers[i]? = some h) :
    holding ⟨s.handlers.set i h', g'⟩ = Function.update s.holding i h'.holding := by
  obtain ⟨hlt, -⟩ := List.getElem?_eq_some_iff.mp hi
  funext j
  rw [Function.update_apply, holding, List.getElem?_set]
  by_cases hj : j = i
  · subst hj
    simp [hlt]
  · simp [hj, Ne.symm hj, holding]

theorem holding_of_getElem? (hi : s.handlers[i]? = some h) : s.holding i = h.holding := by
  rw [holding, hi, Option.bind_some]

theorem owns_thread (howns : Owns s.holding s.globals.sockets.openFds)
    (hi : s.handlers[i]? = some h) (hm : h.Moves counts s.globals h' g') :
    Owns (holding ⟨s.handlers.set i h', g'⟩) g'.sockets.openFds := by
  rw [holding_set hi]
  have hold := holding_of_getElem? hi
  have hsame (heq : h'.holding = h.holding) :
      Owns (Function.update s.holding i h'.holding) s.globals.sockets.openFds := by
    rwa [heq, ← hold, Function.update_eq_self]
  cases hm with
  | enter hpoint =>
    apply hsame
    cases counts <;> simp [Handler.holding, hpoint]
  | count hpoint => exact hsame (by simp [Handler.holding, hpoint])
  | receive hpoint chunk => exact hsame (by simp [Handler.holding, hpoint])
  | quit hpoint chunk => exact hsame (by simp [Handler.holding, hpoint])
  | stop hpoint buffer => exact hsame (by simp [Handler.holding, hpoint])
  | send hpoint hlt => exact hsame (by simp [Handler.holding, hpoint])
  | cut hpoint => exact hsame (by simp [Handler.holding, hpoint])
  | echoed hpoint => exact hsame (by simp [Handler.holding, hpoint])
  | close hpoint => exact howns.release (hold.trans (by simp [Handler.holding, hpoint]))
  | leave hpoint => exact hsame (by simp [Handler.holding, hpoint])

/-- A step of a thread that leaves the sockets alone. -/
theorem Tracks.quiet {t : EchoService} (ht : s.Tracks t) (hi : s.handlers[i]? = some h)
    (hsockets : g'.sockets = s.globals.sockets)
    (hkeep : ∀ fd, h'.holding = some fd →
      h.holding = some fd ∧ ∀ x, h.InOrder x → h'.InOrder x) :
    Tracks ⟨s.handlers.set i h', g'⟩ t := by
  refine ⟨?_, ?_, ht.ended⟩
  · show g'.sockets.Leads t
    rw [hsockets]
    exact ht.leads
  · intro j k fd hj hk
    rw [List.getElem?_set] at hj
    split_ifs at hj with hij hlt
    · obtain rfl := Option.some.inj hj
      obtain ⟨hfd, hin⟩ := hkeep fd hk
      obtain ⟨x, hx, hxin⟩ := ht.current i h fd hi hfd
      exact ⟨x, hx, hin x hxin⟩
    · exact ht.current j k fd hj hk

/-- A step of a thread that changes its own connection. -/
theorem current_of_update {t u : EchoService} (ht : s.Tracks t)
    (howns : Owns s.holding s.globals.sockets.openFds) (hi : s.handlers[i]? = some h)
    {fd : ℤ} (hfd : h.holding = some fd)
    (hown : ∀ f, h'.holding = some f → ∃ x, u.sessions f = some x ∧ h'.InOrder x)
    (hother : ∀ f, f ≠ fd → u.sessions f = t.sessions f) (j : ℕ) (k : Handler) (f : ℤ)
    (hj : (s.handlers.set i h')[j]? = some k) (hk : k.holding = some f) :
    ∃ x, u.sessions f = some x ∧ k.InOrder x := by
  rw [List.getElem?_set] at hj
  split_ifs at hj with hij hlt
  · obtain rfl := Option.some.inj hj
    exact hown f hk
  · rw [hother f]
    · exact ht.current j k f hj hk
    · intro heq
      apply hij
      apply howns.unique i j fd
      · exact (holding_of_getElem? hi).trans hfd
      · exact (holding_of_getElem? hj).trans (heq ▸ hk)

/-- A call of a thread for its own connection. -/
theorem Tracks.put {t : EchoService} (ht : s.Tracks t)
    (howns : Owns s.holding s.globals.sockets.openFds) (hi : s.handlers[i]? = some h)
    (hheld : h.holding = some h.fd) {y : Session} (hleads : g'.sockets.Leads (t.put h.fd y))
    (hfd : h'.fd = h.fd) (hin : h'.InOrder y) :
    Tracks ⟨s.handlers.set i h', g'⟩ (t.put h.fd y) := by
  refine ⟨hleads, ?_, ht.ended⟩
  apply current_of_update ht howns hi hheld
  · intro fd hk
    have heq : h'.fd = fd := by
      unfold Handler.holding at hk
      split at hk
      · cases hk
      · cases hk
      · exact Option.some.inj hk
    rw [← heq, hfd, EchoService.sessions_put, if_pos rfl]
    exact ⟨y, rfl, hin⟩
  · intro fd hne
    rw [EchoService.sessions_put, if_neg hne]

theorem tracks_thread (hinv : Inv counts s) (hi : s.handlers[i]? = some h)
    (hm : h.Moves counts s.globals h' g') : ∃ t, Tracks ⟨s.handlers.set i h', g'⟩ t := by
  obtain ⟨t, ht⟩ := hinv.tracks
  -- a step that touches no socket keeps the sessions, and the thread stays inside of its own
  have hquiet {point : HandlerPoint} {buffer : Echo.Buffer} {g : Globals}
      (hsockets : g.sockets = s.globals.sockets) (hheld : h.holding = some h.fd)
      (hanswered : point = .recv ∨ point = .counting →
        h.point = .entry ∨ h.point = .counting ∨ h.point = .recv)
      (hnext : point = .recv ∨ point = .counting ∨ point = .closing) :
      ∃ t, Tracks ⟨s.handlers.set i { h with buffer, point }, g⟩ t := by
    refine ⟨t, ht.quiet hi hsockets fun fd hk => ⟨?_, fun x hx => hx.goOn hanswered hnext⟩⟩
    rcases hnext with rfl | rfl | rfl <;> exact hheld.trans hk
  -- a `send` answers what the session still owes, which is the rest of the chunk
  have hsend {length total n : ℕ} {point : HandlerPoint} (hpoint : h.point = .sending length total)
      (hn : n ≤ length - total)
      (hnext : total < length → point = .sending length (total + n) ∧ total + n < length ∨
        point = .recv ∧ total + n = length ∨ point = .closing) :
      ∃ t, Tracks ⟨s.handlers.set i { h with point }, { s.globals with
        sockets := s.globals.sockets.send h.fd (h.offered length total) n }⟩ t := by
    have hheld : h.holding = some h.fd := by simp [Handler.holding, hpoint]
    obtain ⟨x, hx, hin⟩ := ht.current i h h.fd hi hheld
    obtain ⟨hlt, hle, howed⟩ := hin.sending length total hpoint
    have hlength : x.owed.length = length - total := by rw [howed, Handler.length_offered hle]
    have hne : x.owed ≠ [] := by
      rw [← List.length_pos_iff, hlength]
      omega
    refine ⟨_, ht.put hinv.owns hi hheld ?_ rfl (hin.send hpoint (hnext hlt))⟩
    show (s.globals.sockets.send h.fd (h.offered length total) n).Leads _
    rw [← howed]
    exact ht.leads.send hx hne (hlength.symm ▸ hn)
  cases hm with
  | enter hpoint =>
    refine hquiet rfl (by simp [Handler.holding, hpoint]) (fun _ => .inl hpoint) ?_
    cases counts <;> simp
  | count hpoint =>
    exact hquiet rfl (by simp [Handler.holding, hpoint]) (fun _ => .inr (.inl hpoint)) (.inl rfl)
  | stop hpoint buffer =>
    exact hquiet rfl (by simp [Handler.holding, hpoint]) (fun _ => .inr (.inr hpoint))
      (.inr (.inr rfl))
  | receive hpoint chunk =>
    have hheld : h.holding = some h.fd := by simp [Handler.holding, hpoint]
    obtain ⟨x, hx, hin⟩ := ht.current i h h.fd hi hheld
    -- a chunk is received only when the last one has been echoed
    have howed : x.owed = [] := hin.answered (.inr (.inr hpoint))
    exact ⟨_, ht.put hinv.owns hi hheld (ht.leads.recv hx chunk.ne_nil (.inl howed)) rfl
      (hin.receive hpoint chunk (.inl rfl))⟩
  | quit hpoint chunk =>
    have hheld : h.holding = some h.fd := by simp [Handler.holding, hpoint]
    obtain ⟨x, hx, hin⟩ := ht.current i h h.fd hi hheld
    have howed : x.owed = [] := hin.answered (.inr (.inr hpoint))
    exact ⟨_, ht.put hinv.owns hi hheld (ht.leads.recv hx chunk.ne_nil (.inl howed)) rfl
      (hin.receive hpoint chunk (.inr rfl))⟩
  | send hpoint hmore => exact hsend hpoint (by omega) fun _ => .inl ⟨rfl, hmore⟩
  | cut hpoint => exact hsend hpoint (Nat.zero_le _) fun _ => .inr (.inr rfl)
  | echoed hpoint => exact hsend hpoint le_rfl fun _ => .inr (.inl ⟨rfl, by omega⟩)
  | close hpoint =>
    have hheld : h.holding = some h.fd := by simp [Handler.holding, hpoint]
    obtain ⟨x, hx, hin⟩ := ht.current i h h.fd hi hheld
    refine ⟨_, ht.leads.close hx, ?_, ?_⟩
    · apply current_of_update ht hinv.owns hi hheld
      · simp [Handler.holding]
      · intro fd hne
        rw [EchoService.sessions_finish, if_neg hne]
    -- an ended session leaves the list of current ones, and its echo stays a prefix
    · intro y hy
      rcases List.mem_append.mp hy with hy | hy
      · exact ht.ended y hy
      · obtain rfl := List.mem_singleton.mp hy
        exact hin.isPrefix
  | leave hpoint => exact ⟨t, ht.quiet hi rfl (by simp [Handler.holding])⟩

theorem active_thread
    (hactive : s.globals.activeClients = .ofNat (s.handlers.countP Handler.active))
    (hi : s.handlers[i]? = some h) (hm : h.Moves counts s.globals h' g') :
    g'.activeClients = .ofNat ((s.handlers.set i h').countP Handler.active) := by
  have hsame (hg : g'.activeClients = s.globals.activeClients) (heq : h'.active = h.active) :
      g'.activeClients = .ofNat ((s.handlers.set i h').countP Handler.active) := by
    rw [hg, countP_set_same hi heq, hactive]
  cases hm with
  | enter hpoint =>
    have hgain := countP_set_true (p := Handler.active) (l := s.handlers) (i := i) (a := h)
      (b := { h with point := if counts then .counting else .recv }) hi
      (by simp [Handler.active, hpoint]) (by cases counts <;> simp [Handler.active])
    rw [hgain, UInt64.ofNat_add, ← hactive]
    rfl
  | count hpoint => exact hsame rfl (by simp [Handler.active, hpoint])
  | receive hpoint chunk => exact hsame rfl (by simp [Handler.active, hpoint])
  | quit hpoint chunk => exact hsame rfl (by simp [Handler.active, hpoint])
  | stop hpoint buffer => exact hsame rfl (by simp [Handler.active, hpoint])
  | send hpoint hlt => exact hsame rfl (by simp [Handler.active, hpoint])
  | cut hpoint => exact hsame rfl (by simp [Handler.active, hpoint])
  | echoed hpoint => exact hsame rfl (by simp [Handler.active, hpoint])
  | close hpoint => exact hsame rfl (by simp [Handler.active, hpoint])
  | leave hpoint =>
    have hlose := countP_set_false (p := Handler.active) (l := s.handlers) (i := i) (a := h)
      (b := { h with point := .returned }) hi (by simp [Handler.active, hpoint])
      (by simp [Handler.active])
    rw [hactive, hlose, UInt64.ofNat_add]
    exact UInt64.add_sub_cancel _ _

theorem served_thread
    (hserved : s.globals.totalClientsServed = .ofNat (s.handlers.countP Handler.served))
    (hi : s.handlers[i]? = some h) (hm : h.Moves true s.globals h' g') :
    g'.totalClientsServed = .ofNat ((s.handlers.set i h').countP Handler.served) := by
  have hsame (hg : g'.totalClientsServed = s.globals.totalClientsServed)
      (heq : h'.served = h.served) :
      g'.totalClientsServed = .ofNat ((s.handlers.set i h').countP Handler.served) := by
    rw [hg, countP_set_same hi heq, hserved]
  cases hm with
  | enter hpoint => exact hsame rfl (by simp [Handler.served, hpoint])
  | count hpoint =>
    have hgain := countP_set_true (p := Handler.served) (l := s.handlers) (i := i) (a := h)
      (b := { h with point := .recv }) hi (by simp [Handler.served, hpoint])
      (by simp [Handler.served])
    rw [hgain, UInt64.ofNat_add, ← hserved]
    rfl
  | receive hpoint chunk => exact hsame rfl (by simp [Handler.served, hpoint])
  | quit hpoint chunk => exact hsame rfl (by simp [Handler.served, hpoint])
  | stop hpoint buffer => exact hsame rfl (by simp [Handler.served, hpoint])
  | send hpoint hlt => exact hsame rfl (by simp [Handler.served, hpoint])
  | cut hpoint => exact hsame rfl (by simp [Handler.served, hpoint])
  | echoed hpoint => exact hsame rfl (by simp [Handler.served, hpoint])
  | close hpoint => exact hsame rfl (by simp [Handler.served, hpoint])
  | leave hpoint => exact hsame rfl (by simp [Handler.served, hpoint])

theorem thread_eq_some {t : ThreadServer} {act : HandlerAct} (h : s.thread counts i act = some t) :
    ∃ a b g, s.handlers[i]? = some a ∧ a.move counts s.globals act = some (b, g) ∧
      t = ⟨s.handlers.set i b, g⟩ := by
  obtain ⟨⟨b, g⟩, hmove, rfl⟩ := Option.map_eq_some_iff.mp h
  obtain ⟨a, ha, hab⟩ := Option.bind_eq_some_iff.mp hmove
  exact ⟨a, b, g, ha, hab, rfl⟩

theorem inv_thread {t : ThreadServer} {act : HandlerAct} (hinv : Inv counts s)
    (hstep : s.thread counts i act = some t) : Inv counts t := by
  obtain ⟨h, h', g', hi, hmove, rfl⟩ := thread_eq_some hstep
  have hm := Handler.moves_of_move hmove
  refine ⟨tracks_thread hinv hi hm, owns_thread hinv.owns hi hm,
    active_thread hinv.active hi hm, ?_⟩
  intro hcounts
  subst hcounts
  exact served_thread (hinv.served rfl) hi hm

theorem accept_eq_some {serverFd fd : ℤ} {buffer : Echo.Buffer} {t : ThreadServer}
    (h : s.accept serverFd fd buffer = some t) :
    fd ∉ s.globals.sockets.openFds ∧
      t = ⟨s.handlers ++ [.new fd buffer],
        { s.globals with sockets := s.globals.sockets.accept fd }⟩ := by
  rw [accept] at h
  split_ifs at h with hfd
  exact ⟨hfd.2.2, (Option.some.inj h).symm⟩

theorem inv_accept {serverFd fd : ℤ} {buffer : Echo.Buffer} {t : ThreadServer}
    (hinv : Inv counts s) (hstep : s.accept serverFd fd buffer = some t) : Inv counts t := by
  obtain ⟨hfd, rfl⟩ := accept_eq_some hstep
  obtain ⟨u, hu⟩ := hinv.tracks
  refine ⟨⟨u.put fd .new, hu.leads.accept hfd, ?_, hu.ended⟩, ?_, ?_, ?_⟩
  · intro j k f hj hk
    rw [EchoService.sessions_put]
    rw [List.getElem?_append] at hj
    split_ifs at hj with hlt
    -- an older thread: its descriptor is open, so it is not the new one
    · obtain ⟨x, hx, hin⟩ := hu.current j k f hj hk
      have hopen : f ∈ s.globals.sockets.openFds := (hu.leads.isSome f).mp (by rw [hx]; rfl)
      have hne : f ≠ fd := fun heq => hfd (heq ▸ hopen)
      rw [if_neg hne]
      exact ⟨x, hx, hin⟩
    · have hnew : Handler.new fd buffer = k := by
        have hmem := List.mem_of_getElem? hj
        exact (List.mem_singleton.mp hmem).symm
      subst hnew
      have heq : f = fd := (Option.some.inj hk).symm
      rw [if_pos heq]
      exact ⟨.new, rfl, rfl, fun _ => rfl, nofun⟩
  · have hnone : s.holding s.handlers.length = none := by
      simp [holding]
    -- the new thread is the only one whose descriptor changes
    have hadd : holding ⟨s.handlers ++ [.new fd buffer],
        { s.globals with sockets := s.globals.sockets.accept fd }⟩ =
          Function.update s.holding s.handlers.length (some fd) := by
      funext j
      rw [Function.update_apply, holding, List.getElem?_append]
      rcases Nat.lt_trichotomy j s.handlers.length with hlt | heq | hgt
      · rw [if_pos hlt, if_neg (by omega)]
        rfl
      · subst heq
        simp [Handler.new, Handler.holding]
      · rw [if_neg (by omega), if_neg (by omega)]
        have hrest : ([.new fd buffer] : List Handler)[j - s.handlers.length]? = none := by
          rw [List.getElem?_eq_none_iff, List.length_singleton]
          omega
        simp [hrest, holding, Nat.le_of_lt hgt]
    rw [hadd]
    exact hinv.owns.acquire hnone hfd
  · rw [List.countP_append]
    exact hinv.active
  · intro hcounts
    rw [List.countP_append]
    exact hinv.served hcounts

theorem inv_init : Inv counts {} where
  tracks := ⟨.init, Sockets.leads_empty, nofun, nofun⟩
  owns := owns_empty
  active := rfl
  served _ := rfl

/-! ## The runs of phase 3 -/

theorem inv_run {serverFd : ℤ} {acts : List ThreadAct} {s : ThreadServer}
    (hrun : exec (step serverFd) {} acts = some s) : Inv true s := by
  refine invariant_of_meets (G := fun _ _ => True) (I := Inv true) ?_ inv_init
    (meets_of_forall_mem (fun _ _ _ => trivial) _) hrun
  intro s act t hinv _ hstep
  cases act with
  | accept fd buffer => exact inv_accept hinv hstep
  | acceptFailed =>
    obtain rfl := Option.some.inj hstep
    exact hinv
  | thread i act => exact inv_thread hinv hstep

/-- Every open connection is the one of some thread. -/
theorem Tracks.allSessions {t : EchoService} (ht : s.Tracks t)
    (howns : Owns s.holding s.globals.sockets.openFds) :
    t.AllSessions fun x => x.echoed <+: x.received := by
  refine ⟨?_, ht.ended⟩
  intro fd x hx
  have hopen : fd ∈ s.globals.sockets.openFds := (ht.leads.isSome fd).mp (by rw [hx]; rfl)
  obtain ⟨i, hi⟩ := (howns.mem_iff fd).mp hopen
  obtain ⟨h, hget, hheld⟩ := Option.bind_eq_some_iff.mp hi
  obtain ⟨y, hy, hin⟩ := ht.current i h fd hget hheld
  obtain rfl : y = x := Option.some.inj (hy.symm.trans hx)
  exact hin.isPrefix

theorem Inv.echoes (hinv : Inv counts s) :
    (∀ i j fd, s.holding i = some fd → s.holding j = some fd → i = j) ∧
      ∃ t, s.globals.sockets.Leads t ∧ t.AllSessions (fun x => x.echoed <+: x.received) ∧
        ∀ h ∈ s.handlers, h.point = .recv →
          ∃ x, t.sessions h.fd = some x ∧ x.echoed = x.received := by
  obtain ⟨t, ht⟩ := hinv.tracks
  refine ⟨hinv.owns.unique, t, ht.leads, ht.allSessions hinv.owns, ?_⟩
  intro h hmem hpoint
  obtain ⟨i, hi⟩ := List.mem_iff_getElem?.mp hmem
  obtain ⟨x, hx, hin⟩ := ht.current i h h.fd hi (by simp [Handler.holding, hpoint])
  refine ⟨x, hx, ?_⟩
  rw [← hin.echoed, hin.answered (.inr (.inr hpoint)), List.append_nil]

/-- However the threads interleave, no two of them use one descriptor, the calls they make are
those of the echo service, what a client got back is at every time a beginning of what it sent,
and when its thread waits for it, it got back all. -/
theorem threads_echo_in_order (serverFd : ℤ) (acts : List ThreadAct) (s : ThreadServer)
    (hrun : exec (step serverFd) {} acts = some s) :
    (∀ i j fd, s.holding i = some fd → s.holding j = some fd → i = j) ∧
      ∃ t, s.globals.sockets.Leads t ∧ t.AllSessions (fun x => x.echoed <+: x.received) ∧
        ∀ h ∈ s.handlers, h.point = .recv →
          ∃ x, t.sessions h.fd = some x ∧ x.echoed = x.received :=
  (inv_run hrun).echoes

/-- The counters are the numbers of threads that have entered and not left and that have
entered, and when all threads have returned no client is counted, no descriptor is open and
each was closed as often as it was accepted. -/
theorem counters_count_threads (serverFd : ℤ) (acts : List ThreadAct) (s : ThreadServer)
    (hrun : exec (step serverFd) {} acts = some s) :
    s.globals.activeClients = .ofNat (s.handlers.countP Handler.active) ∧
      s.globals.totalClientsServed = .ofNat (s.handlers.countP Handler.served) ∧
      ((∀ h ∈ s.handlers, h.point = .returned) →
        s.globals.activeClients = 0 ∧
          s.globals.totalClientsServed = .ofNat s.handlers.length ∧
          s.globals.sockets.openFds = ∅ ∧
          ∀ fd, s.globals.sockets.trace.countP (·.accepts fd) =
            s.globals.sockets.trace.countP (·.closes fd)) := by
  have hinv := inv_run hrun
  have hserved := hinv.served rfl
  refine ⟨hinv.active, hserved, fun hreturned => ?_⟩
  have hidle : s.handlers.countP Handler.active = 0 := by
    rw [List.countP_eq_zero]
    intro h hmem
    simp [Handler.active, hreturned h hmem]
  have hall : s.handlers.countP Handler.served = s.handlers.length := by
    rw [List.countP_eq_length]
    intro h hmem
    simp [Handler.served, hreturned h hmem]
  -- an open descriptor would be held by a thread that has not returned
  have hclosed : s.globals.sockets.openFds = ∅ := by
    apply Finset.eq_empty_of_forall_notMem
    intro fd hfd
    obtain ⟨i, hi⟩ := (hinv.owns.mem_iff fd).mp hfd
    obtain ⟨h, hget, hheld⟩ := Option.bind_eq_some_iff.mp hi
    simp [Handler.holding, hreturned h (List.mem_of_getElem? hget)] at hheld
  refine ⟨by rw [hinv.active, hidle]; rfl, by rw [hserved, hall], hclosed, ?_⟩
  intro fd
  obtain ⟨t, ht⟩ := hinv.tracks
  have hbalanced := Sockets.Legal.balanced ⟨t, ht.leads⟩ fd
  simpa [Balanced, hclosed] using hbalanced

def zeros : Echo.Buffer := ⟨List.replicate 1024 0, List.length_replicate⟩

def hello : Echo.Chunk := ⟨ascii "hello", by decide, by decide⟩

/-- Two `send`s take the first client's five bytes; of its next five one takes three and the
connection is reset, while a second client connects. -/
def cutOff : List ThreadAct :=
  [.accept 4 zeros, .thread 0 .next, .thread 0 .next, .thread 0 (.recv (.data hello)),
    .accept 5 zeros, .thread 0 (.send (.sent 3)), .thread 1 .next, .thread 0 (.send (.sent 2)),
    .thread 0 (.recv (.data hello)), .thread 0 (.send (.sent 3)), .thread 1 .next,
    .thread 0 (.send (.failed .econnreset))]

theorem threads_echo_in_order_cutOff :
    ∃ s, exec (step 3) {} cutOff = some s ∧ s.holding 0 = some 4 ∧ s.holding 1 = some 5 ∧
      s.globals.sockets.trace = [.accept 4, .recv 4 (ascii "hello"), .accept 5,
        .send 4 (ascii "hello") 3, .send 4 (ascii "lo") 2, .recv 4 (ascii "hello"),
        .send 4 (ascii "hello") 3, .send 4 (ascii "lo") 0] ∧
      ∃ t, s.globals.sockets.Leads t ∧ t.AllSessions (fun x => x.echoed <+: x.received) ∧
        ∃ x, t.sessions 5 = some x ∧ x.echoed = x.received := by
  refine ⟨_, (Option.some_get (rfl : (exec (step 3) {} cutOff).isSome = true)).symm, rfl, rfl,
    rfl, ?_⟩
  obtain ⟨t, hleads, hall, hwaiting⟩ :=
    (threads_echo_in_order 3 cutOff _ (Option.some_get _).symm).2
  refine ⟨t, hleads, hall, hwaiting _ (List.mem_of_getElem? (i := 1) rfl) rfl⟩

/-- The first client leaves, and its descriptor is given to the second one. -/
def leftAndReused : List ThreadAct :=
  [.accept 4 zeros, .thread 0 .next, .thread 0 .next, .thread 0 (.recv .endOfFile),
    .thread 0 .next, .accept 4 zeros, .thread 1 .next]

theorem counters_count_threads_leftAndReused :
    ∃ s, exec (step 3) {} leftAndReused = some s ∧ s.globals.activeClients = 2 ∧
      s.globals.totalClientsServed = .ofNat (s.handlers.countP Handler.served) := by
  refine ⟨_, (Option.some_get (rfl : (exec (step 3) {} leftAndReused).isSome = true)).symm, rfl, ?_⟩
  exact (counters_count_threads 3 leftAndReused _ (Option.some_get _).symm).2.1

end ThreadServer

end Gateway.Service
