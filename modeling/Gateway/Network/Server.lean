import Gateway.Lib.Undefined
import Gateway.Network.ConnectionManager
import Mathlib.Data.Finset.Insert

/-!
# The connection-manager server (`src/phase9_connection_manager_server.cpp`)

One step is one turn of the loop in `EpollReactor::run`: an event on a descriptor is
dispatched to the callback registered for it. What the system calls of the callback
return comes with the event. The clock readings of one callback are taken as one.

The closure that runs is the one stored in `callbacks_`. A callback that unregisters its own
descriptor destroys it, and has no `conn_mgr` or `reactor` to go on with.
-/

namespace Gateway.Network
open Steps

/-- What `recv` on a client socket does. -/
inductive Recv where
  | data (bytes : Bytes)
  | endOfFile
  | error
deriving DecidableEq

/-- What `send` on a client socket does: it accepts some of the bytes, or fails. -/
inductive Send where
  | accepted (count : ℕ)
  | error
deriving DecidableEq

/-- How many bytes `send` took. -/
def Send.count : Send → ℕ
  | .accepted count => count
  | .error => 0

def bufferSize : ℕ := 1024

/-- `recv` returns between one byte and what the buffer has room for, and `send` accepts at
most what it is given. -/
def Recv.Possible (send : Send) : Recv → Prop
  | .data bytes => bytes ≠ [] ∧ bytes.length ≤ bufferSize - 1 ∧ send.count ≤ bytes.length
  | .endOfFile => True
  | .error => True

instance (send : Send) : ∀ recv : Recv, Decidable (recv.Possible send)
  | .data bytes => inferInstanceAs (Decidable (bytes ≠ [] ∧ _ ∧ send.count ≤ bytes.length))
  | .endOfFile => inferInstanceAs (Decidable True)
  | .error => inferInstanceAs (Decidable True)

/-- The client `accept` returns. -/
structure Client where
  fd : ℤ
  ip : Bytes
  port : UInt16
deriving DecidableEq

/-- An event of `epoll_wait`, with the results of the system calls made for it. -/
structure Event where
  fd : ℤ
  epollIn : Bool := false
  epollHup : Bool := false
  epollErr : Bool := false
  now : ℤ := 0
  accept : Option Client := none
  ctlAdd : Bool := true
  ctlDel : Bool := true
  recv : Recv := .error
  send : Send := .error

/-- A connection with a record of what happened to it: the states it was given, the bytes
`recv` returned and how often, and the bytes `send` accepted. -/
structure Session where
  conn : Connection
  states : List ConnectionState
  received : Bytes
  recvs : ℕ
  echoed : Bytes
deriving DecidableEq

namespace Session

def new (client : Client) (now : ℤ) : Session :=
  ⟨.new client.fd client.ip client.port now, [.connected], [], 0, []⟩

def setState (x : Session) (newState : ConnectionState) (now : ℤ) : Session :=
  { x with conn := x.conn.setState newState now, states := x.states ++ [newState] }

/-- `record_recv` after `recv` returned these bytes. -/
def recordRecv (x : Session) (bytes : Bytes) (now : ℤ) : Session :=
  { x with
    conn := x.conn.recordRecv bytes.length now
    received := x.received ++ bytes
    recvs := x.recvs + 1 }

/-- `send` and `record_send`: the result of `send` is not looked at. -/
def sendAndRecord (x : Session) (bytes : Bytes) (send : Send) (now : ℤ) : Session :=
  { x with
    conn := x.conn.recordSend bytes.length now
    echoed := x.echoed ++ bytes.take send.count }

/-- The branch for data that arrived. -/
def onData (x : Session) (bytes : Bytes) (send : Send) (now : ℤ) : Session :=
  let x := x.recordRecv bytes now
  let x := if x.conn.state = .authenticating then x.setState .authenticated now else x
  x.sendAndRecord bytes send now

theorem onData_conn_fd (x : Session) (bytes : Bytes) (send : Send) (now : ℤ) :
    (x.onData bytes send now).conn.fd = x.conn.fd := by
  simp only [onData]
  split_ifs <;> rfl

theorem onData_conn_state (x : Session) (bytes : Bytes) (send : Send) (now : ℤ) :
    (x.onData bytes send now).conn.state =
      if x.conn.state = .authenticating then .authenticated else x.conn.state := by
  have hstate : (x.recordRecv bytes now).conn.state = x.conn.state := rfl
  simp only [onData, hstate]
  split_ifs <;> rfl

theorem onData_closing_iff (x : Session) (bytes : Bytes) (send : Send) (now : ℤ) :
    (x.onData bytes send now).conn.state = .closing ↔ x.conn.state = .closing := by
  rw [onData_conn_state]
  split_ifs with hstate <;> simp [hstate]

end Session

/-- Which of the two callbacks is registered. -/
inductive Callback where
  | listener
  | client
deriving DecidableEq

/-- The manager, the `callbacks_` of the reactor, and the client descriptors that were
accepted and not closed. -/
structure Server where
  connMgr : ConnectionManager Session
  callbacks : AList fun _ : ℤ => Callback
  openFds : Finset ℤ

/-- What C++ leaves undefined here: a callback uses a variable it captured after its closure
was destroyed. -/
inductive Undefined where
  | closureDestroyed
deriving DecidableEq

/-- What comes out of a callback. -/
abbrev Outcome := Except Undefined Server

namespace Server

/-- `EpollReactor::add_socket` -/
def addSocket (s : Server) (fd : ℤ) (callback : Callback) (ctlAdd : Bool) : Server :=
  if ctlAdd then { s with callbacks := s.callbacks.insert fd callback } else s

/-- `EpollReactor::remove_socket`: the callback goes whether `EPOLL_CTL_DEL` succeeds or
not. -/
def removeSocket (s : Server) (fd : ℤ) (_ctlDel : Bool) : Server :=
  { s with callbacks := s.callbacks.erase fd }

def close (s : Server) (fd : ℤ) : Server := { s with openFds := s.openFds.erase fd }

/-- The callback of `fd` uses `conn_mgr` or `reactor`, which it captured by reference. Its
closure is the entry of `callbacks_`: `run` calls `it->second` and makes no copy. -/
def capture (s : Server) (fd : ℤ) : Except Undefined Unit :=
  if (s.callbacks.lookup fd).isSome then .ok () else .error .closureDestroyed

/-- The server when its listening socket has been registered, or has failed to be. -/
def init (serverFd : ℤ) (ctlAdd : Bool) : Server :=
  addSocket ⟨.new, ∅, ∅⟩ serverFd .listener ctlAdd

/-- The callback of the listening socket. -/
def onListener (s : Server) (e : Event) : Outcome :=
  match e.accept with
  | none => .ok s
  | some client => do
    let s := { s with openFds := insert client.fd s.openFds }
    s.capture e.fd
    let (conn, connMgr) := s.connMgr.addConnection client.fd (.new client e.now)
    let s := { s with connMgr := connMgr.modify conn (·.setState .authenticating e.now) }
    s.capture e.fd
    return s.addSocket client.fd .client e.ctlAdd

/-- The end of a connection, on a hang-up, an error or the end of the stream. -/
def tearDown (s : Server) (fd : ℤ) (conn : ℕ) (e : Event) : Outcome := do
  let s := { s with connMgr := s.connMgr.modify conn (·.setState .closing e.now) }
  s.capture fd
  let s := s.removeSocket fd e.ctlDel
  -- `conn_mgr` is still needed, for the removal and for the count that is printed
  s.capture fd
  let s := { s with connMgr := s.connMgr.removeConnection fd }
  let s := s.close fd
  s.capture fd
  return s

/-- The callback of a client socket. -/
def onClient (s : Server) (e : Event) : Outcome := do
  s.capture e.fd
  match s.connMgr.getConnection e.fd with
  | none => return s
  | some conn =>
    if e.epollHup || e.epollErr then s.tearDown e.fd conn e
    else if e.epollIn then
      match e.recv with
      | .data bytes => return { s with
          connMgr := s.connMgr.modify conn (·.onData bytes e.send e.now) }
      | .endOfFile => s.tearDown e.fd conn e
      | .error => return s
    else return s

/-- The body of the loop in `EpollReactor::run`. -/
def dispatch (s : Server) (e : Event) : Outcome :=
  match s.callbacks.lookup e.fd with
  | none => .ok s
  | some .listener => s.onListener e
  | some .client => s.onClient e

/-- What the system promises of its calls; `accept` returns a descriptor that is not in
use. -/
def Possible (serverFd : ℤ) (s : Server) (e : Event) : Prop :=
  (∀ client ∈ e.accept, 0 ≤ client.fd ∧ client.fd ∉ s.openFds ∧ client.fd ≠ serverFd) ∧
    e.recv.Possible e.send

instance (serverFd : ℤ) (s : Server) (e : Event) : Decidable (Possible serverFd s e) :=
  inferInstanceAs (Decidable (_ ∧ _))

/-- One event. -/
def turn (serverFd : ℤ) (s : Server) (e : Event) : Option Outcome :=
  if Possible serverFd s e then some (s.dispatch e) else none

/-- The server run on from what came out of the event before. -/
abbrev step (serverFd : ℤ) : Outcome → Event → Option Outcome :=
  Steps.orUndefined (turn serverFd)

end Server

end Gateway.Network
