import Gateway.Lib.Bytes
import Mathlib.Data.List.AList

/-!
# Connections and their manager (`include/network/Connection.hpp`, `ConnectionManager.hpp`)

Every connection object ever made keeps its place in a list; a `shared_ptr` to it is its
index there, and the manager maps descriptors to such pointers. The clock readings
(`std::chrono::steady_clock`, in nanoseconds) are arguments.
-/

namespace Gateway.Network

inductive ConnectionState where
  | connected
  | authenticating
  | authenticated
  | closing
  | closed
deriving DecidableEq, Repr

structure Connection where
  fd : ℤ
  clientIp : Bytes
  clientPort : UInt16
  state : ConnectionState
  lastActivity : ℤ
  bytesReceived : UInt64
  bytesSent : UInt64
  packetsProcessed : UInt64
deriving DecidableEq

namespace Connection

def new (fd : ℤ) (clientIp : Bytes) (clientPort : UInt16) (now : ℤ) : Connection :=
  ⟨fd, clientIp, clientPort, .connected, now, 0, 0, 0⟩

def touch (c : Connection) (now : ℤ) : Connection := { c with lastActivity := now }

def setState (c : Connection) (newState : ConnectionState) (now : ℤ) : Connection :=
  touch { c with state := newState } now

def recordRecv (c : Connection) (bytes : ℕ) (now : ℤ) : Connection :=
  touch { c with
    bytesReceived := c.bytesReceived + .ofNat bytes
    packetsProcessed := c.packetsProcessed + 1 } now

def recordSend (c : Connection) (bytes : ℕ) (now : ℤ) : Connection :=
  touch { c with bytesSent := c.bytesSent + .ofNat bytes } now

/-- `duration_cast` truncates the nanoseconds towards zero. -/
def getIdleSeconds (c : Connection) (now : ℤ) : ℤ := (now - c.lastActivity).tdiv (10 ^ 9)

end Connection

/-- The objects may be connections that carry more than the source's fields. -/
structure ConnectionManager (C : Type*) where
  objects : List C
  connections : AList fun _ : ℤ => ℕ

namespace ConnectionManager

variable {C : Type*}

def new : ConnectionManager C := ⟨[], ∅⟩

/-- `add_connection`, with the object `make_shared` made: the pointer it returns. -/
def addConnection (m : ConnectionManager C) (fd : ℤ) (conn : C) : ℕ × ConnectionManager C :=
  (m.objects.length, ⟨m.objects ++ [conn], m.connections.insert fd m.objects.length⟩)

def getConnection (m : ConnectionManager C) (fd : ℤ) : Option ℕ := m.connections.lookup fd

def removeConnection (m : ConnectionManager C) (fd : ℤ) : ConnectionManager C :=
  { m with connections := m.connections.erase fd }

def activeConnectionCount (m : ConnectionManager C) : ℕ := m.connections.entries.length

/-- The descriptors in the order of the iteration; `now` is the clock reading for each. -/
def getExpiredConnections (m : ConnectionManager Connection) (timeoutSec : ℤ) (now : ℤ → ℤ) :
    List ℤ :=
  (m.connections.entries.filter fun entry =>
    m.objects[entry.2]?.any fun conn =>
      timeoutSec ≤ conn.getIdleSeconds (now entry.1)).map Sigma.fst

/-- A method call through a pointer. -/
def modify (m : ConnectionManager C) (ptr : ℕ) (method : C → C) : ConnectionManager C :=
  { m with objects := m.objects.modify ptr method }

end ConnectionManager

end Gateway.Network
