import Mathlib.Data.Int.Notation
import Mathlib.Logic.Function.Basic

/-!
# Socket ownership (`include/network/RAIISocket.hpp`)

A program over any set `O` of `RAIISocket` objects. What passes between the objects and
their surroundings is recorded: the descriptors handed in, the calls of `close` and the
returns from `release`.
-/

namespace Gateway.Network

variable {O : Type*}

inductive SocketEvent (O : Type*) where
  | handIn (o : O) (fd : ℤ)
  | close (o : O) (fd : ℤ)
  | release (o : O) (fd : ℤ)
deriving DecidableEq

namespace SocketEvent

def fd : SocketEvent O → ℤ
  | handIn _ fd => fd
  | close _ fd => fd
  | release _ fd => fd

/-- The event ends the ownership of its descriptor. -/
def Gives : SocketEvent O → Prop
  | handIn _ _ => False
  | close _ _ => True
  | release _ _ => True

end SocketEvent

/-- The `fd_` of each object that is alive, and the events so far. -/
structure Sockets (O : Type*) where
  fd : O → Option ℤ
  trace : List (SocketEvent O)

/-- The operations, with the object they are called on first. -/
inductive SocketOp (O : Type*) where
  | construct (o : O) (fd : ℤ)
  | moveConstruct (o other : O)
  | moveAssign (o other : O)
  | reset (o : O) (newFd : ℤ)
  | release (o : O)
  | destroy (o : O)

namespace Sockets

def init : Sockets O := ⟨fun _ => none, []⟩

/-- The events about one descriptor. -/
def about (s : Sockets O) (fd : ℤ) : List (SocketEvent O) := s.trace.filter (·.fd = fd)

def emit (s : Sockets O) (e : SocketEvent O) : Sockets O := { s with trace := s.trace ++ [e] }

variable [DecidableEq O]

def set (s : Sockets O) (o : O) (fd : Option ℤ) : Sockets O :=
  { s with fd := Function.update s.fd o fd }

/-- `fd_ = fd` with a descriptor from outside. -/
def handIn (s : Sockets O) (o : O) (fd : ℤ) : Sockets O := (s.emit (.handIn o fd)).set o (some fd)

/-- `close_fd`, called on an object whose `fd_` is `fd`. -/
def closeFd (s : Sockets O) (o : O) (fd : ℤ) : Sockets O :=
  if 0 ≤ fd then (s.emit (.close o fd)).set o (some (-1)) else s

/-- `fd_ = other.fd_; other.fd_ = -1;` -/
def takeFrom (s : Sockets O) (o other : O) (fd : ℤ) : Sockets O :=
  (s.set o (some fd)).set other (some (-1))

/-- One operation. An operation on an object that is not alive, or a construction of one
that is, is no step of a program. -/
def step (s : Sockets O) : SocketOp O → Option (Sockets O)
  | .construct o fd =>
    match s.fd o with
    | none => some (s.handIn o fd)
    | some _ => none
  | .moveConstruct o other =>
    match s.fd o, s.fd other with
    | none, some fd => some (s.takeFrom o other fd)
    | _, _ => none
  | .moveAssign o other =>
    match s.fd o, s.fd other with
    | some old, some fd =>
      if o ≠ other then some ((s.closeFd o old).takeFrom o other fd) else some s
    | _, _ => none
  | .reset o newFd =>
    match s.fd o with
    | some old => some ((s.closeFd o old).handIn o newFd)
    | none => none
  | .release o =>
    match s.fd o with
    | some fd => some ((s.emit (.release o fd)).set o (some (-1)))
    | none => none
  | .destroy o =>
    match s.fd o with
    | some fd => some ((s.closeFd o fd).set o none)
    | none => none

end Sockets

end Gateway.Network
