import Gateway.Lib.Libc
import Gateway.Lib.RingWindow
import Gateway.Lib.Steps

/-!
# The asynchronous ring-buffer logger (`include/logging/AsyncLogger.hpp`)

Producers claim the slot at `head_`, the consumer thread reads the slot at
`tail_`. Both cursors are 64-bit and wrap around. The clock of `log`
(nanoseconds) is an argument; a printed line is given by its three fields.
-/

namespace Gateway.Logging
open RingWindow

inductive LogLevel where
  | debug
  | info
  | warn
  | error
deriving DecidableEq, Repr

/-- A slot; `message` is the array `char message[256]`. -/
structure LogEntry where
  level : LogLevel
  message : Bytes
  timestampUs : ℤ
  valid : Bool
deriving DecidableEq, Repr

/-- `RING_CAPACITY` -/
def ringCapacity : ℕ := 1024

instance : NeZero ringCapacity := ⟨by decide⟩

/-- The values of `size_t` and of the `uint64_t` counter are taken modulo 2^64. -/
def wrap (n : ℕ) : ℕ := n % 2 ^ 64

structure AsyncLogger where
  ring : Fin ringCapacity → LogEntry
  head : ℕ
  tail : ℕ
  running : Bool
  dropped : ℕ

/-- What the consumer prints for one entry. -/
structure LogLine where
  timestampUs : ℤ
  level : LogLevel
  text : Bytes
deriving DecidableEq, Repr

/-- The message is printed as a C string. -/
def LogEntry.line (e : LogEntry) : LogLine := ⟨e.timestampUs, e.level, cStr e.message⟩

namespace AsyncLogger

/-- The constructor: value-initialised slots. -/
def new : AsyncLogger where
  ring _ := ⟨.debug, List.replicate 256 0, 0, false⟩
  head := 0
  tail := 0
  running := false
  dropped := 0

def start (s : AsyncLogger) : AsyncLogger := { s with running := true }

/-- The first step of `stop()`; the second one waits for `consume_loop` to end. -/
def requestStop (s : AsyncLogger) : AsyncLogger := { s with running := false }

/-- `log(level, msg)`: the returned flag and the logger afterwards. The cursor is
advanced before the slot is looked at. -/
def log (s : AsyncLogger) (level : LogLevel) (msg : Bytes) (now : ℤ) : Bool × AsyncLogger :=
  let i := slot ringCapacity s.head
  let s := { s with head := wrap (s.head + 1) }
  let entry := s.ring i
  if entry.valid then (false, { s with dropped := wrap (s.dropped + 1) })
  else
    let copyLen := min msg.length (256 - 1)
    let message := msg.take copyLen ++ 0 :: entry.message.drop (copyLen + 1)
    (true, { s with ring := Function.update s.ring i ⟨level, message, now.tdiv 1000, true⟩ })

def droppedCount (s : AsyncLogger) : ℕ := s.dropped

def hasPending (s : AsyncLogger) : Bool :=
  (List.finRange ringCapacity).any fun i => (s.ring i).valid

/-- The body of the loop in `consume_loop`: nothing when the slot is not valid (the
thread sleeps), otherwise the line it prints. -/
def consumeBody (s : AsyncLogger) : Option LogLine × AsyncLogger :=
  let i := slot ringCapacity s.tail
  let entry := s.ring i
  if entry.valid then
    (some entry.line, { s with
      ring := Function.update s.ring i { entry with valid := false }
      tail := wrap (s.tail + 1) })
  else (none, s)

/-- `consume_loop`, `fuel` iterations at most: the lines printed and the logger at
the end, or `none` when the loop has not ended by then. -/
def consumeLoop (fuel : ℕ) (s : AsyncLogger) : Option (List LogLine × AsyncLogger) :=
  if s.running || s.hasPending then
    match fuel with
    | 0 => none
    | fuel + 1 =>
      (consumeLoop fuel s.consumeBody.2).map fun r => (s.consumeBody.1.toList ++ r.1, r.2)
  else some ([], s)

end AsyncLogger

/-! ## Runs -/

/-- A logger with the lines its callers got accepted and the lines printed so far. -/
structure History where
  logger : AsyncLogger
  accepted : List LogLine
  emitted : List LogLine

/-- What can happen to a started logger, one complete call or iteration at a time. -/
inductive Event where
  | log (level : LogLevel) (msg : Bytes) (now : ℤ)
  | iterate
  | requestStop

/-- What a `log` call asks to be printed: the message is cut to 255 bytes. -/
def lineOf (level : LogLevel) (msg : Bytes) (now : ℤ) : LogLine :=
  ⟨now.tdiv 1000, level, cStr (msg.take 255)⟩

/-- An iteration takes place only while the loop condition holds. -/
def step (h : History) : Event → Option History
  | .log level msg now =>
    let r := h.logger.log level msg now
    some { h with
      logger := r.2
      accepted := if r.1 then h.accepted ++ [lineOf level msg now] else h.accepted }
  | .iterate =>
    if h.logger.running || h.logger.hasPending then
      let r := h.logger.consumeBody
      some { h with logger := r.2, emitted := h.emitted ++ r.1.toList }
    else none
  | .requestStop => some { h with logger := h.logger.requestStop }

def History.init : History := ⟨AsyncLogger.new.start, [], []⟩

end Gateway.Logging
