import Gateway.Lib.Threads
import Mathlib.Algebra.Ring.Int.Defs

/-!
# The token bucket rate limiter (`include/ratelimit/RateLimiter.hpp`)

`refill` and `try_consume` are split into their atomic accesses: the clock read, the
load and the store of `last_refill_`, the loads and the compare-exchanges of
`tokens_micro_`. Times are nanoseconds. The arithmetic is that of runs in which no
64-bit value overflows.
-/

namespace Gateway.RateLimit

/-- `MICRO` -/
def micro : ℤ := 1000000

/-- The constant members of a limiter. -/
structure TokenBucketRateLimiter where
  capacityMicro : ℤ
  refillRatePerSMicro : ℤ

def TokenBucketRateLimiter.new (capacityTokens refillRatePerS : ℤ) : TokenBucketRateLimiter where
  capacityMicro := capacityTokens * micro
  refillRatePerSMicro := refillRatePerS * micro

/-- `duration_cast<microseconds>(now - last)` -/
def elapsedUs (now last : ℤ) : ℤ := (now - last).tdiv 1000

/-- `to_add` -/
def TokenBucketRateLimiter.toAdd (lim : TokenBucketRateLimiter) (elapsed : ℤ) : ℤ :=
  (lim.refillRatePerSMicro * elapsed).tdiv 1000000

inductive Call where
  | refill
  | tryConsume (tokensNeeded : ℤ)
deriving DecidableEq

/-- Where a thread is: the atomic access it makes next, with its local variables. -/
inductive Point where
  | idle
  | readClock (call : Call)
  | loadLastRefill (call : Call) (now : ℤ)
  | storeLastRefill (call : Call) (now last : ℤ)
  | loadTokensRefill (call : Call) (toAdd : ℤ)
  | casRefill (call : Call) (toAdd current : ℤ)
  | loadTokens (tokensNeeded : ℤ)
  | casTokens (tokensNeeded current : ℤ)

/-- `calls` counts the calls the thread has made, the running one included. -/
structure Local where
  calls : ℕ
  point : Point

/-- The end of a `try_consume` call, named by its thread and number. -/
structure Return (T : Type*) where
  call : T × ℕ
  tokensNeeded : ℤ
  allowed : Bool

/-- The atomics and the clock, with the amounts added by the refills and the calls
of `try_consume` that have returned. -/
structure Shared (T : Type*) where
  tokensMicro : ℤ
  lastRefill : ℤ
  clock : ℤ
  added : List ((T × ℕ) × ℤ)
  returned : List (Return T)

/-- A thread calls a function, or makes its next access; a compare-exchange may fail
spuriously. -/
inductive Act where
  | call (c : Call)
  | advance (spurious : Bool)

variable {T : Type*}

/-- Where `refill()` returns to. -/
def Call.afterRefill : Call → Point
  | .refill => .idle
  | .tryConsume tokensNeeded => .loadTokens tokensNeeded

/-- The head of the loop in `try_consume`. -/
def consumeHead (t : T) (calls : ℕ) (tokensNeeded current : ℤ) (g : Shared T) : Local × Shared T :=
  if current < tokensNeeded * micro then
    (⟨calls, .idle⟩, { g with returned := g.returned ++ [⟨(t, calls), tokensNeeded, false⟩] })
  else (⟨calls, .casTokens tokensNeeded current⟩, g)

/-- The next atomic access of a thread. -/
def advance (lim : TokenBucketRateLimiter) (t : T) (spurious : Bool) (calls : ℕ) (g : Shared T) :
    Point → Option (Local × Shared T)
  | .idle => none
  | .readClock call => some (⟨calls, .loadLastRefill call g.clock⟩, g)
  | .loadLastRefill call now =>
    let elapsed := elapsedUs now g.lastRefill
    if elapsed ≤ 0 then some (⟨calls, call.afterRefill⟩, g)
    else if lim.toAdd elapsed ≤ 0 then some (⟨calls, call.afterRefill⟩, g)
    else some (⟨calls, .storeLastRefill call now g.lastRefill⟩, g)
  | .storeLastRefill call now last =>
    some (⟨calls, .loadTokensRefill call (lim.toAdd (elapsedUs now last))⟩,
      { g with lastRefill := now })
  | .loadTokensRefill call toAdd => some (⟨calls, .casRefill call toAdd g.tokensMicro⟩, g)
  | .casRefill call toAdd current =>
    let desired := min (current + toAdd) lim.capacityMicro
    if g.tokensMicro = current ∧ spurious = false then
      some (⟨calls, call.afterRefill⟩, { g with
        tokensMicro := desired
        added := g.added ++ [((t, calls), desired - current)] })
    else some (⟨calls, .casRefill call toAdd g.tokensMicro⟩, g)
  | .loadTokens tokensNeeded => some (consumeHead t calls tokensNeeded g.tokensMicro g)
  | .casTokens tokensNeeded current =>
    let desired := current - tokensNeeded * micro
    if g.tokensMicro = current ∧ spurious = false then
      some (⟨calls, .idle⟩, { g with
        tokensMicro := desired
        returned := g.returned ++ [⟨(t, calls), tokensNeeded, true⟩] })
    else some (consumeHead t calls tokensNeeded g.tokensMicro g)

def move (lim : TokenBucketRateLimiter) (t : T) : Act → Local → Shared T → Option (Local × Shared T)
  | .call c, ⟨calls, .idle⟩, g => some (⟨calls + 1, .readClock c⟩, g)
  | .call _, _, _ => none
  | .advance spurious, l, g => advance lim t spurious l.calls g l.point

/-- Time passes. -/
def tick (ns : ℕ) (g : Shared T) : Shared T := { g with clock := g.clock + ns }

/-- A limiter constructed at time `start`: the bucket is full. -/
def TokenBucketRateLimiter.init (lim : TokenBucketRateLimiter) (start : ℤ) :
    Threads.Config T Local (Shared T) where
  locals _ := ⟨0, .idle⟩
  shared := ⟨lim.capacityMicro, start, start, [], []⟩

/-- What the successful refills have added, in micro-tokens. -/
def Shared.totalAdded (g : Shared T) : ℤ := (g.added.map Prod.snd).sum

/-- The calls that returned true. -/
def Shared.allowed (g : Shared T) : List (Return T) := g.returned.filter Return.allowed

/-- What the calls that returned true have taken, in tokens. -/
def Shared.totalConsumed (g : Shared T) : ℤ := (g.allowed.map Return.tokensNeeded).sum

variable [DecidableEq T]

/-- One step of the threads that share the limiter, or of the clock. -/
def step (lim : TokenBucketRateLimiter) :
    Threads.Config T Local (Shared T) → Threads.Action T Act ℕ →
      Option (Threads.Config T Local (Shared T)) :=
  Threads.step (move lim) tick

end Gateway.RateLimit
