import Gateway.Lib.Refinement
import Gateway.Lib.Undefined
import Gateway.RateLimit.SharedWidth
import Mathlib.Algebra.Order.BigOperators.Group.List
import Mathlib.Data.Fintype.BigOperators
import Mathlib.Data.Fintype.Card

/-!
# Threads that fire requests at one limiter (`src/phase17_stress_fuzzer.cpp`)

In `run_burst_contention_test` each thread makes a number of `try_consume()` calls and counts in
two atomic counters what they returned. A call is denied only when the tokens that the bucket
started with are spent, however the threads interleave.
-/

namespace Gateway.RateLimit
open Steps Threads

variable {T : Type*} {lim : TokenBucketRateLimiter} {least : ℤ}

/-! ## When a call is denied -/

/-- A call that has been denied found less than it asked for. -/
theorem low_of_denied {t : T} {a : Act} {l l' : Local} {g g' : Shared T}
    (h : move lim t a l g = some (l', g')) {r : Return T} (hr : r ∈ g'.returned)
    (hnew : r ∉ g.returned) (hdenied : r.allowed = false) :
    g'.tokensMicro < r.tokensNeeded * micro := by
  -- a denial is returned at the head of the loop alone, from the level that was just read
  have hhead {k current : ℤ} (hhead : consumeHead t l.calls k current g = (l', g'))
      (hcurrent : current = g.tokensMicro) : g'.tokensMicro < r.tokensNeeded * micro := by
    unfold consumeHead at hhead
    split_ifs at hhead with hlow
    · obtain ⟨-, rfl⟩ := Prod.mk.inj hhead
      rcases List.mem_append.mp hr with hr | hr
      · exact absurd hr hnew
      · rw [List.mem_singleton.mp hr]
        rw [hcurrent] at hlow
        exact hlow
    · obtain ⟨-, rfl⟩ := Prod.mk.inj hhead
      exact absurd hr hnew
  obtain ⟨n, p⟩ := l
  cases a with
  | call c =>
    cases p with
    | idle =>
      obtain ⟨-, rfl⟩ := Prod.mk.inj (Option.some.inj h)
      exact absurd hr hnew
    | _ => exact absurd h (by simp [move])
  | advance b =>
    cases p with
    | idle => exact absurd h (by simp [move, advance])
    | readClock c | storeLastRefill c now last | loadTokensRefill c toAdd =>
      obtain ⟨-, rfl⟩ := Prod.mk.inj (Option.some.inj h)
      exact absurd hr hnew
    | loadLastRefill c now =>
      simp only [move, advance] at h
      split_ifs at h
      all_goals
        obtain ⟨-, rfl⟩ := Prod.mk.inj (Option.some.inj h)
        exact absurd hr hnew
    | casRefill c toAdd current =>
      simp only [move, advance] at h
      split_ifs at h
      all_goals
        obtain ⟨-, rfl⟩ := Prod.mk.inj (Option.some.inj h)
        exact absurd hr hnew
    | loadTokens k => exact hhead (Option.some.inj h) rfl
    | casTokens k current =>
      simp only [move, advance] at h
      split_ifs at h
      · obtain ⟨-, rfl⟩ := Prod.mk.inj (Option.some.inj h)
        rcases List.mem_append.mp hr with hr | hr
        · exact absurd hr hnew
        · rw [List.mem_singleton.mp hr] at hdenied
          exact absurd hdenied (by simp)
      · exact hhead (Option.some.inj h) rfl

/-- The refills add nothing negative, and with what a denied call asked for the tokens that were
taken are more than the bucket held at the start. -/
structure Spent (lim : TokenBucketRateLimiter) (g : Shared T) : Prop where
  added_nonneg : ∀ e ∈ g.added, 0 ≤ e.2
  denied : ∀ r ∈ g.returned, r.allowed = false →
    lim.capacityMicro < micro * (g.totalConsumed + r.tokensNeeded)

theorem totalConsumed_le_of_moves {t : T} {n : ℕ} {g g' : Shared T} {a : Act} {p : Point}
    {l' : Local} (hleast : 0 ≤ least) (hs : p.Sound lim least) (hm : Moves lim t n g a p l' g') :
    g.totalConsumed ≤ g'.totalConsumed := by
  cases hm with
  | denied b hp => simp [Shared.totalConsumed, Shared.allowed]
  | consumed b k =>
    have hk := hs.1
    simp only [Shared.totalConsumed, Shared.allowed, List.filter_append, List.filter_cons_of_pos,
      List.filter_nil, List.map_append, List.sum_append, List.map_singleton, List.sum_singleton]
    omega
  | _ => exact le_rfl

theorem added_nonneg_of_moves {t : T} {n : ℕ} {g g' : Shared T} {a : Act} {p : Point}
    {l' : Local} (hb : Balanced lim least g) (hs : p.Sound lim least)
    (hspent : Spent lim g) (hm : Moves lim t n g a p l' g') : ∀ e ∈ g'.added, 0 ≤ e.2 := by
  cases hm with
  | refilled b c toAdd =>
    have hcap := hb.le_capacity
    have hadd := hs.2
    intro e he
    rcases List.mem_append.mp he with he | he
    · exact hspent.added_nonneg e he
    · rw [List.mem_singleton.mp he]
      dsimp only
      omega
  | _ => exact hspent.added_nonneg

theorem spent_move {t : T} {a : Act} {l l' : Local} {g g' : Shared T} (hleast : 0 ≤ least)
    (hb : Balanced lim least g) (hs : l.point.Sound lim least) (hspent : Spent lim g)
    (hb' : Balanced lim least g') (h : move lim t a l g = some (l', g')) : Spent lim g' := by
  have hmoves := moves_of_move h
  have hadded := added_nonneg_of_moves hb hs hspent hmoves
  have hmono := totalConsumed_le_of_moves hleast hs hmoves
  refine ⟨hadded, ?_⟩
  intro r hr hdenied
  have hmicro : (0 : ℤ) < micro := by decide
  by_cases hold : r ∈ g.returned
  · have hbefore := hspent.denied r hold hdenied
    have hle : micro * (g.totalConsumed + r.tokensNeeded) ≤
        micro * (g'.totalConsumed + r.tokensNeeded) := by
      apply mul_le_mul_of_nonneg_left _ hmicro.le
      omega
    omega
  · have hlow := low_of_denied h hr hold hdenied
    have hbalance := hb'.balance
    have hnonneg : 0 ≤ g'.totalAdded := by
      apply List.sum_nonneg
      intro x hx
      obtain ⟨e, he, rfl⟩ := List.mem_map.mp hx
      exact hadded e he
    rw [mul_add, mul_comm micro r.tokensNeeded]
    omega

/-- The invariant along every run. -/
theorem spent_run [DecidableEq T] (hleast : 0 ≤ least) (hcap : 0 ≤ lim.capacityMicro) {start : ℤ}
    {actions : List (Action T Act ℕ)} {c : Config T Local (Shared T)}
    (hcalls : ∀ t k, .thread t (.call (.tryConsume k)) ∈ actions → least ≤ k)
    (hrun : exec (step lim) (lim.init start) actions = some c) :
    Balanced lim least c.shared ∧ Spent lim c.shared := by
  have hboth : (Balanced lim least c.shared ∧ Spent lim c.shared) ∧
      ∀ t, Owns lim least t (c.locals t) c.shared := by
    refine invariant_of_noninterference (I := fun g => Balanced lim least g ∧ Spent lim g)
      (P := Owns lim least) (Q := fun _ a _ _ => ∀ c, a = .call c → c.AtLeast least) ?_ ?_ ?_
      ⟨balanced_init hcap start, ⟨by simp [TokenBucketRateLimiter.init],
        by simp [TokenBucketRateLimiter.init]⟩⟩ (fun t => owns_init t start)
      (meets_of_forall_mem ?_ _) hrun
    · intro t a l g l' g' hg ho hq hmove
      obtain ⟨hb', ho'⟩ := moves_own hleast hg.1 ho hq (moves_of_move hmove)
      exact ⟨⟨hb', spent_move hleast hg.1 ho.sound hg.2 hb' hmove⟩, ho'⟩
    · intro t a l g l' g' u m hu _ ho hmove
      exact moves_other hu ho (moves_of_move hmove)
    · intro ns g hg
      obtain ⟨hb, hspent⟩ := hg
      exact ⟨⟨⟨hb.nonneg, hb.le_capacity, hb.balance, hb.added_nodup, hb.returned_nodup,
        hb.returned_least⟩, hspent.added_nonneg, hspent.denied⟩,
        fun _ _ ho => ⟨ho.sound, ho.added_lt, ho.returned_lt⟩⟩
    · intro a hmem c
      cases a with
      | thread t a =>
        intro call hcall
        cases call with
        | refill => trivial
        | tryConsume k => exact hcalls t k (hcall ▸ hmem)
      | env ns => trivial
  exact hboth.1

/-! ## The threads of the test -/

/-- Where a thread of the test is: before a request, inside of `try_consume`, or with the result
that it has still to count. -/
inductive WorkerPoint where
  | ready
  | inCall
  | count (allowed : Bool)
deriving DecidableEq

/-- `made` is the loop variable `r`, the running request included. -/
structure Worker where
  made : ℕ
  point : WorkerPoint
  limiter : Local

/-- The limiter and `total_allowed` and `total_denied`. -/
structure Tally (T : Type*) where
  limiter : Shared T
  totalAllowed : UInt64
  totalDenied : UInt64

/-- `total_allowed.fetch_add(1)` or `total_denied.fetch_add(1)` -/
def Tally.count (g : Tally T) (allowed : Bool) : Tally T :=
  if allowed then { g with totalAllowed := g.totalAllowed + 1 }
  else { g with totalDenied := g.totalDenied + 1 }

inductive WorkerAct where
  | request
  | advance (spurious : Bool)
  | count

/-- Where a thread is after a step of the limiter: a call that has returned is the last one in the
record. -/
def pointAfter (l : Local) (g : Shared T) : WorkerPoint :=
  match l.point with
  | .idle => .count (g.returned.getLast?.any Return.allowed)
  | _ => .inCall

/-- A step of a thread of the test. -/
def workerMove (lim : TokenBucketRateLimiter) (requests : ℕ) (t : T) :
    WorkerAct → Worker → Tally T → Option (Worker × Tally T)
  | .request, w, g =>
    if w.point = .ready ∧ w.made < requests then
      (move lim t (.call (.tryConsume 1)) w.limiter g.limiter).map fun (l, shared) =>
        (⟨w.made + 1, .inCall, l⟩, { g with limiter := shared })
    else none
  | .advance spurious, w, g =>
    if w.point = .inCall then
      (move lim t (.advance spurious) w.limiter g.limiter).map fun (l, shared) =>
        (⟨w.made, pointAfter l shared, l⟩, { g with limiter := shared })
    else none
  | .count, w, g =>
    match w.point with
    | .count allowed => some ({ w with point := .ready }, g.count allowed)
    | _ => none

def burstTick (ns : ℕ) (g : Tally T) : Tally T := { g with limiter := tick ns g.limiter }

def burstInit (lim : TokenBucketRateLimiter) (start : ℤ) : Config T Worker (Tally T) where
  locals _ := ⟨0, .ready, ⟨0, .idle⟩⟩
  shared := ⟨(lim.init start).shared, 0, 0⟩

/-- One step of the threads of the test, or of the clock. -/
def burstStep [DecidableEq T] (lim : TokenBucketRateLimiter) (requests : ℕ) :
    Config T Worker (Tally T) → Action T WorkerAct ℕ → Option (Config T Worker (Tally T)) :=
  Threads.step (workerMove lim requests) burstTick

/-- A thread inside of `try_consume` is about to compute what `int64_t` does not hold. -/
def Worker.Overflows (lim : TokenBucketRateLimiter) (g : Shared T) (w : Worker) : Prop :=
  w.point = .inCall ∧ ¬ w.limiter.point.Fits lim g

instance (lim : TokenBucketRateLimiter) (g : Shared T) (w : Worker) :
    Decidable (w.Overflows lim g) :=
  inferInstanceAs (Decidable (_ ∧ ¬ _))

inductive Undefined where
  | signedOverflow
deriving DecidableEq

/-- One step of the test in `int64_t`. -/
def burstTurn [DecidableEq T] (lim : TokenBucketRateLimiter) (requests : ℕ)
    (c : Config T Worker (Tally T)) (a : Action T WorkerAct ℕ) :
    Option (Except Undefined (Config T Worker (Tally T))) :=
  match a with
  | .thread t (.advance _) =>
    if (c.locals t).Overflows lim c.shared.limiter then some (.error .signedOverflow)
    else (burstStep lim requests c a).map .ok
  | _ => (burstStep lim requests c a).map .ok

/-- The nanoseconds that pass in a run. -/
def passed : List (Action T WorkerAct ℕ) → ℕ
  | [] => 0
  | .thread _ _ :: acts => passed acts
  | .env ns :: acts => ns + passed acts

theorem passed_cons (a : Action T WorkerAct ℕ) (acts : List (Action T WorkerAct ℕ)) :
    passed (a :: acts) = passed [a] + passed acts := by
  cases a with
  | thread t a => exact (Nat.zero_add _).symm
  | env ns => rfl

theorem passed_le_of_prefix {bs acts : List (Action T WorkerAct ℕ)} (h : bs <+: acts) :
    passed bs ≤ passed acts := by
  induction bs generalizing acts with
  | nil => exact Nat.zero_le _
  | cons b bs ih =>
    obtain ⟨rest, rfl⟩ := h
    have hle := ih (List.prefix_append bs rest)
    rw [List.cons_append, passed_cons, passed_cons b (bs ++ rest)]
    omega

/-! ## What a step of a thread does -/

/-- What the running call asks for. -/
def Call.asks : Call → Option ℤ
  | .refill => none
  | .tryConsume k => some k

def Point.asks : Point → Option ℤ
  | .idle => none
  | .readClock c | .loadLastRefill c _ | .storeLastRefill c _ _ | .loadTokensRefill c _
  | .casRefill c _ _ => c.asks
  | .loadTokens k | .casTokens k _ => some k

theorem asks_afterRefill {c : Call} {k : ℤ} (h : c.asks = some k) :
    c.afterRefill.asks = some k := by
  cases c with
  | refill => exact absurd h (by simp [Call.asks])
  | tryConsume n => exact h

theorem Point.AtHead.asks {k n : ℤ} {p : Point} (hp : p.AtHead n) (h : p.asks = some k) :
    n = k := by
  cases hp <;> exact Option.some.inj h

/-- A step inside of a `try_consume` call stays inside or returns. -/
theorem inside_or_returns {t : T} {n : ℕ} {g g' : Shared T} {b : Bool} {p : Point} {l' : Local}
    {k : ℤ} (hasks : p.asks = some k) (hm : Moves lim t n g (.advance b) p l' g') :
    (l'.point.asks = some k ∧ g'.returned = g.returned) ∨
      (l'.point = .idle ∧ ∃ allowed, g'.returned = g.returned ++ [⟨(t, n), k, allowed⟩]) := by
  cases hm with
  | readClock b c | due b c now hus hadd | storeLastRefill b c now last
  | loadTokensRefill b c toAdd | retryRefill b c toAdd current => exact Or.inl ⟨hasks, rfl⟩
  | notDue b c now | refilled b c toAdd => exact Or.inl ⟨asks_afterRefill hasks, rfl⟩
  | denied b hp =>
    rw [hp.asks hasks]
    exact Or.inr ⟨rfl, false, rfl⟩
  | enough b hp hk =>
    rw [hp.asks hasks]
    exact Or.inl ⟨rfl, rfl⟩
  | consumed b k' =>
    obtain rfl := Option.some.inj hasks
    exact Or.inr ⟨rfl, true, rfl⟩

/-- The transitions of a thread of the test. -/
inductive WorkerMoves (t : T) (w : Worker) (g : Tally T) : Worker → Tally T → Prop
  | request (l : Local) (hready : w.point = .ready) (hasks : l.point.asks = some 1) :
      WorkerMoves t w g ⟨w.made + 1, .inCall, l⟩ g
  | inside (l : Local) (shared : Shared T) (hcall : w.point = .inCall)
      (hasks : l.point.asks = some 1) (hreturned : shared.returned = g.limiter.returned) :
      WorkerMoves t w g ⟨w.made, .inCall, l⟩ { g with limiter := shared }
  | returns (l : Local) (shared : Shared T) (allowed : Bool) (hcall : w.point = .inCall)
      (hidle : l.point = .idle)
      (hreturned : shared.returned =
        g.limiter.returned ++ [⟨(t, w.limiter.calls), 1, allowed⟩]) :
      WorkerMoves t w g ⟨w.made, .count allowed, l⟩ { g with limiter := shared }
  | counts (allowed : Bool) (hcount : w.point = .count allowed) :
      WorkerMoves t w g { w with point := .ready } (g.count allowed)

/-- A thread is inside of a call for one token exactly when it says so. -/
def Worker.Settled (w : Worker) : Prop :=
  if w.point = .inCall then w.limiter.point.asks = some 1 else w.limiter.point = .idle

theorem workerMoves_of_move {t : T} {requests : ℕ} {a : WorkerAct} {w w' : Worker}
    {g g' : Tally T} (hw : w.Settled) (h : workerMove lim requests t a w g = some (w', g')) :
    WorkerMoves t w g w' g' := by
  cases a with
  | request =>
    rw [workerMove] at h
    split_ifs at h with hready
    obtain ⟨⟨l, shared⟩, hmove, hres⟩ := Option.map_eq_some_iff.mp h
    obtain ⟨rfl, rfl⟩ := Prod.mk.inj hres
    rw [Worker.Settled, hready.1, if_neg (by decide)] at hw
    obtain ⟨made, point, ⟨n, p⟩⟩ := w
    obtain rfl : p = .idle := hw
    obtain ⟨rfl, rfl⟩ := Prod.mk.inj (Option.some.inj hmove)
    exact .request _ hready.1 rfl
  | advance b =>
    rw [workerMove] at h
    split_ifs at h with hcall
    obtain ⟨⟨l, shared⟩, hmove, hres⟩ := Option.map_eq_some_iff.mp h
    obtain ⟨rfl, rfl⟩ := Prod.mk.inj hres
    rw [Worker.Settled, if_pos hcall] at hw
    -- the call goes on, or this access is its last
    obtain ⟨hasks, hreturned⟩ | ⟨hidle, allowed, hreturned⟩ :=
      inside_or_returns hw (moves_of_move hmove)
    · have hpoint : pointAfter l shared = .inCall := by
        unfold pointAfter
        split
        · next hidle =>
          rw [hidle] at hasks
          exact absurd hasks (by simp [Point.asks])
        · rfl
      rw [hpoint]
      exact .inside l shared hcall hasks hreturned
    · have hpoint : pointAfter l shared = .count allowed := by
        rw [pointAfter, hidle, hreturned]
        simp
      rw [hpoint]
      exact .returns l shared allowed hcall hidle hreturned
  | count =>
    rw [workerMove] at h
    split at h
    · next allowed hcount =>
      obtain ⟨rfl, rfl⟩ := Prod.mk.inj (Option.some.inj h)
      exact .counts allowed hcount
    · exact absurd h (by simp)

/-! ## The counters along a run -/

/-- Results that the thread has still to count. -/
def Worker.uncounted (allowed : Bool) (w : Worker) : ℕ := if w.point = .count allowed then 1 else 0

/-- Calls that the thread is inside of. -/
def Worker.calling (w : Worker) : ℕ := if w.point = .inCall then 1 else 0

/-- `total_allowed` or `total_denied` -/
def Tally.total (g : Tally T) (allowed : Bool) : UInt64 :=
  if allowed then g.totalAllowed else g.totalDenied

/-- The calls that returned so. -/
def Shared.returns (g : Shared T) (allowed : Bool) : ℕ :=
  g.returned.countP fun r => r.allowed = allowed

/-- A counter and what the threads have still to count in it are the returns of its kind, and the
returns and the running calls are the requests. -/
structure BurstInv [Fintype T] (c : Config T Worker (Tally T)) : Prop where
  settled : ∀ t, (c.locals t).Settled
  ones : ∀ r ∈ c.shared.limiter.returned, r.tokensNeeded = 1
  counted : ∀ b, c.shared.total b + .ofNat (∑ t, (c.locals t).uncounted b) =
    .ofNat (c.shared.limiter.returns b)
  made : c.shared.limiter.returned.length + ∑ t, (c.locals t).calling = ∑ t, (c.locals t).made

@[simp] theorem limiter_count (g : Tally T) (allowed : Bool) :
    (g.count allowed).limiter = g.limiter := by
  cases allowed <;> rfl

theorem total_count (g : Tally T) (allowed b : Bool) :
    (g.count allowed).total b = g.total b + .ofNat (if allowed = b then 1 else 0) := by
  cases allowed <;> cases b <;> simp [Tally.count, Tally.total]

section Steps
variable {requests : ℕ} {t : T} {w' : Worker} {g' : Tally T} {c c' : Config T Worker (Tally T)}

theorem settled_of_moves {w : Worker} {g : Tally T} (hw : w.Settled)
    (h : WorkerMoves t w g w' g') : w'.Settled := by
  cases h with
  | request l hready hasks => exact hasks
  | inside l shared hcall hasks hreturned => exact hasks
  | returns l shared allowed hcall hidle hreturned => exact hidle
  | counts allowed hcount =>
    rw [Worker.Settled, hcount, if_neg (by simp)] at hw
    exact hw

theorem ones_of_moves {w : Worker} {g : Tally T}
    (hones : ∀ r ∈ g.limiter.returned, r.tokensNeeded = 1) (h : WorkerMoves t w g w' g') :
    ∀ r ∈ g'.limiter.returned, r.tokensNeeded = 1 := by
  cases h with
  | request l hready hasks => exact hones
  | inside l shared hcall hasks hreturned =>
    dsimp only
    rw [hreturned]
    exact hones
  | returns l shared allowed hcall hidle hreturned =>
    dsimp only
    rw [hreturned]
    exact List.forall_mem_append.mpr ⟨hones, List.forall_mem_singleton.mpr rfl⟩
  | counts allowed hcount =>
    rw [limiter_count]
    exact hones

variable [Fintype T] [DecidableEq T]

theorem counted_of_moves (h : BurstInv c)
    (hmoves : WorkerMoves t (c.locals t) c.shared w' g') (b : Bool) :
    g'.total b + .ofNat (∑ u, (Function.update c.locals t w' u).uncounted b) =
      .ofNat (g'.limiter.returns b) := by
  have hsum := sum_update_add (Worker.uncounted b) c.locals t w'
  have hcounted := h.counted b
  generalize ∑ u, (Function.update c.locals t w' u).uncounted b = after at hsum ⊢
  generalize ∑ u, (c.locals u).uncounted b = before at hsum hcounted
  cases hmoves with
  | request l hready hasks =>
    simp only [Worker.uncounted, hready, reduceCtorEq, ↓reduceIte, add_zero] at hsum
    rw [hsum]
    exact hcounted
  | inside l shared hcall hasks hreturned =>
    simp only [Worker.uncounted, hcall, reduceCtorEq, ↓reduceIte, add_zero] at hsum
    rw [hsum, Shared.returns, hreturned]
    exact hcounted
  | returns l shared allowed hcall hidle hreturned =>
    simp only [Worker.uncounted, hcall, reduceCtorEq, ↓reduceIte, add_zero,
      WorkerPoint.count.injEq] at hsum
    have hreturns : shared.returns b = c.shared.limiter.returns b +
        if allowed = b then 1 else 0 := by
      rw [Shared.returns, hreturned, List.countP_append]
      simp [Shared.returns]
    rw [hsum, hreturns, UInt64.ofNat_add, UInt64.ofNat_add, ← hcounted, UInt64.add_assoc]
    rfl
  | counts allowed hcount =>
    simp only [Worker.uncounted, hcount, reduceCtorEq, ↓reduceIte, add_zero,
      WorkerPoint.count.injEq] at hsum
    rw [total_count, limiter_count, ← hcounted, ← hsum, UInt64.ofNat_add, UInt64.add_assoc,
      UInt64.add_comm (.ofNat after)]

theorem made_of_moves (h : BurstInv c) (hmoves : WorkerMoves t (c.locals t) c.shared w' g') :
    g'.limiter.returned.length + ∑ u, (Function.update c.locals t w' u).calling =
      ∑ u, (Function.update c.locals t w' u).made := by
  have hcalling := sum_update_add Worker.calling c.locals t w'
  have hrequests := sum_update_add Worker.made c.locals t w'
  have hmade := h.made
  cases hmoves with
  | request l hready hasks =>
    simp only [Worker.calling, hready, reduceCtorEq, ↓reduceIte] at hcalling hmade ⊢
    dsimp only at hrequests
    omega
  | inside l shared hcall hasks hreturned =>
    simp only [Worker.calling, hcall, ↓reduceIte] at hcalling hmade ⊢
    dsimp only at hrequests
    rw [hreturned]
    omega
  | returns l shared allowed hcall hidle hreturned =>
    simp only [Worker.calling, hcall, reduceCtorEq, ↓reduceIte] at hcalling hmade ⊢
    dsimp only at hrequests
    rw [hreturned, List.length_append, List.length_singleton]
    omega
  | counts allowed hcount =>
    simp only [Worker.calling, hcount, reduceCtorEq, ↓reduceIte] at hcalling hmade ⊢
    dsimp only at hrequests
    rw [limiter_count]
    omega

theorem burstInv_step {a : Action T WorkerAct ℕ} (h : BurstInv c)
    (hstep : burstStep lim requests c a = some c') : BurstInv c' := by
  cases a with
  | thread t a =>
    obtain ⟨w', g', hmove, rfl⟩ := step_thread.mp hstep
    have hmoves := workerMoves_of_move (h.settled t) hmove
    refine ⟨?_, ones_of_moves h.ones hmoves, counted_of_moves h hmoves, made_of_moves h hmoves⟩
    intro u
    dsimp only
    by_cases hu : u = t
    · rw [hu, Function.update_self]
      exact settled_of_moves (h.settled t) hmoves
    · rw [Function.update_of_ne hu]
      exact h.settled u
  | env ns =>
    rw [← Option.some.inj hstep]
    exact ⟨h.settled, h.ones, h.counted, h.made⟩

omit [DecidableEq T] in
theorem burstInv_init (start : ℤ) : BurstInv (burstInit lim start : Config T Worker (Tally T)) := by
  refine ⟨fun _ => rfl, ?_, ?_, ?_⟩
  · simp [burstInit, TokenBucketRateLimiter.init]
  · intro b
    simp [burstInit, TokenBucketRateLimiter.init, Worker.uncounted, Tally.total, Shared.returns]
  · simp [burstInit, TokenBucketRateLimiter.init, Worker.calling]

theorem burstInv_run {start : ℤ} {acts : List (Action T WorkerAct ℕ)}
    (hrun : exec (burstStep lim requests) (burstInit lim start) acts = some c) : BurstInv c :=
  invariant_of_reachable (K := fun _ => True) (fun _ _ _ => trivial)
    (fun _ _ _ _ h hstep => burstInv_step h hstep) (burstInv_init start) hrun

end Steps

/-! ## The run of the limiter -/

/-- What the limiter sees of the test. -/
def limiterOf (c : Config T Worker (Tally T)) : Config T Local (Shared T) :=
  ⟨fun t => (c.locals t).limiter, c.shared.limiter⟩

def limiterAct (_ : Config T Worker (Tally T)) : Action T WorkerAct ℕ → Option (Action T Act ℕ)
  | .thread t .request => some (.thread t (.call (.tryConsume 1)))
  | .thread t (.advance spurious) => some (.thread t (.advance spurious))
  | .thread _ .count => none
  | .env ns => some (.env ns)

section Limiter
variable [DecidableEq T] {requests : ℕ} {c c' : Config T Worker (Tally T)}

theorem limiterOf_update (t : T) (w' : Worker) (g' : Tally T) :
    limiterOf ⟨Function.update c.locals t w', g'⟩ =
      ⟨Function.update (limiterOf c).locals t w'.limiter, g'.limiter⟩ := by
  rw [limiterOf, limiterOf]
  congr 1
  funext u
  exact Function.apply_update (fun _ => Worker.limiter) c.locals t w' u

theorem follows_limiter {a : Action T WorkerAct ℕ}
    (hstep : burstStep lim requests c a = some c') :
    Follows (step lim) (limiterOf c) (limiterOf c') (limiterAct c a) := by
  cases a with
  | thread t a =>
    obtain ⟨w', g', hmove, rfl⟩ := step_thread.mp hstep
    rw [limiterOf_update]
    cases a with
    | request =>
      rw [workerMove] at hmove
      split_ifs at hmove
      obtain ⟨⟨l, shared⟩, hlimiter, hres⟩ := Option.map_eq_some_iff.mp hmove
      obtain ⟨rfl, rfl⟩ := Prod.mk.inj hres
      exact step_thread.mpr ⟨l, shared, hlimiter, rfl⟩
    | advance b =>
      rw [workerMove] at hmove
      split_ifs at hmove
      obtain ⟨⟨l, shared⟩, hlimiter, hres⟩ := Option.map_eq_some_iff.mp hmove
      obtain ⟨rfl, rfl⟩ := Prod.mk.inj hres
      exact step_thread.mpr ⟨l, shared, hlimiter, rfl⟩
    | count =>
      rw [workerMove] at hmove
      split at hmove
      · obtain ⟨rfl, rfl⟩ := Prod.mk.inj (Option.some.inj hmove)
        rw [limiter_count]
        exact congrArg (fun locals => Config.mk locals c.shared.limiter)
          (Function.update_eq_self t (limiterOf c).locals)
      · exact absurd hmove (by simp)
  | env ns =>
    rw [← Option.some.inj hstep]
    rfl

/-- The limiter has run. -/
theorem limiter_run {start : ℤ} {acts : List (Action T WorkerAct ℕ)}
    (hrun : exec (burstStep lim requests) (burstInit lim start) acts = some c) :
    exec (step lim) (lim.init start)
      (labels (burstStep lim requests) limiterAct (burstInit lim start) acts) =
        some (limiterOf c) := by
  have hstart : exec (burstStep lim requests) (burstInit lim start : Config T Worker (Tally T)) [] =
      some (burstInit lim start) := rfl
  exact exec_labels (fun _ _ _ _ _ hstep => follows_limiter hstep) hstart hrun

/-- The calls of the limiter are for one token. -/
theorem one_le_of_mem_labels {acts : List (Action T WorkerAct ℕ)} (t : T) (k : ℤ)
    (hmem : .thread t (.call (.tryConsume k)) ∈
      labels (burstStep lim requests) limiterAct c acts) : 1 ≤ k := by
  obtain ⟨d, a, -, ha⟩ := mem_labels hmem
  cases a with
  | thread u a =>
    cases a with
    | request =>
      simp only [limiterAct, Option.some.injEq, Action.thread.injEq, Act.call.injEq,
        Call.tryConsume.injEq] at ha
      omega
    | advance b => exact absurd ha (by simp [limiterAct])
    | count => exact absurd ha (by simp [limiterAct])
  | env ns => exact absurd ha (by simp [limiterAct])

theorem spent_burst {start : ℤ} {acts : List (Action T WorkerAct ℕ)}
    (hcap : 0 ≤ lim.capacityMicro)
    (hrun : exec (burstStep lim requests) (burstInit lim start) acts = some c) :
    Balanced lim 1 c.shared.limiter ∧ Spent lim c.shared.limiter :=
  spent_run (by decide) hcap one_le_of_mem_labels (limiter_run hrun)

/-! ## The time of a run -/

/-- The threads of the limiter leave the time alone. -/
theorem clock_of_thread {t : T} {a : Act} {d d' : Config T Local (Shared T)}
    (h : step lim d (.thread t a) = some d') : d'.shared.clock = d.shared.clock := by
  obtain ⟨l', g', hmove, rfl⟩ := step_thread.mp h
  exact clock_of_moves (moves_of_move hmove)

theorem clock_of_step {a : Action T WorkerAct ℕ} (hstep : burstStep lim requests c a = some c') :
    c'.shared.limiter.clock = c.shared.limiter.clock + passed [a] := by
  have hfollows := follows_limiter hstep
  cases a with
  | thread t a =>
    have hzero : ((passed [Action.thread t a] : ℕ) : ℤ) = 0 := rfl
    rw [hzero, add_zero]
    cases a with
    | request => exact clock_of_thread hfollows
    | advance b => exact clock_of_thread hfollows
    | count => exact congrArg (fun d => d.shared.clock) hfollows
  | env ns =>
    rw [← Option.some.inj hstep]
    rfl

theorem clock_run {acts : List (Action T WorkerAct ℕ)}
    (hrun : exec (burstStep lim requests) c acts = some c') :
    c'.shared.limiter.clock = c.shared.limiter.clock + passed acts := by
  induction acts generalizing c with
  | nil =>
    rw [← Option.some.inj hrun]
    exact (add_zero _).symm
  | cons a acts ih =>
    obtain ⟨d, hd, hrest⟩ := exec_cons.mp hrun
    rw [ih hrest, clock_of_step hd, passed_cons a acts]
    omega

/-! ## Tests that do not last too long -/

theorem burstStep_of_turn {a : Action T WorkerAct ℕ}
    (h : burstTurn lim requests c a = some (.ok c')) : burstStep lim requests c a = some c' := by
  have hok {o : Option (Config T Worker (Tally T))}
      (ho : o.map (Except.ok (ε := Undefined)) = some (.ok c')) : o = some c' := by
    obtain ⟨d, hd, hd'⟩ := Option.map_eq_some_iff.mp ho
    rw [hd, Except.ok.inj hd']
  unfold burstTurn at h
  split at h
  · split_ifs at h with hover
    · exact absurd (Option.some.inj h) (by simp)
    · exact hok h
  · exact hok h

/-- Only a thread that overflows makes a step undefined. -/
theorem overflows_of_turn {a : Action T WorkerAct ℕ} {u : Undefined}
    (h : burstTurn lim requests c a = some (.error u)) :
    ∃ t, (c.locals t).Overflows lim c.shared.limiter := by
  have hok {o : Option (Config T Worker (Tally T))}
      (ho : o.map (Except.ok (ε := Undefined)) = some (.error u)) : False := by
    obtain ⟨d, -, hd⟩ := Option.map_eq_some_iff.mp ho
    exact absurd hd (by simp)
  unfold burstTurn at h
  split at h
  · next t b =>
    split_ifs at h with hover
    · exact ⟨t, hover⟩
    · exact (hok h).elim
  · exact (hok h).elim

/-- What the rate gives for the time of the run bounds what the limiter computes. -/
theorem exists_ok_of_short [Fintype T] {capacity rate start : ℤ} (hcap : 0 ≤ capacity)
    (hrate : 0 ≤ rate) {acts : List (Action T WorkerAct ℕ)}
    {o : Except Undefined (Config T Worker (Tally T))} (hclock : passed acts < 2 ^ 63)
    (hproduct : rate * ↑(passed acts / 1000) * micro < 2 ^ 63)
    (hsum : capacity * micro + rate * ↑(passed acts / 1000) < 2 ^ 63)
    (hrun : exec (orUndefined (burstTurn (.new capacity rate) requests))
      (.ok (burstInit (.new capacity rate) start)) acts = some o) : ∃ c, o = .ok c := by
  apply exists_ok_of_reachable _ hrun
  intro bs a hbs c hbefore u herror
  -- up to the step that is asked about, the run is one of the limiter on the integers
  have hreach := exec_of_ok (fun _ _ _ => burstStep_of_turn) hbefore
  obtain ⟨t, hcall, hover⟩ := overflows_of_turn herror
  apply hover
  obtain ⟨⟨hstart, hlast⟩, hlocals⟩ := within_run hcap hrate (by decide) one_le_of_mem_labels
    (limiter_run hreach)
  obtain ⟨hsound, hwithin⟩ := hlocals t
  have htime : c.shared.limiter.clock = start + passed bs := clock_run hreach
  have hle := passed_le_of_prefix ((List.prefix_append bs [a]).trans hbs)
  have helapsed : elapsedUs c.shared.limiter.clock start ≤ ↑(passed acts / 1000) := by
    rw [elapsedUs_of_le (by omega), htime]
    omega
  have hmono := mul_le_mul_of_nonneg_left helapsed hrate
  have hscaled := mul_le_mul_of_nonneg_right hmono (by decide : (0 : ℤ) ≤ micro)
  refine hwithin.fits hcap hrate (by decide) hstart hlast hsound ?_ ?_ ?_ ?_
  · show c.shared.limiter.clock - start < 2 ^ 63
    omega
  · exact hscaled.trans_lt hproduct
  · exact (Int.add_le_add_left hmono _).trans_lt hsum
  · intro k hhead
    have hsettled := (burstInv_run hreach).settled t
    -- a thread of the test asks for one token
    rw [Worker.Settled, if_pos hcall] at hsettled
    rw [hhead.asks hsettled]
    decide

end Limiter

/-! ## When the threads have been joined -/

theorem totalConsumed_of_ones {g : Shared T} (hones : ∀ r ∈ g.returned, r.tokensNeeded = 1) :
    g.totalConsumed = g.returns true := by
  have hall : g.allowed.map Return.tokensNeeded = List.replicate g.allowed.length 1 := by
    apply List.eq_replicate_iff.mpr
    refine ⟨List.length_map _, ?_⟩
    intro k hk
    obtain ⟨r, hr, rfl⟩ := List.mem_map.mp hk
    exact hones r (List.mem_filter.mp hr).1
  rw [Shared.totalConsumed, hall, List.sum_replicate, nsmul_one, Shared.allowed,
    ← List.countP_eq_length_filter, Shared.returns]
  simp

theorem returns_add_returns (g : Shared T) :
    g.returns true + g.returns false = g.returned.length := by
  rw [List.length_eq_countP_add_countP (fun r => r.allowed = true), Shared.returns,
    Shared.returns]
  simp

theorem counts_of_joined [Fintype T] [DecidableEq T] {capacity rate start : ℤ}
    (hcap : 0 ≤ capacity) {requests : ℕ} (hfits : Fintype.card T * requests < 2 ^ 64)
    {acts : List (Action T WorkerAct ℕ)} {c : Config T Worker (Tally T)}
    (hrun : exec (burstStep (.new capacity rate) requests) (burstInit (.new capacity rate) start)
      acts = some c)
    (hdone : ∀ t, (c.locals t).made = requests ∧ (c.locals t).point = .ready) :
    c.shared.totalAllowed.toNat + c.shared.totalDenied.toNat = Fintype.card T * requests ∧
      min capacity ↑(Fintype.card T * requests) ≤ c.shared.totalAllowed.toNat ∧
      0 ≤ c.shared.limiter.tokensMicro ∧
      c.shared.limiter.tokensMicro = capacity * micro + c.shared.limiter.totalAdded -
        micro * c.shared.totalAllowed.toNat := by
  have hinv := burstInv_run hrun
  have hmicro : (0 : ℤ) < micro := by decide
  obtain ⟨hbalanced, hspent⟩ := spent_burst (mul_nonneg hcap hmicro.le) hrun
  have hlength : c.shared.limiter.returned.length = Fintype.card T * requests := by
    have hmade := hinv.made
    simpa [Worker.calling, hdone] using hmade
  have hreturns := returns_add_returns c.shared.limiter
  have htotal (b : Bool) : (c.shared.total b).toNat = c.shared.limiter.returns b := by
    have hcounted := hinv.counted b
    -- a thread that has been joined has no result left to count
    have hnone : ∑ t, (c.locals t).uncounted b = 0 := by
      simp [Worker.uncounted, hdone]
    have hzero : UInt64.ofNat 0 = 0 := rfl
    have hlt : c.shared.limiter.returns b < 2 ^ 64 := by
      cases b <;> omega
    rw [hnone, hzero, UInt64.add_zero] at hcounted
    rw [hcounted, UInt64.toNat_ofNat_of_lt' hlt]
  have hallowed : c.shared.totalAllowed.toNat = c.shared.limiter.returns true := htotal true
  have hdenied : c.shared.totalDenied.toNat = c.shared.limiter.returns false := htotal false
  have hconsumed := totalConsumed_of_ones hinv.ones
  refine ⟨by omega, ?_, hbalanced.nonneg, ?_⟩
  · rw [hallowed]
    by_cases hnone : c.shared.limiter.returns false = 0
    · apply min_le_of_right_le
      omega
    · apply min_le_of_left_le
      -- a denied call is a sign that the tokens of the start are spent
      obtain ⟨r, hr, hr'⟩ := List.countP_pos_iff.mp (Nat.pos_of_ne_zero hnone)
      have hmore := hspent.denied r hr (by simpa using hr')
      rw [hconsumed, hinv.ones r hr, mul_comm micro] at hmore
      have := lt_of_mul_lt_mul_right hmore hmicro.le
      omega
  · rw [hbalanced.balance, hconsumed, hallowed]
    rfl

/-- A limiter that is constructed without an overflow does not overflow while the rate gives at
most 9223372036854 micro-tokens for the time of the test, and with the capacity fewer than
`2 ^ 63`. When the threads have been joined, in whatever order they ran, every request has been
counted once, as many are allowed as the bucket held at the start, or all of them, and what is left
in the bucket is what the allowed ones did not take. -/
theorem burst_counts_every_request [Fintype T] [DecidableEq T] (capacity rate start : ℤ)
    (hcap : 0 ≤ capacity) (hrate : 0 ≤ rate) (lim : TokenBucketRateLimiter)
    (hlim : TokenBucketRateLimiter.newInt64 capacity rate = some lim) (requests : ℕ)
    (hfits : Fintype.card T * requests < 2 ^ 64) (acts : List (Action T WorkerAct ℕ))
    (hclock : passed acts < 2 ^ 63)
    (hproduct : rate * ↑(passed acts / 1000) ≤ 9223372036854)
    (hsum : capacity * micro + rate * ↑(passed acts / 1000) < 2 ^ 63)
    (o : Except Undefined (Config T Worker (Tally T)))
    (hrun : exec (orUndefined (burstTurn lim requests)) (.ok (burstInit lim start)) acts =
      some o) :
    ∃ c, o = .ok c ∧
      ((∀ t, (c.locals t).made = requests ∧ (c.locals t).point = .ready) →
        c.shared.totalAllowed.toNat + c.shared.totalDenied.toNat = Fintype.card T * requests ∧
        min capacity ↑(Fintype.card T * requests) ≤ c.shared.totalAllowed.toNat ∧
        0 ≤ c.shared.limiter.tokensMicro ∧
        c.shared.limiter.tokensMicro = capacity * micro + c.shared.limiter.totalAdded -
          micro * c.shared.totalAllowed.toNat) := by
  obtain ⟨rfl, -⟩ := eq_new_of_newInt64 hcap hrate hlim
  obtain ⟨c, rfl⟩ :=
    exists_ok_of_short hcap hrate hclock ((scaled_lt_iff _).mpr hproduct) hsum hrun
  refine ⟨c, rfl, ?_⟩
  intro hdone
  exact counts_of_joined hcap hfits (exec_of_ok (fun _ _ _ => burstStep_of_turn) hrun) hdone

/-- Two threads with two requests each, two tokens, and one token a second: the bucket is emptied,
a second passes, one thread refills it and both find a token; the exchange of the other one fails
and it is denied. -/
def twoTokens : List (Action Bool WorkerAct ℕ) :=
  List.flatten [
    [Action.thread false WorkerAct.request], times 4 false (WorkerAct.advance false),
    [Action.thread false WorkerAct.count, Action.thread true WorkerAct.request],
    times 4 true (WorkerAct.advance false),
    [Action.thread true WorkerAct.count, Action.env 1000000000,
      Action.thread false WorkerAct.request, Action.thread true WorkerAct.request],
    times 6 false (WorkerAct.advance false), times 3 true (WorkerAct.advance false),
    times 1 false (WorkerAct.advance false), times 1 true (WorkerAct.advance false),
    [Action.thread true WorkerAct.count, Action.thread false WorkerAct.count]]

theorem burst_counts_every_request_twoTokens :
    ∃ c, exec (orUndefined (burstTurn (.new 2 1) 2)) (.ok (burstInit (.new 2 1) 0)) twoTokens =
        some (.ok c) ∧
      c.shared.totalAllowed.toNat + c.shared.totalDenied.toNat = 4 ∧
      2 ≤ c.shared.totalAllowed.toNat := by
  have hrun : (exec (orUndefined (burstTurn (.new 2 1) 2)) (.ok (burstInit (.new 2 1) 0))
      twoTokens).map (fun o => o.toOption.map fun c =>
        decide (∀ t, (c.locals t).made = 2 ∧ (c.locals t).point = .ready)) =
        some (some true) := by
    decide +kernel
  obtain ⟨o, ho, hdone⟩ := Option.map_eq_some_iff.mp hrun
  obtain ⟨c, rfl, hcounts⟩ := burst_counts_every_request 2 1 0 (by decide) (by decide) (.new 2 1)
    rfl 2 (by decide) twoTokens (by decide) (by decide) (by decide) o ho
  obtain ⟨hsum, hmin, -⟩ := hcounts (of_decide_eq_true (Option.some.inj hdone))
  have hfour : Fintype.card Bool * 2 = 4 := rfl
  rw [hfour] at hsum hmin
  exact ⟨c, ho, hsum, by omega⟩

end Gateway.RateLimit
