import Gateway.RateLimit.Conservation
import Mathlib.Algebra.Order.BigOperators.Group.Finset
import Mathlib.Algebra.Order.BigOperators.Group.List

/-!
# How many calls are admitted

A thread that stores `last_refill_` turns the time since the value it loaded into
tokens. When every store finds the value that was loaded, no time is turned into
tokens twice and the admitted calls are within the rate. Two threads that load the
same value are both credited for the same time.
-/

namespace Gateway.RateLimit
open Steps Threads

/-! ## Elapsed time -/

theorem elapsedUs_of_le {now last : ℤ} (h : last ≤ now) :
    elapsedUs now last = (now - last) / 1000 :=
  Int.tdiv_eq_ediv_of_nonneg (sub_nonneg.mpr h)

theorem elapsedUs_nonneg {now last : ℤ} (h : last ≤ now) : 0 ≤ elapsedUs now last := by
  rw [elapsedUs_of_le h]
  omega

theorem le_of_elapsedUs_pos {now last : ℤ} (h : 0 < elapsedUs now last) : last ≤ now := by
  by_contra hlt
  have hneg : elapsedUs now last ≤ 0 := by
    rw [elapsedUs, ← Int.neg_nonneg, ← Int.neg_tdiv]
    exact Int.tdiv_nonneg (by omega) (by decide)
  omega

/-- Rounding down loses time, so two intervals give no more than the whole. -/
theorem elapsedUs_add_le {a b c : ℤ} (hab : a ≤ b) (hbc : b ≤ c) :
    elapsedUs b a + elapsedUs c b ≤ elapsedUs c a := by
  rw [elapsedUs_of_le hab, elapsedUs_of_le hbc, elapsedUs_of_le (hab.trans hbc)]
  omega

theorem toAdd_new (capacity rate elapsed : ℤ) :
    (TokenBucketRateLimiter.new capacity rate).toAdd elapsed = rate * elapsed := by
  have heq : rate * micro * elapsed = rate * elapsed * 1000000 := mul_right_comm _ _ _
  rw [TokenBucketRateLimiter.toAdd, TokenBucketRateLimiter.new, heq,
    Int.mul_tdiv_cancel _ (by decide)]

/-! ## Time turned into tokens -/

variable {T : Type*}

/-- What a thread has claimed for elapsed time and not added yet. -/
def Local.pending : Local → ℤ
  | ⟨_, .loadTokensRefill _ toAdd⟩ => toAdd
  | ⟨_, .casRefill _ toAdd _⟩ => toAdd
  | ⟨_, _⟩ => 0

/-- The times a thread holds are past. -/
def Point.Timely (clock : ℤ) : Point → Prop
  | .loadLastRefill _ now => now ≤ clock
  | .storeLastRefill _ now last => last ≤ now ∧ now ≤ clock
  | _ => True

/-- A thread stores `last_refill_` only while it holds the value the thread loaded. -/
def Unraced (_ : T) (_ : Act) : Local → Shared T → Prop
  | ⟨_, .storeLastRefill _ _ last⟩, g => g.lastRefill = last
  | ⟨_, _⟩, _ => True

instance (t : T) (a : Act) : ∀ (l : Local) (g : Shared T), Decidable (Unraced t a l g)
  | ⟨_, .storeLastRefill _ _ last⟩, g => inferInstanceAs (Decidable (g.lastRefill = last))
  | ⟨_, .idle⟩, _ => inferInstanceAs (Decidable True)
  | ⟨_, .readClock _⟩, _ => inferInstanceAs (Decidable True)
  | ⟨_, .loadLastRefill _ _⟩, _ => inferInstanceAs (Decidable True)
  | ⟨_, .loadTokensRefill _ _⟩, _ => inferInstanceAs (Decidable True)
  | ⟨_, .casRefill _ _ _⟩, _ => inferInstanceAs (Decidable True)
  | ⟨_, .loadTokens _⟩, _ => inferInstanceAs (Decidable True)
  | ⟨_, .casTokens _ _⟩, _ => inferInstanceAs (Decidable True)

theorem pending_nonneg {lim : TokenBucketRateLimiter} {least : ℤ} {t : T} {l : Local}
    {g : Shared T} (ho : Owns lim least t l g) : 0 ≤ l.pending := by
  obtain ⟨n, p⟩ := l
  have hs := ho.sound
  cases p with
  | loadTokensRefill c toAdd => exact hs.2
  | casRefill c toAdd current => exact hs.2
  | _ => exact le_rfl

theorem pending_afterRefill (n : ℕ) (c : Call) : Local.pending ⟨n, c.afterRefill⟩ = 0 := by
  cases c <;> rfl

theorem timely_afterRefill (clock : ℤ) (c : Call) : c.afterRefill.Timely clock := by
  cases c <;> trivial

theorem Point.AtHead.pending {k : ℤ} {p : Point} (hp : p.AtHead k) (n : ℕ) :
    Local.pending ⟨n, p⟩ = 0 := by
  cases hp <;> rfl

theorem Point.Timely.mono {clock clock' : ℤ} (h : clock ≤ clock') {p : Point}
    (hp : p.Timely clock) : p.Timely clock' := by
  cases p with
  | loadLastRefill c now => exact le_trans hp h
  | storeLastRefill c now last => exact ⟨hp.1, hp.2.trans h⟩
  | _ => trivial

/-- What one step of a thread adds to the tokens claimed so far, against the time it
marks as used. -/
structure Claims (rate start : ℤ) (l : Local) (g : Shared T) (l' : Local) (g' : Shared T) :
    Prop where
  start_le : start ≤ g'.lastRefill
  le_clock : g'.lastRefill ≤ g'.clock
  clock_eq : g'.clock = g.clock
  timely : l'.point.Timely g'.clock
  claim : g'.totalAdded + l'.pending + rate * elapsedUs g.lastRefill start ≤
    g.totalAdded + l.pending + rate * elapsedUs g'.lastRefill start

/-- A step that claims nothing. -/
theorem claims_same {rate start : ℤ} {l l' : Local} {g : Shared T} (hstart : start ≤ g.lastRefill)
    (hclock : g.lastRefill ≤ g.clock) (ht : l'.point.Timely g.clock) (hp : l'.pending = l.pending) :
    Claims rate start l g l' g :=
  ⟨hstart, hclock, rfl, ht, by rw [hp]⟩

theorem claims_of_moves {capacity rate start : ℤ} (hrate : 0 ≤ rate) {t : T} {n : ℕ}
    {g g' : Shared T} {a : Act} {p : Point} {l' : Local}
    (hstart : start ≤ g.lastRefill) (hclock : g.lastRefill ≤ g.clock) (ht : p.Timely g.clock)
    (hq : Unraced t a ⟨n, p⟩ g) (hm : Moves (.new capacity rate) t n g a p l' g') :
    Claims rate start ⟨n, p⟩ g l' g' := by
  cases hm with
  | call c => exact claims_same hstart hclock trivial rfl
  | readClock b c => exact claims_same hstart hclock le_rfl rfl
  | notDue b c now =>
    exact claims_same hstart hclock (timely_afterRefill _ c) (pending_afterRefill n c)
  | due b c now hus hadd => exact claims_same hstart hclock ⟨le_of_elapsedUs_pos hus, ht⟩ rfl
  | storeLastRefill b c now last =>
    -- the time since `last` is claimed and, `last` being current, was not claimed before
    obtain rfl : g.lastRefill = last := hq
    refine ⟨hstart.trans ht.1, ht.2, rfl, trivial, ?_⟩
    have hsum := mul_le_mul_of_nonneg_left (elapsedUs_add_le hstart ht.1) hrate
    simp only [Local.pending, toAdd_new, Shared.totalAdded]
    linarith
  | loadTokensRefill b c toAdd => exact claims_same hstart hclock trivial rfl
  | refilled b c toAdd =>
    refine ⟨hstart, hclock, rfl, timely_afterRefill _ c, ?_⟩
    -- what the capacity cuts off is claimed and never added
    have hmin := min_le_left (g.tokensMicro + toAdd)
      (TokenBucketRateLimiter.new capacity rate).capacityMicro
    rw [pending_afterRefill]
    simp only [Local.pending, Shared.totalAdded, List.map_append, List.sum_append,
      List.map_singleton, List.sum_singleton]
    linarith
  | retryRefill b c toAdd current => exact claims_same hstart hclock trivial rfl
  | denied b hp =>
    refine ⟨hstart, hclock, rfl, trivial, ?_⟩
    rw [hp.pending]
    exact le_rfl
  | enough b hp hk => exact claims_same hstart hclock trivial (hp.pending n).symm
  | consumed b k => exact ⟨hstart, hclock, rfl, trivial, le_rfl⟩

/-! ## Runs -/

variable [Fintype T]

/-- The tokens added and those still to be added come from time before `last_refill_`. -/
structure Claimed (rate start : ℤ) (c : Config T Local (Shared T)) : Prop where
  start_le : start ≤ c.shared.lastRefill
  le_clock : c.shared.lastRefill ≤ c.shared.clock
  timely : ∀ t, (c.locals t).point.Timely c.shared.clock
  claimed : c.shared.totalAdded + ∑ t, (c.locals t).pending ≤
    rate * elapsedUs c.shared.lastRefill start

theorem claimed_init (lim : TokenBucketRateLimiter) (rate start : ℤ) :
    Claimed rate start (lim.init (T := T) start) where
  start_le := le_rfl
  le_clock := le_rfl
  timely _ := trivial
  claimed := by
    simp [TokenBucketRateLimiter.init, Shared.totalAdded, Local.pending, elapsedUs]

variable [DecidableEq T]

theorem claimed_step {capacity rate start : ℤ} (hrate : 0 ≤ rate)
    {c d : Config T Local (Shared T)} {a : Action T Act ℕ} (hc : Claimed rate start c)
    (hq : Guarded Unraced c a) (hstep : step (.new capacity rate) c a = some d) :
    Claimed rate start d := by
  rcases a with ⟨t, a⟩ | ns
  · obtain ⟨l', g', hmove, rfl⟩ := step_thread.mp hstep
    have hclaims := claims_of_moves hrate hc.start_le hc.le_clock (hc.timely t) hq
      (moves_of_move hmove)
    refine ⟨hclaims.start_le, hclaims.le_clock, fun u => ?_, ?_⟩
    · dsimp only
      by_cases hu : u = t
      · subst hu
        rw [Function.update_self]
        exact hclaims.timely
      · rw [Function.update_of_ne hu]
        exact (hc.timely u).mono hclaims.clock_eq.ge
    · have hsum := sum_update Local.pending c.locals t l'
      have hclaim := hclaims.claim
      have hclaimed := hc.claimed
      dsimp only at hclaim ⊢
      linarith
  · obtain rfl := Option.some.inj hstep
    have hlater : c.shared.clock ≤ c.shared.clock + ns :=
      le_add_of_nonneg_right (Int.natCast_nonneg ns)
    exact ⟨hc.start_le, hc.le_clock.trans hlater, fun t => (hc.timely t).mono hlater, hc.claimed⟩

/-- In every run in which the stores of `last_refill_` are not raced, the calls that
returned true are at most the capacity plus the rate times the microseconds since the
construction. -/
theorem allowed_le_of_unraced {capacity rate start : ℤ} (hcap : 1 ≤ capacity) (hrate : 1 ≤ rate)
    {actions : List (Action T Act ℕ)} {c : Config T Local (Shared T)}
    (hcalls : ∀ t k, .thread t (.call (.tryConsume k)) ∈ actions → k = 1)
    (hunraced : let lim := TokenBucketRateLimiter.new capacity rate
      Meets (step lim) (Guarded Unraced) (lim.init start) actions)
    (hrun : let lim := TokenBucketRateLimiter.new capacity rate
      exec (step lim) (lim.init start) actions = some c) :
    (c.shared.allowed.length : ℤ) ≤
      capacity + rate * elapsedUs c.shared.clock start / 1000000 := by
  obtain ⟨hb, ho⟩ : Balanced _ 1 c.shared ∧ _ := balanced_run (by decide)
    (mul_nonneg (by omega) (by decide : 0 ≤ micro)) (fun t k hmem => (hcalls t k hmem).ge) hrun
  have hc : Claimed rate start c := invariant_of_meets
    (fun _ _ _ hc hq hstep => claimed_step (by omega) hc hq hstep) (claimed_init _ _ _)
    hunraced hrun
  have hpending : 0 ≤ ∑ t, (c.locals t).pending :=
    Finset.sum_nonneg fun t _ => pending_nonneg (ho t)
  have hconsumed : (c.shared.allowed.length : ℤ) ≤ c.shared.totalConsumed := by
    have := List.card_nsmul_le_sum (c.shared.allowed.map Return.tokensNeeded) 1 (by
      simp only [List.mem_map]
      rintro _ ⟨r, hr, rfl⟩
      exact hb.returned_least r (List.mem_of_mem_filter hr))
    simpa [Shared.totalConsumed] using this
  have hclock : rate * elapsedUs c.shared.lastRefill start ≤
      rate * elapsedUs c.shared.clock start := by
    have := elapsedUs_add_le hc.start_le hc.le_clock
    have := elapsedUs_nonneg hc.le_clock
    exact mul_le_mul_of_nonneg_left (by omega) (by omega)
  have hlevel := hb.nonneg
  have hbalance := hb.balance
  have hclaimed := hc.claimed
  simp only [TokenBucketRateLimiter.new, micro] at hbalance
  omega

/-- Two threads take a token each. A second later one of them stores `last_refill_`, another second
later the other one does, and their exchanges meet; each takes a token refilled since. -/
def taking : List (Action Bool Act ℕ) :=
  [times 1 true (.call (.tryConsume 1)), times 4 true (.advance false),
    times 1 false (.call (.tryConsume 1)), times 4 false (.advance false), [.env 1000000000],
    times 1 true (.call (.tryConsume 1)), times 3 true (.advance false), [.env 1000000000],
    times 1 false (.call (.tryConsume 1)), times 4 false (.advance false),
    times 2 true (.advance false), times 2 false (.advance false),
    times 1 true (.advance false), times 1 false (.advance false),
    times 1 true (.advance false), times 2 false (.advance false)].flatten

theorem allowed_le_of_unraced_taking :
    (∀ t k, .thread t (.call (.tryConsume k)) ∈ taking → k = 1) ∧
    Meets (step (.new 2 1)) (Guarded Unraced) (TokenBucketRateLimiter.init (.new 2 1) 0) taking ∧
    ∃ c, exec (step (.new 2 1)) (TokenBucketRateLimiter.init (.new 2 1) 0) taking = some c ∧
      c.shared.allowed.map Return.call = [(true, 1), (false, 1), (true, 2), (false, 2)] ∧
      (c.shared.allowed.length : ℤ) ≤ 2 + 1 * elapsedUs c.shared.clock 0 / 1000000 := by
  have hcalls : ∀ t k, .thread t (.call (.tryConsume k)) ∈ taking → k = 1 := by
    intro t k hmem
    simp [taking, times] at hmem
    omega
  have hunraced : Meets (step (.new 2 1)) (Guarded Unraced)
      (TokenBucketRateLimiter.init (.new 2 1) 0) taking := by
    decide +kernel
  have hrun : (exec (step (.new 2 1)) (TokenBucketRateLimiter.init (.new 2 1) 0) taking).map
      (fun c => c.shared.allowed.map Return.call) =
        some [(true, 1), (false, 1), (true, 2), (false, 2)] := by
    decide +kernel
  obtain ⟨c, hc, hcallers⟩ := Option.map_eq_some_iff.mp hrun
  exact ⟨hcalls, hunraced, c, hc, hcallers,
    allowed_le_of_unraced (by decide) (by decide) hcalls hunraced hc⟩

/-- The bucket of one token is emptied; a second later two threads load the same
`last_refill_` before either stores it, and each refills and takes a token. -/
def sameLastRefill : List (Action Bool Act ℕ) :=
  [times 1 true (.call (.tryConsume 1)), times 4 true (.advance false), [.env 1000000000],
    times 1 true (.call (.tryConsume 1)), times 2 true (.advance false),
    times 1 false (.call (.tryConsume 1)), times 2 false (.advance false),
    times 5 true (.advance false), times 5 false (.advance false)].flatten

theorem sameLastRefill_over_admits :
    ∃ c, exec (step (.new 1 1)) (TokenBucketRateLimiter.init (.new 1 1) 0) sameLastRefill =
        some c ∧
      ¬ (c.shared.allowed.length : ℤ) ≤ 1 + 1 * elapsedUs c.shared.clock 0 / 1000000 := by
  have hrun : (exec (step (.new 1 1)) (TokenBucketRateLimiter.init (.new 1 1) 0)
      sameLastRefill).map (fun c => (c.shared.allowed.length, c.shared.clock)) =
        some (3, 1000000000) := by
    decide +kernel
  obtain ⟨c, hc, hend⟩ := Option.map_eq_some_iff.mp hrun
  obtain ⟨hthree, hclock⟩ := Prod.mk.inj hend
  refine ⟨c, hc, ?_⟩
  rw [hthree, hclock]
  decide

end Gateway.RateLimit
