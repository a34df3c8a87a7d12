import Gateway.RateLimit.Width

/-!
# The 64-bit arithmetic of a shared limiter

What `refill` and `try_consume` compute is bounded by the capacity and by what the rate gives for
the time since the construction, however the threads interleave. So a limiter does not overflow
before that time is long enough.
-/

namespace Gateway.RateLimit
open Steps Threads TokenBucketRateLimiter

variable {T : Type*}

/-- The computations that go with the next access of a thread stay within `int64_t`. -/
def Point.Fits (lim : TokenBucketRateLimiter) (g : Shared T) : Point → Prop
  | .loadLastRefill _ now =>
    (int64 (now - g.lastRefill)).isSome ∧ (0 < elapsedUs now g.lastRefill →
      (int64 (lim.refillRatePerSMicro * elapsedUs now g.lastRefill)).isSome)
  | .casRefill _ toAdd current => (int64 (current + toAdd)).isSome
  | .loadTokens tokensNeeded => (int64 (tokensNeeded * micro)).isSome
  | .casTokens tokensNeeded current => (int64 (current - tokensNeeded * micro)).isSome
  | _ => True

instance (lim : TokenBucketRateLimiter) (g : Shared T) : ∀ p : Point, Decidable (p.Fits lim g)
  | .loadLastRefill _ _ => inferInstanceAs (Decidable (_ ∧ (_ → _)))
  | .casRefill _ _ _ => inferInstanceAs (Decidable (_ = true))
  | .loadTokens _ => inferInstanceAs (Decidable (_ = true))
  | .casTokens _ _ => inferInstanceAs (Decidable (_ = true))
  | .idle => inferInstanceAs (Decidable True)
  | .readClock _ => inferInstanceAs (Decidable True)
  | .storeLastRefill _ _ _ => inferInstanceAs (Decidable True)
  | .loadTokensRefill _ _ => inferInstanceAs (Decidable True)

theorem isSome_int64 {n : ℤ} (hlow : -2 ^ 63 ≤ n) (hhigh : n < 2 ^ 63) : (int64 n).isSome := by
  rw [int64, if_pos ⟨hlow, hhigh⟩]
  rfl

/-- A limiter that is constructed without an overflow. -/
theorem eq_new_of_newInt64 {capacity rate : ℤ} {lim : TokenBucketRateLimiter} (hcap : 0 ≤ capacity)
    (hrate : 0 ≤ rate) (h : newInt64 capacity rate = some lim) :
    lim = .new capacity rate ∧ capacity * micro < 2 ^ 63 := by
  rw [newInt64_of_nonneg hcap hrate] at h
  obtain ⟨hfit, hlim⟩ := Option.ite_none_right_eq_some.mp h
  exact ⟨(Option.some.inj hlim).symm, hfit.1⟩

/-! ## What the threads hold -/

/-- The times that a thread holds lie between the construction and the present, the tokens that
it is going to add are no more than the rate gives for that time, and the level that it has read
is one of the bucket's. -/
def Point.Within (lim : TokenBucketRateLimiter) (start clock : ℤ) : Point → Prop
  | .loadLastRefill _ now => start ≤ now ∧ now ≤ clock
  | .storeLastRefill _ now last => start ≤ last ∧ last ≤ now ∧ now ≤ clock
  | .loadTokensRefill _ toAdd => toAdd ≤ lim.toAdd (elapsedUs clock start)
  | .casRefill _ toAdd current =>
    toAdd ≤ lim.toAdd (elapsedUs clock start) ∧ 0 ≤ current ∧ current ≤ lim.capacityMicro
  | .casTokens _ current => current ≤ lim.capacityMicro
  | _ => True

/-- Part of the time gives part of the tokens. -/
theorem toAdd_mono (capacity : ℤ) {rate start last now clock : ℤ} (hrate : 0 ≤ rate)
    (hlast : start ≤ last) (hnow : last ≤ now) (hclock : now ≤ clock) :
    (new capacity rate).toAdd (elapsedUs now last) ≤
      (new capacity rate).toAdd (elapsedUs clock start) := by
  rw [toAdd_new, toAdd_new]
  apply mul_le_mul_of_nonneg_left _ hrate
  rw [elapsedUs_of_le hnow, elapsedUs_of_le (by omega)]
  omega

theorem Point.Within.mono {capacity rate start clock clock' : ℤ} (hrate : 0 ≤ rate)
    (hstart : start ≤ clock) (h : clock ≤ clock') {p : Point}
    (hp : p.Within (.new capacity rate) start clock) :
    p.Within (.new capacity rate) start clock' := by
  have hmono : (new capacity rate).toAdd (elapsedUs clock start) ≤
      (new capacity rate).toAdd (elapsedUs clock' start) :=
    toAdd_mono capacity hrate le_rfl hstart h
  cases p with
  | loadLastRefill c now => exact ⟨hp.1, hp.2.trans h⟩
  | storeLastRefill c now last => exact ⟨hp.1, hp.2.1, hp.2.2.trans h⟩
  | loadTokensRefill c toAdd => exact le_trans hp hmono
  | casRefill c toAdd current => exact ⟨hp.1.trans hmono, hp.2⟩
  | casTokens k current => exact hp
  | _ => trivial

theorem within_afterRefill (lim : TokenBucketRateLimiter) (start clock : ℤ) (c : Call) :
    c.afterRefill.Within lim start clock := by
  cases c <;> trivial

/-- What a step of a thread keeps: the time of the last refill and what the thread holds. -/
theorem within_of_moves {capacity rate start least : ℤ} (hrate : 0 ≤ rate) {t : T} {n : ℕ}
    {g g' : Shared T} {a : Act} {p : Point} {l' : Local}
    (hb : Balanced (.new capacity rate) least g)
    (hstart : start ≤ g.lastRefill) (hlast : g.lastRefill ≤ g.clock)
    (hp : p.Within (.new capacity rate) start g.clock)
    (hm : Moves (.new capacity rate) t n g a p l' g') :
    (start ≤ g'.lastRefill ∧ g'.lastRefill ≤ g'.clock) ∧
      l'.point.Within (.new capacity rate) start g'.clock := by
  cases hm with
  | call c => exact ⟨⟨hstart, hlast⟩, trivial⟩
  | readClock b c => exact ⟨⟨hstart, hlast⟩, hstart.trans hlast, le_rfl⟩
  | notDue b c now => exact ⟨⟨hstart, hlast⟩, within_afterRefill _ _ _ c⟩
  -- tokens to add mean that the time did not go back
  | due b c now hus hadd => exact ⟨⟨hstart, hlast⟩, hstart, le_of_elapsedUs_pos hus, hp.2⟩
  | storeLastRefill b c now last =>
    obtain ⟨hfrom, hle, hto⟩ := hp
    exact ⟨⟨hfrom.trans hle, hto⟩, toAdd_mono _ hrate hfrom hle hto⟩
  | loadTokensRefill b c toAdd => exact ⟨⟨hstart, hlast⟩, hp, hb.nonneg, hb.le_capacity⟩
  | refilled b c toAdd => exact ⟨⟨hstart, hlast⟩, within_afterRefill _ _ _ c⟩
  | retryRefill b c toAdd current => exact ⟨⟨hstart, hlast⟩, hp.1, hb.nonneg, hb.le_capacity⟩
  | denied b hhead => exact ⟨⟨hstart, hlast⟩, trivial⟩
  | enough b hhead hk => exact ⟨⟨hstart, hlast⟩, hb.le_capacity⟩
  | consumed b k => exact ⟨⟨hstart, hlast⟩, trivial⟩

/-- What the threads hold along every run. -/
theorem within_run [DecidableEq T] {capacity rate start least : ℤ} (hcap : 0 ≤ capacity)
    (hrate : 0 ≤ rate) (hleast : 0 ≤ least) {actions : List (Action T Act ℕ)}
    {c : Config T Local (Shared T)}
    (hcalls : ∀ t k, .thread t (.call (.tryConsume k)) ∈ actions → least ≤ k)
    (hrun : exec (step (.new capacity rate)) ((new capacity rate).init start) actions = some c) :
    (start ≤ c.shared.lastRefill ∧ c.shared.lastRefill ≤ c.shared.clock) ∧
      ∀ t, (c.locals t).point.Sound (.new capacity rate) least ∧
        (c.locals t).point.Within (.new capacity rate) start c.shared.clock := by
  have hboth : (Balanced (.new capacity rate) least c.shared ∧ start ≤ c.shared.lastRefill ∧
        c.shared.lastRefill ≤ c.shared.clock) ∧
      ∀ t, Owns (.new capacity rate) least t (c.locals t) c.shared ∧
        (c.locals t).point.Within (.new capacity rate) start c.shared.clock := by
    refine invariant_of_noninterference
      (I := fun g => Balanced (.new capacity rate) least g ∧ start ≤ g.lastRefill ∧
        g.lastRefill ≤ g.clock)
      (P := fun t l g => Owns (.new capacity rate) least t l g ∧
        l.point.Within (.new capacity rate) start g.clock)
      (Q := fun _ a _ _ => ∀ c, a = .call c → c.AtLeast least) ?_ ?_ ?_
      ⟨balanced_init (mul_nonneg hcap (by decide)) start, le_rfl, le_rfl⟩
      (fun t => ⟨owns_init t start, trivial⟩) (meets_of_forall_mem ?_ _) hrun
    -- the thread that moves
    · intro t a l g l' g' hg ho hq hmove
      have hmoves := moves_of_move hmove
      obtain ⟨hb, hstart, hlast⟩ := hg
      obtain ⟨hb', ho'⟩ := moves_own hleast hb ho.1 hq hmoves
      obtain ⟨hlast', hwithin⟩ := within_of_moves hrate hb hstart hlast ho.2 hmoves
      exact ⟨⟨hb', hlast'⟩, ho', hwithin⟩
    -- another thread, whose bounds the clock alone could move
    · intro t a l g l' g' u m hu _ ho hmove
      have hmoves := moves_of_move hmove
      refine ⟨moves_other hu ho.1 hmoves, ?_⟩
      rw [clock_of_moves hmoves]
      exact ho.2
    -- time passes: the bounds become wider
    · intro ns g hg
      obtain ⟨hb, hstart, hlast⟩ := hg
      have htick : g.clock ≤ (tick ns g).clock := Int.le_add_of_nonneg_right (Int.natCast_nonneg ns)
      refine ⟨⟨⟨hb.nonneg, hb.le_capacity, hb.balance, hb.added_nodup, hb.returned_nodup,
        hb.returned_least⟩, hstart, hlast.trans htick⟩, ?_⟩
      intro t l ho
      exact ⟨⟨ho.1.sound, ho.1.added_lt, ho.1.returned_lt⟩,
        ho.2.mono hrate (hstart.trans hlast) htick⟩
    · intro a hmem c
      cases a with
      | thread t a =>
        intro call hcall
        cases call with
        | refill => trivial
        | tryConsume k => exact hcalls t k (hcall ▸ hmem)
      | env ns => trivial
  exact ⟨hboth.1.2, fun t => ⟨(hboth.2 t).1.sound, (hboth.2 t).2⟩⟩

/-! ## No overflow before the time is up -/

/-- After so short a time that what the rate gives for it is small enough, no computation of a
thread overflows. -/
theorem Point.Within.fits {capacity rate start least : ℤ} {g : Shared T} {p : Point}
    (hcap : 0 ≤ capacity) (hrate : 0 ≤ rate) (hleast : 0 ≤ least)
    (hstart : start ≤ g.lastRefill) (hlast : g.lastRefill ≤ g.clock)
    (hsound : p.Sound (.new capacity rate) least)
    (hp : p.Within (.new capacity rate) start g.clock) (hspan : g.clock - start < 2 ^ 63)
    (hproduct : rate * elapsedUs g.clock start * micro < 2 ^ 63)
    (hsum : capacity * micro + rate * elapsedUs g.clock start < 2 ^ 63)
    (hneeded : ∀ k, p.AtHead k → k * micro < 2 ^ 63) : p.Fits (.new capacity rate) g := by
  have hlevel : 0 ≤ capacity * micro := mul_nonneg hcap (by decide)
  have hmicro : (0 : ℤ) < micro := by decide
  cases p with
  | loadLastRefill c now =>
    obtain ⟨hfrom, hto⟩ := hp
    refine ⟨isSome_int64 (by omega) (by omega), ?_⟩
    intro hus
    have hmono : rate * elapsedUs now g.lastRefill ≤ rate * elapsedUs g.clock start := by
      have htoAdd := toAdd_mono capacity hrate hstart (le_of_elapsedUs_pos hus) hto
      rw [toAdd_new, toAdd_new] at htoAdd
      exact htoAdd
    -- `refill_rate_per_s_micro_` is the rate times a million
    have hscaled : (new capacity rate).refillRatePerSMicro * elapsedUs now g.lastRefill =
        rate * elapsedUs now g.lastRefill * micro := mul_right_comm _ _ _
    have hnonneg : 0 ≤ rate * elapsedUs now g.lastRefill * micro :=
      mul_nonneg (mul_nonneg hrate hus.le) hmicro.le
    have hle := mul_le_mul_of_nonneg_right hmono hmicro.le
    rw [hscaled]
    exact isSome_int64 (by omega) (by omega)
  | casRefill c toAdd current =>
    obtain ⟨hadd, hnonneg, hcurrent⟩ := hp
    have hle : current ≤ capacity * micro := hcurrent
    have hpos := hsound.2
    rw [toAdd_new] at hadd
    exact isSome_int64 (by omega) (by omega)
  | loadTokens k =>
    have hk : 0 ≤ k * micro := mul_nonneg (hleast.trans hsound) hmicro.le
    exact isSome_int64 (by omega) (hneeded k .load)
  | casTokens k current =>
    obtain ⟨hk, hcover⟩ := hsound
    have hle : current ≤ capacity * micro := hp
    have hneeded := hneeded k (.retry current)
    have hnonneg : 0 ≤ k * micro := mul_nonneg (hleast.trans hk) hmicro.le
    have hproducts : 0 ≤ rate * elapsedUs g.clock start :=
      mul_nonneg hrate (elapsedUs_nonneg (hstart.trans hlast))
    exact isSome_int64 (by omega) (by omega)
  | _ => trivial

end Gateway.RateLimit
