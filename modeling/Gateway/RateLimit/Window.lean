import Gateway.RateLimit.Admission

/-!
# The rate bound on every window

`refill` and `try_consume` as one thread sees them that has the limiter to itself. What
is admitted in a window of time is bounded by the bucket the window may find full and
the rate over the window, wherever the window lies.
-/

namespace Gateway.RateLimit
open Steps Threads

/-- The atomics of a limiter. -/
structure Bucket where
  tokensMicro : ℤ
  lastRefill : ℤ
deriving DecidableEq

namespace TokenBucketRateLimiter

/-- The bucket of a limiter constructed at time `start`. -/
def bucket (lim : TokenBucketRateLimiter) (start : ℤ) : Bucket := ⟨lim.capacityMicro, start⟩

def refill (lim : TokenBucketRateLimiter) (b : Bucket) (now : ℤ) : Bucket :=
  let elapsed := elapsedUs now b.lastRefill
  if elapsed ≤ 0 then b
  else if lim.toAdd elapsed ≤ 0 then b
  else ⟨min (b.tokensMicro + lim.toAdd elapsed) lim.capacityMicro, now⟩

/-- The loop of `try_consume`. -/
def consume (b : Bucket) (tokensNeeded : ℤ) : Bool × Bucket :=
  if b.tokensMicro < tokensNeeded * micro then (false, b)
  else (true, { b with tokensMicro := b.tokensMicro - tokensNeeded * micro })

def tryConsume (lim : TokenBucketRateLimiter) (b : Bucket) (tokensNeeded now : ℤ) :
    Bool × Bucket :=
  consume (lim.refill b now) tokensNeeded

end TokenBucketRateLimiter

open TokenBucketRateLimiter

/-- A call of `try_consume`, with the time its `refill` reads. -/
structure Request where
  tokensNeeded : ℤ
  now : ℤ
deriving DecidableEq

/-- The calls that are answered with true, in order. -/
def TokenBucketRateLimiter.admitted (lim : TokenBucketRateLimiter) :
    Bucket → List Request → List Request
  | _, [] => []
  | b, r :: rs =>
    let answer := lim.tryConsume b r.tokensNeeded r.now
    if answer.1 then r :: lim.admitted answer.2 rs else lim.admitted answer.2 rs

/-- The tokens of the calls made in a window. -/
def tokensWithin (t₁ t₂ : ℤ) (rs : List Request) : ℤ :=
  ((rs.filter fun r => t₁ ≤ r.now ∧ r.now ≤ t₂).map Request.tokensNeeded).sum

/-! ## A call that runs alone -/

variable {T : Type*}

def Shared.bucket (g : Shared T) : Bucket := ⟨g.tokensMicro, g.lastRefill⟩

/-- The point lies in a call of `try_consume`, and a pending exchange takes no more than
there is. -/
def Point.Consumes (k : ℤ) : Point → Prop
  | .idle => False
  | .readClock call => call = .tryConsume k
  | .loadLastRefill call _ => call = .tryConsume k
  | .storeLastRefill call _ _ => call = .tryConsume k
  | .loadTokensRefill call _ => call = .tryConsume k
  | .casRefill call _ _ => call = .tryConsume k
  | .loadTokens tokensNeeded => tokensNeeded = k
  | .casTokens tokensNeeded current => tokensNeeded = k ∧ k * micro ≤ current

/-- What the rest of a call of `try_consume` answers, and the bucket it leaves, when no
other thread interferes. -/
def Point.outcome (lim : TokenBucketRateLimiter) (g : Shared T) (k : ℤ) : Point → Bool × Bucket
  | .readClock _ => lim.tryConsume g.bucket k g.clock
  | .loadLastRefill _ now => lim.tryConsume g.bucket k now
  | .storeLastRefill _ now last =>
    consume ⟨min (g.tokensMicro + lim.toAdd (elapsedUs now last)) lim.capacityMicro, now⟩ k
  | .loadTokensRefill _ toAdd =>
    consume ⟨min (g.tokensMicro + toAdd) lim.capacityMicro, g.lastRefill⟩ k
  | .casRefill _ toAdd _ =>
    consume ⟨min (g.tokensMicro + toAdd) lim.capacityMicro, g.lastRefill⟩ k
  | _ => consume g.bucket k

/-- The call is still running and its outcome is fixed, or it has returned it. -/
def Reaches (lim : TokenBucketRateLimiter) (t : T) (n : ℕ) (k : ℤ) (outcome : Bool × Bucket)
    (before : List (Return T)) (l : Local) (g : Shared T) : Prop :=
  l.calls = n ∧ l.point.Consumes k ∧ g.returned = before ∧ l.point.outcome lim g k = outcome ∨
  l.point = .idle ∧ g.returned = before ++ [⟨(t, n), k, outcome.1⟩] ∧ g.bucket = outcome.2

theorem reaches_consumeHead (lim : TokenBucketRateLimiter) (t : T) (n : ℕ) (k : ℤ)
    (g : Shared T) :
    Reaches lim t n k (consume g.bucket k) g.returned (consumeHead t n k g.tokensMicro g).1
      (consumeHead t n k g.tokensMicro g).2 := by
  rw [consumeHead]
  split_ifs with hlt
  · refine .inr ⟨rfl, ?_, ?_⟩ <;> simp [consume, Shared.bucket, hlt]
  · exact .inl ⟨rfl, ⟨rfl, not_lt.mp hlt⟩, rfl, rfl⟩

theorem reaches_advance {lim : TokenBucketRateLimiter} {t : T} {n : ℕ} {k : ℤ} {p : Point}
    {b : Bool} {g g' : Shared T} {l' : Local} (hp : p.Consumes k)
    (h : advance lim t b n g p = some (l', g')) :
    Reaches lim t n k (p.outcome lim g k) g.returned l' g' := by
  -- each access either leaves the outcome as it was or is the one that returns it
  cases p with
  | idle => exact hp.elim
  | readClock call =>
    obtain ⟨rfl, rfl⟩ := Prod.mk.inj (Option.some.inj h)
    exact .inl ⟨rfl, hp, rfl, rfl⟩
  | loadLastRefill call now =>
    obtain rfl : call = .tryConsume k := hp
    simp only [advance] at h
    split_ifs at h with helapsed hadd <;> obtain ⟨rfl, rfl⟩ := Prod.mk.inj (Option.some.inj h) <;>
      refine .inl ⟨rfl, rfl, rfl, ?_⟩ <;>
      simp [tryConsume, refill, Shared.bucket, Point.outcome, Call.afterRefill, *]
  | storeLastRefill call now last =>
    obtain ⟨rfl, rfl⟩ := Prod.mk.inj (Option.some.inj h)
    exact .inl ⟨rfl, hp, rfl, rfl⟩
  | loadTokensRefill call toAdd =>
    obtain ⟨rfl, rfl⟩ := Prod.mk.inj (Option.some.inj h)
    exact .inl ⟨rfl, hp, rfl, rfl⟩
  | casRefill call toAdd current =>
    obtain rfl : call = .tryConsume k := hp
    simp only [advance] at h
    split_ifs at h with hcas <;> obtain ⟨rfl, rfl⟩ := Prod.mk.inj (Option.some.inj h)
    · obtain ⟨rfl, -⟩ := hcas
      exact .inl ⟨rfl, rfl, rfl, rfl⟩
    · exact .inl ⟨rfl, rfl, rfl, rfl⟩
  | loadTokens tokensNeeded =>
    obtain rfl : tokensNeeded = k := hp
    obtain hhead := Option.some.inj h
    have := reaches_consumeHead lim t n tokensNeeded g
    rw [hhead] at this
    exact this
  | casTokens tokensNeeded current =>
    obtain ⟨rfl, hle⟩ := hp
    simp only [advance] at h
    split_ifs at h with hcas
    -- the level is still the one that was loaded
    · obtain ⟨rfl, -⟩ := hcas
      obtain ⟨rfl, rfl⟩ := Prod.mk.inj (Option.some.inj h)
      refine .inr ⟨rfl, ?_, ?_⟩ <;>
        simp [Point.outcome, consume, Shared.bucket, not_lt.mpr hle]
    · have := reaches_consumeHead lim t n tokensNeeded g
      rw [Option.some.inj h] at this
      exact this

variable [DecidableEq T]

theorem reaches_flags {lim : TokenBucketRateLimiter} {t : T} {n : ℕ} {k : ℤ}
    {outcome : Bool × Bucket} {before : List (Return T)} {flags : List Bool}
    {e d : Config T Local (Shared T)}
    (he : Reaches lim t n k outcome before (e.locals t) e.shared)
    (hrun : exec (step lim) e (flags.map fun b => .thread t (.advance b)) = some d) :
    Reaches lim t n k outcome before (d.locals t) d.shared := by
  induction flags generalizing e with
  | nil => exact Option.some.inj hrun ▸ he
  | cons b flags ih =>
    obtain ⟨u, hu, hrest⟩ := exec_cons.mp hrun
    obtain ⟨l', g', hmove, rfl⟩ := step_thread.mp hu
    apply ih ?_ hrest
    dsimp only
    rw [Function.update_self]
    rcases he with ⟨rfl, hp, rfl, rfl⟩ | ⟨hidle, -⟩
    · exact reaches_advance hp hmove
    · -- a call that has returned makes no access
      simp only [move, hidle, advance] at hmove
      cases hmove

/-- Whatever its exchanges do, a call of `try_consume` that runs alone answers as the
sequential one does and leaves the same bucket. -/
theorem returned_of_alone {lim : TokenBucketRateLimiter} {t : T} {k : ℤ} {flags : List Bool}
    {c d : Config T Local (Shared T)}
    (hrun : exec (step lim) c (.thread t (.call (.tryConsume k)) ::
      flags.map fun b => .thread t (.advance b)) = some d)
    (hd : (d.locals t).point = .idle) :
    let answer := lim.tryConsume c.shared.bucket k c.shared.clock
    d.shared.returned =
        c.shared.returned ++ [⟨(t, (c.locals t).calls + 1), k, answer.1⟩] ∧
      d.shared.bucket = answer.2 := by
  dsimp only
  set answer := lim.tryConsume c.shared.bucket k c.shared.clock with hanswer
  obtain ⟨e, hcall, hflags⟩ := exec_cons.mp hrun
  obtain ⟨l, g, hmove, rfl⟩ := step_thread.mp hcall
  have hstart : Reaches lim t ((c.locals t).calls + 1) k answer c.shared.returned l g := by
    rcases hl : c.locals t with ⟨n, p⟩
    rw [hl] at hmove
    cases p with
    | idle =>
      obtain ⟨rfl, rfl⟩ := Prod.mk.inj (Option.some.inj hmove)
      exact .inl ⟨rfl, rfl, rfl, rfl⟩
    | _ => cases hmove
  have hend := reaches_flags (e := ⟨Function.update c.locals t l, g⟩)
    (by simpa only [Function.update_self] using hstart) hflags
  rcases hend with ⟨-, hrunning, -⟩ | ⟨-, hreturned, hbucket⟩
  · rw [hd] at hrunning
    exact hrunning.elim
  · exact ⟨hreturned, hbucket⟩

/-- Threads that use the limiter one at a time: time passes, one of them calls
`try_consume`, and the next call is made when it has returned. -/
inductive Served (lim : TokenBucketRateLimiter) :
    Config T Local (Shared T) → List Request → Config T Local (Shared T) → Prop
  | nil (c : Config T Local (Shared T)) : Served lim c [] c
  | cons {c d e : Config T Local (Shared T)} {rs : List Request} (t : T) (k : ℤ) (ns : ℕ)
      (flags : List Bool)
      (hrun : exec (step lim) c (.env ns :: .thread t (.call (.tryConsume k)) ::
        flags.map fun b => .thread t (.advance b)) = some d)
      (hidle : (d.locals t).point = .idle) (hrest : Served lim d rs e) :
      Served lim c (⟨k, c.shared.clock + ns⟩ :: rs) e

/-- Their calls that return true are those the sequential limiter admits. -/
theorem allowed_of_served {lim : TokenBucketRateLimiter} {c d : Config T Local (Shared T)}
    {rs : List Request} (h : Served lim c rs d) :
    d.shared.allowed.map Return.tokensNeeded = c.shared.allowed.map Return.tokensNeeded ++
      (lim.admitted c.shared.bucket rs).map Request.tokensNeeded := by
  induction h with
  | nil c => simp [admitted]
  | @cons c d e rs t k ns flags hrun hidle hrest ih =>
    obtain ⟨c', htick, hrun⟩ := exec_cons.mp hrun
    obtain rfl := Option.some.inj htick
    obtain ⟨hreturned, hbucket⟩ := returned_of_alone hrun hidle
    rw [ih, admitted, Shared.allowed, hreturned, hbucket]
    simp only [tick, Shared.bucket, Shared.allowed]
    split_ifs with hanswer <;> simp [hanswer]

/-! ## The level of the bucket -/

/-- The bucket holds no more than its capacity, and no less than nothing. -/
def Bucket.Within (capacity : ℤ) (b : Bucket) : Prop :=
  0 ≤ b.tokensMicro ∧ b.tokensMicro ≤ capacity * micro

variable {capacity rate : ℤ} {b : Bucket} {now : ℤ}

theorem refill_cases (capacity : ℤ) (hrate : 1 ≤ rate) (hnow : b.lastRefill ≤ now) :
    now - b.lastRefill < 1000 ∧ (new capacity rate).refill b now = b ∨
    (new capacity rate).refill b now =
      ⟨min (b.tokensMicro + rate * elapsedUs now b.lastRefill) (capacity * micro), now⟩ := by
  have helapsed := elapsedUs_of_le hnow
  rw [refill]
  split_ifs with hzero hadd
  · exact .inl ⟨by omega, rfl⟩
  · rw [toAdd_new] at hadd
    have hpos : 0 < rate * elapsedUs now b.lastRefill := mul_pos (by omega) (by omega)
    omega
  · rw [toAdd_new]
    exact .inr rfl

theorem lastRefill_refill_le (capacity : ℤ) (hrate : 1 ≤ rate) (hnow : b.lastRefill ≤ now) :
    ((new capacity rate).refill b now).lastRefill ≤ now ∧
      now - ((new capacity rate).refill b now).lastRefill < 1000 := by
  rcases refill_cases capacity hrate hnow with ⟨hlt, heq⟩ | heq
  · rw [heq]
    exact ⟨hnow, hlt⟩
  · rw [heq]
    dsimp only
    omega

theorem Bucket.Within.refill (hb : b.Within capacity) (hrate : 1 ≤ rate)
    (hnow : b.lastRefill ≤ now) : ((new capacity rate).refill b now).Within capacity := by
  have hadd : 0 ≤ rate * elapsedUs now b.lastRefill :=
    mul_nonneg (by omega) (elapsedUs_nonneg hnow)
  obtain ⟨hlow, hhigh⟩ := hb
  rcases refill_cases capacity hrate hnow with ⟨-, heq⟩ | heq
  · rw [heq]
    exact ⟨hlow, hhigh⟩
  · rw [heq]
    exact ⟨le_min (by omega) (by omega), min_le_right _ _⟩

theorem Bucket.Within.consume {k : ℤ} (hb : b.Within capacity) (hk : 0 ≤ k) :
    (consume b k).2.Within capacity := by
  have hmicro : 0 ≤ k * micro := mul_nonneg hk (by decide)
  obtain ⟨hlow, hhigh⟩ := hb
  rw [TokenBucketRateLimiter.consume]
  split_ifs with hlt
  · exact ⟨hlow, hhigh⟩
  · exact ⟨by dsimp only; omega, by dsimp only; omega⟩

theorem lastRefill_consume (b : Bucket) (k : ℤ) : (consume b k).2.lastRefill = b.lastRefill := by
  rw [consume]
  split_ifs <;> rfl

/-- A second refill at the same time does nothing. -/
theorem tryConsume_refill (hrate : 1 ≤ rate) (hnow : b.lastRefill ≤ now) (k : ℤ) :
    (new capacity rate).tryConsume ((new capacity rate).refill b now) k now =
      (new capacity rate).tryConsume b k now := by
  obtain ⟨hle, hlt⟩ := lastRefill_refill_le capacity hrate hnow
  have hzero : elapsedUs now ((new capacity rate).refill b now).lastRefill ≤ 0 := by
    rw [elapsedUs_of_le hle]
    omega
  have hagain : (new capacity rate).refill ((new capacity rate).refill b now) now =
      (new capacity rate).refill b now := if_pos hzero
  rw [tryConsume, tryConsume, hagain]

/-! ## Windows -/

/-- The calls still to come: none is earlier than the last refill or asks for less than
nothing, and their times do not decrease. -/
structure Orderly (b : Bucket) (rs : List Request) : Prop where
  later : ∀ r ∈ rs, b.lastRefill ≤ r.now
  sorted : rs.Pairwise fun r s => r.now ≤ s.now
  nonneg : ∀ r ∈ rs, 0 ≤ r.tokensNeeded

section Windows
variable {r : Request} {rs : List Request} {t₁ t₂ : ℤ}

theorem Orderly.tail (h : Orderly b (r :: rs)) (hrate : 1 ≤ rate) :
    Orderly ((new capacity rate).tryConsume b r.tokensNeeded r.now).2 rs := by
  obtain ⟨hfirst, hrest⟩ := List.pairwise_cons.mp h.sorted
  refine ⟨fun s hs => ?_, hrest, fun s hs => h.nonneg s (List.mem_cons_of_mem r hs)⟩
  rw [tryConsume, lastRefill_consume]
  exact (lastRefill_refill_le capacity hrate (h.later r List.mem_cons_self)).1.trans (hfirst s hs)

theorem Bucket.Within.tryConsume (hb : b.Within capacity) (hrate : 1 ≤ rate)
    (h : Orderly b (r :: rs)) :
    ((new capacity rate).tryConsume b r.tokensNeeded r.now).2.Within capacity :=
  (hb.refill hrate (h.later r List.mem_cons_self)).consume (h.nonneg r List.mem_cons_self)

theorem mem_of_mem_admitted {lim : TokenBucketRateLimiter} {s : Request}
    (h : s ∈ lim.admitted b rs) : s ∈ rs := by
  induction rs generalizing b with
  | nil => exact h
  | cons r rs ih =>
    rw [admitted] at h
    split_ifs at h
    · rcases List.mem_cons.mp h with rfl | h
      · exact List.mem_cons_self
      · exact List.mem_cons_of_mem r (ih h)
    · exact List.mem_cons_of_mem r (ih h)

theorem tokensWithin_cons (t₁ t₂ : ℤ) (r : Request) (rs : List Request) :
    tokensWithin t₁ t₂ (r :: rs) =
      (if t₁ ≤ r.now ∧ r.now ≤ t₂ then r.tokensNeeded else 0) + tokensWithin t₁ t₂ rs := by
  rw [tokensWithin, List.filter_cons]
  split_ifs <;> simp_all [tokensWithin]

theorem tokensWithin_admitted_of_late {lim : TokenBucketRateLimiter} (h : Orderly b (r :: rs))
    (hlate : t₂ < r.now) : tokensWithin t₁ t₂ (lim.admitted b (r :: rs)) = 0 := by
  have hnone : (lim.admitted b (r :: rs)).filter (fun s => t₁ ≤ s.now ∧ s.now ≤ t₂) = [] := by
    rw [List.filter_eq_nil_iff]
    intro s hs
    have hle : r.now ≤ s.now := by
      rcases List.mem_cons.mp (mem_of_mem_admitted hs) with rfl | hs
      · exact le_rfl
      · exact (List.pairwise_cons.mp h.sorted).1 s hs
    simp only [decide_eq_true_eq]
    omega
  rw [tokensWithin, hnone]
  rfl

/-- What a call takes comes from the level and from the time up to `t₂`. -/
theorem tryConsume_spends (capacity k : ℤ) (hrate : 1 ≤ rate) (hnow : b.lastRefill ≤ now)
    (ht : now ≤ t₂) :
    let answer := (new capacity rate).tryConsume b k now
    (if answer.1 then k * micro else 0) + answer.2.tokensMicro +
        rate * elapsedUs t₂ answer.2.lastRefill ≤
      b.tokensMicro + rate * elapsedUs t₂ b.lastRefill := by
  have hrefill : ((new capacity rate).refill b now).tokensMicro +
      rate * elapsedUs t₂ ((new capacity rate).refill b now).lastRefill ≤
      b.tokensMicro + rate * elapsedUs t₂ b.lastRefill := by
    rcases refill_cases capacity hrate hnow with ⟨-, heq⟩ | heq
    · rw [heq]
    · rw [heq]
      have hsum := mul_le_mul_of_nonneg_left (elapsedUs_add_le hnow ht) (by omega : 0 ≤ rate)
      have hmin := min_le_left (b.tokensMicro + rate * elapsedUs now b.lastRefill)
        (capacity * micro)
      dsimp only
      linarith
  rw [tryConsume, consume]
  split_ifs with hlt
  · simpa using hrefill
  · simp only [if_true]
    linarith

/-- From any bucket on: the level and the time up to the end of the window pay for what is
admitted in it. -/
theorem tokensWithin_admitted_le (t₁ : ℤ) (hrate : 1 ≤ rate) (hb : b.Within capacity)
    (hlast : b.lastRefill ≤ t₂) (h : Orderly b rs) :
    tokensWithin t₁ t₂ ((new capacity rate).admitted b rs) * micro ≤
      b.tokensMicro + rate * elapsedUs t₂ b.lastRefill := by
  have hpotential : 0 ≤ b.tokensMicro + rate * elapsedUs t₂ b.lastRefill :=
    add_nonneg hb.1 (mul_nonneg (by omega) (elapsedUs_nonneg hlast))
  induction rs generalizing b with
  | nil => simpa [admitted, tokensWithin] using hpotential
  | cons r rs ih =>
    by_cases hlate : t₂ < r.now
    · rw [tokensWithin_admitted_of_late h hlate, zero_mul]
      exact hpotential
    have hnow := h.later r List.mem_cons_self
    have hspend := tryConsume_spends capacity r.tokensNeeded hrate hnow (not_lt.mp hlate)
    have hb' := hb.tryConsume hrate h
    have hlast' : ((new capacity rate).tryConsume b r.tokensNeeded r.now).2.lastRefill ≤ t₂ := by
      rw [tryConsume, lastRefill_consume]
      exact (lastRefill_refill_le capacity hrate hnow).1.trans (not_lt.mp hlate)
    have hrest := ih hb' hlast' (h.tail hrate)
      (add_nonneg hb'.1 (mul_nonneg (by omega) (elapsedUs_nonneg hlast')))
    have hk : 0 ≤ r.tokensNeeded * micro :=
      mul_nonneg (h.nonneg r List.mem_cons_self) (by decide)
    rw [admitted]
    dsimp only at hspend ⊢
    by_cases hanswer : ((new capacity rate).tryConsume b r.tokensNeeded r.now).1 = true
    · rw [if_pos hanswer] at hspend ⊢
      rw [tokensWithin_cons, add_mul]
      split_ifs
      · linarith
      · linarith
    · rw [if_neg hanswer] at hspend ⊢
      linarith

/-- The first call in a window refills the bucket to at most its capacity, and leaves less
than a microsecond of earlier time uncounted. -/
theorem tokensWithin_admitted_window (hrate : 1 ≤ rate) (hcap : 0 ≤ capacity) (ht : t₁ ≤ t₂)
    (hb : b.Within capacity) (h : Orderly b rs) :
    tokensWithin t₁ t₂ ((new capacity rate).admitted b rs) * micro ≤
      capacity * micro + rate * ((t₂ - t₁ + 999) / 1000) := by
  have hbound : 0 ≤ capacity * micro + rate * ((t₂ - t₁ + 999) / 1000) :=
    add_nonneg (mul_nonneg hcap (by decide)) (mul_nonneg (by omega) (by omega))
  induction rs generalizing b with
  | nil => simpa [admitted, tokensWithin] using hbound
  | cons r rs ih =>
    have hnow := h.later r List.mem_cons_self
    by_cases hlate : t₂ < r.now
    · rw [tokensWithin_admitted_of_late h hlate, zero_mul]
      exact hbound
    by_cases hearly : r.now < t₁
    · -- a call before the window
      have hrest := ih (hb.tryConsume hrate h) (h.tail hrate)
      rw [admitted]
      split_ifs
      · rw [tokensWithin_cons, if_neg (by omega), zero_add]
        exact hrest
      · exact hrest
    -- the first call in the window: it might as well find the bucket refilled
    obtain ⟨hle, hlt⟩ := lastRefill_refill_le capacity hrate hnow
    have hagain : (new capacity rate).admitted b (r :: rs) =
        (new capacity rate).admitted ((new capacity rate).refill b r.now) (r :: rs) := by
      rw [admitted, admitted, tryConsume_refill hrate hnow]
    have hrefilled := hb.refill hrate hnow
    have horderly : Orderly ((new capacity rate).refill b r.now) (r :: rs) := by
      refine ⟨fun s hs => hle.trans ?_, h.sorted, h.nonneg⟩
      rcases List.mem_cons.mp hs with rfl | hs
      · exact le_rfl
      · exact (List.pairwise_cons.mp h.sorted).1 s hs
    have hlast := hle.trans (not_lt.mp hlate)
    have hadmitted := tokensWithin_admitted_le t₁ hrate hrefilled hlast horderly
    have htime : rate * elapsedUs t₂ ((new capacity rate).refill b r.now).lastRefill ≤
        rate * ((t₂ - t₁ + 999) / 1000) := by
      apply mul_le_mul_of_nonneg_left _ (by omega : 0 ≤ rate)
      rw [elapsedUs_of_le hlast]
      omega
    rw [hagain]
    have hfull := hrefilled.2
    linarith

/-- On every window of every run the tokens admitted are at most the capacity plus the rate
times the window, rounded up to microseconds. -/
theorem admitted_in_window_le (capacity rate start t₁ t₂ : ℤ) (rs : List Request)
    (hcap : 1 ≤ capacity) (hrate : 1 ≤ rate) (hstart : ∀ r ∈ rs, start ≤ r.now)
    (hsorted : rs.Pairwise fun r s => r.now ≤ s.now) (hk : ∀ r ∈ rs, 0 ≤ r.tokensNeeded)
    (ht : t₁ ≤ t₂) :
    let lim := TokenBucketRateLimiter.new capacity rate
    tokensWithin t₁ t₂ (lim.admitted (lim.bucket start) rs) * 1000000 ≤
      capacity * 1000000 + rate * ((t₂ - t₁ + 999) / 1000) := by
  apply tokensWithin_admitted_window hrate (by omega) ht
  · exact ⟨mul_nonneg (by omega) (by decide), le_rfl⟩
  · exact ⟨hstart, hsorted, hk⟩

/-- A bucket of two tokens, emptied, refilled for half a second and asked again: the third
call is inside the bound, the fourth is refused. -/
theorem admitted_in_window_le_halfSecond :
    let lim := TokenBucketRateLimiter.new 2 2
    let rs : List Request := [⟨1, 10⟩, ⟨1, 20⟩, ⟨1, 500001020⟩, ⟨1, 500001021⟩]
    tokensWithin 15 500001021 (lim.admitted (lim.bucket 0) rs) = 2 ∧
      tokensWithin 15 500001021 (lim.admitted (lim.bucket 0) rs) * 1000000 ≤
        2 * 1000000 + 2 * ((500001021 - 15 + 999) / 1000) := by
  refine ⟨by decide +kernel, admitted_in_window_le 2 2 0 15 500001021 _ ?_ ?_ ?_ ?_ ?_ ?_⟩
  all_goals decide

end Windows

end Gateway.RateLimit
