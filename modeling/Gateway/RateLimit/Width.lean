import Gateway.Config.ConfigParser
import Gateway.RateLimit.Window

/-!
# The refill in 64-bit arithmetic

The scaling of the constructor and the product and the sum of `refill` are computed in
`int64_t`, where an overflow is undefined. The rate is scaled before it is multiplied by the
elapsed time, so a long idle time overflows at any rate.
-/

namespace Gateway.RateLimit
open TokenBucketRateLimiter Config

/-- A result of signed 64-bit arithmetic; `none` when it overflows. -/
def int64 (n : ℤ) : Option ℤ := if -2 ^ 63 ≤ n ∧ n < 2 ^ 63 then some n else none

namespace TokenBucketRateLimiter

def newInt64 (capacityTokens refillRatePerS : ℤ) : Option TokenBucketRateLimiter := do
  let capacityMicro ← int64 (capacityTokens * micro)
  let refillRatePerSMicro ← int64 (refillRatePerS * micro)
  some ⟨capacityMicro, refillRatePerSMicro⟩

def refillInt64 (lim : TokenBucketRateLimiter) (b : Bucket) (now : ℤ) : Option Bucket :=
  let elapsed := elapsedUs now b.lastRefill
  if elapsed ≤ 0 then some b
  else do
    let product ← int64 (lim.refillRatePerSMicro * elapsed)
    let toAdd := product.tdiv 1000000
    if toAdd ≤ 0 then some b
    else
      let sum ← int64 (b.tokensMicro + toAdd)
      some ⟨min sum lim.capacityMicro, now⟩

end TokenBucketRateLimiter

/-- Neither the construction of a limiter nor a refill of it overflows, and the refill
leaves the level that unbounded integers give. -/
def RefillsExactly (capacity rate : ℤ) (b : Bucket) (now : ℤ) : Prop :=
  ∃ lim b', newInt64 capacity rate = some lim ∧ lim.refillInt64 b now = some b' ∧
    b'.tokensMicro =
      min (capacity * micro) (b.tokensMicro + rate * elapsedUs now b.lastRefill)

theorem int64_of_nonneg {n : ℤ} (h : 0 ≤ n) : int64 n = if n < 2 ^ 63 then some n else none := by
  have hlow : -2 ^ 63 ≤ n := by omega
  simp only [int64, hlow, true_and]

/-- What may be scaled by `MICRO`. -/
theorem scaled_lt_iff (n : ℤ) : n * micro < 2 ^ 63 ↔ n ≤ 9223372036854 := by
  unfold micro
  omega

theorem newInt64_of_nonneg {capacity rate : ℤ} (hcap : 0 ≤ capacity) (hrate : 0 ≤ rate) :
    newInt64 capacity rate =
      if capacity * micro < 2 ^ 63 ∧ rate * micro < 2 ^ 63 then some (new capacity rate)
      else none := by
  rw [newInt64, int64_of_nonneg (mul_nonneg hcap (by decide)),
    int64_of_nonneg (mul_nonneg hrate (by decide))]
  by_cases hc : capacity * micro < 2 ^ 63
  · rw [if_pos hc]
    by_cases hr : rate * micro < 2 ^ 63
    · rw [if_pos hr, if_pos ⟨hc, hr⟩]
      rfl
    · rw [if_neg hr, if_neg (fun h => hr h.2)]
      rfl
  · rw [if_neg hc, Option.bind_eq_bind, Option.bind_none, if_neg (fun h => hc h.1)]

/-- A refill after a positive time, at a positive rate. -/
theorem refillInt64_of_pos (capacity : ℤ) {rate now : ℤ} {b : Bucket} (hrate : 1 ≤ rate)
    (hlevel : 0 ≤ b.tokensMicro) (helapsed : 0 < elapsedUs now b.lastRefill) :
    (new capacity rate).refillInt64 b now =
      if rate * elapsedUs now b.lastRefill * micro < 2 ^ 63 ∧
          b.tokensMicro + rate * elapsedUs now b.lastRefill < 2 ^ 63 then
        some ⟨min (b.tokensMicro + rate * elapsedUs now b.lastRefill) (capacity * micro), now⟩
      else none := by
  have hpos : 0 < rate * elapsedUs now b.lastRefill := mul_pos (by omega) helapsed
  have hproduct : (new capacity rate).refillRatePerSMicro * elapsedUs now b.lastRefill =
      rate * elapsedUs now b.lastRefill * micro := mul_right_comm _ _ _
  have hdiv : (rate * elapsedUs now b.lastRefill * micro).tdiv 1000000 =
      rate * elapsedUs now b.lastRefill := Int.mul_tdiv_cancel _ (by decide)
  rw [refillInt64, if_neg (by omega), hproduct,
    int64_of_nonneg (mul_nonneg (by omega) (by decide))]
  by_cases hfit : rate * elapsedUs now b.lastRefill * micro < 2 ^ 63
  · rw [if_pos hfit, Option.bind_eq_bind, Option.bind_some, hdiv, if_neg (by omega),
      int64_of_nonneg (by omega)]
    by_cases hsum : b.tokensMicro + rate * elapsedUs now b.lastRefill < 2 ^ 63
    · rw [if_pos hsum, if_pos ⟨hfit, hsum⟩]
      rfl
    · rw [if_neg hsum, if_neg (fun h => hsum h.2)]
      rfl
  · rw [if_neg hfit, if_neg (fun h => hfit h.1)]
    rfl

theorem refillsExactly_iff_new {capacity rate now : ℤ} {b : Bucket} (hcap : 0 ≤ capacity)
    (hrate : 0 ≤ rate) :
    RefillsExactly capacity rate b now ↔
      (capacity * micro < 2 ^ 63 ∧ rate * micro < 2 ^ 63) ∧
      ∃ b', (new capacity rate).refillInt64 b now = some b' ∧
        b'.tokensMicro =
          min (capacity * micro) (b.tokensMicro + rate * elapsedUs now b.lastRefill) := by
  rw [RefillsExactly, newInt64_of_nonneg hcap hrate]
  constructor
  · rintro ⟨lim, b', hlim, hrefill, htokens⟩
    obtain ⟨hfit, hlim⟩ := Option.ite_none_right_eq_some.mp hlim
    obtain rfl := Option.some.inj hlim
    exact ⟨hfit, b', hrefill, htokens⟩
  · rintro ⟨hfit, b', hrefill, htokens⟩
    exact ⟨_, b', if_pos hfit, hrefill, htokens⟩

/-- What a validated configuration gives the limiter. -/
theorem pos_of_validate {p : ConfigParser} (h : p.validate = true) :
    1 ≤ p.config.rateLimitCapacity ∧ 1 ≤ p.config.rateLimitRefillRate := by
  rw [ConfigParser.validate] at h
  split_ifs at h with hport hthreads hrate
  simp only [Bool.or_eq_true, decide_eq_true_eq, not_or, not_le] at hrate
  omega

/-- A limiter with a validated configuration is refilled as over unbounded integers exactly
when the capacity, the rate and the tokens of the elapsed time are each at most
9223372036854, and the level stays below 2^63 before it is cut to the capacity. -/
theorem refillsExactly_iff (p : ConfigParser) (hvalid : p.validate = true) (b : Bucket) (now : ℤ)
    (hlow : 0 ≤ b.tokensMicro) (hhigh : b.tokensMicro ≤ p.config.rateLimitCapacity * micro)
    (hnow : b.lastRefill ≤ now) :
    RefillsExactly p.config.rateLimitCapacity p.config.rateLimitRefillRate b now ↔
      p.config.rateLimitCapacity ≤ 9223372036854 ∧
      p.config.rateLimitRefillRate ≤ 9223372036854 ∧
      p.config.rateLimitRefillRate * elapsedUs now b.lastRefill ≤ 9223372036854 ∧
      b.tokensMicro + p.config.rateLimitRefillRate * elapsedUs now b.lastRefill < 2 ^ 63 := by
  obtain ⟨hcap, hrate⟩ := pos_of_validate hvalid
  generalize p.config.rateLimitCapacity = capacity at *
  generalize p.config.rateLimitRefillRate = rate at *
  rw [refillsExactly_iff_new (by omega) (by omega), scaled_lt_iff, scaled_lt_iff]
  rcases (elapsedUs_nonneg hnow).eq_or_lt with hzero | hpos
  · -- no time to count: the bucket is left alone
    have hrefill : (new capacity rate).refillInt64 b now = some b := if_pos hzero.ge
    have hlevel : b.tokensMicro = min (capacity * micro) b.tokensMicro := (min_eq_right hhigh).symm
    rw [hrefill, ← hzero, mul_zero, add_zero]
    constructor
    · rintro ⟨hfit, -⟩
      have := (scaled_lt_iff capacity).mpr hfit.1
      omega
    · intro hfit
      exact ⟨by omega, b, rfl, hlevel⟩
  · have hle : rate ≤ rate * elapsedUs now b.lastRefill := le_mul_of_one_le_right (by omega) hpos
    rw [refillInt64_of_pos capacity hrate hlow hpos]
    generalize rate * elapsedUs now b.lastRefill = added at *
    have hscaled := scaled_lt_iff added
    constructor
    · rintro ⟨hfit, b', hb', -⟩
      have hsum := (Option.ite_none_right_eq_some.mp hb').1
      omega
    · rintro ⟨hcap', hrate', hadded, hsum⟩
      exact ⟨⟨hcap', hrate'⟩, _, if_pos ⟨hscaled.mpr hadded, hsum⟩, min_comm _ _⟩

/-- The default configuration after one day without a call. -/
theorem refillsExactly_oneDay :
    RefillsExactly 100 50 ⟨0, 0⟩ 86400000000000 :=
  (refillsExactly_iff {} rfl ⟨0, 0⟩ 86400000000000 (by decide) (by decide) (by decide)).mpr
    (by decide)

/-- The default configuration after three days without a call. -/
theorem threeDays_overflow :
    ({} : ConfigParser).validate = true ∧ 259200000000000 ≤ 365 * 86400000000000 ∧
      ¬ RefillsExactly 100 50 ⟨0, 0⟩ 259200000000000 := by
  refine ⟨rfl, by decide, fun h => ?_⟩
  obtain ⟨-, b', hb', -⟩ := (refillsExactly_iff_new (by decide) (by decide)).mp h
  have hnone : (new 100 50).refillInt64 ⟨0, 0⟩ 259200000000000 = none := rfl
  rw [hnone] at hb'
  cases hb'

end Gateway.RateLimit
