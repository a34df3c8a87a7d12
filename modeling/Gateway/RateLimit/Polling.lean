import Gateway.RateLimit.Window

/-!
# What frequent refills lose

`refill` counts whole microseconds and then stores the time it read, so the rest of a
microsecond is dropped whenever tokens are added. A bucket refilled at several times is
as full as one refilled at the last of them unless what was dropped adds up to a
microsecond.
-/

namespace Gateway.RateLimit
open TokenBucketRateLimiter

/-- Calls of `refill` at the given times. -/
def TokenBucketRateLimiter.refills (lim : TokenBucketRateLimiter) (b : Bucket) (times : List ℤ) :
    Bucket :=
  times.foldl lim.refill b

/-- The whole microseconds from each call to the next, where a call within a microsecond of
the one before is passed over. -/
def countedUs (last : ℤ) : List ℤ → ℤ
  | [] => 0
  | t :: times =>
    if t - last < 1000 then countedUs last times else (t - last) / 1000 + countedUs t times

variable {capacity rate last t : ℤ} {b : Bucket} {times : List ℤ}

theorem countedUs_nonneg (last : ℤ) (times : List ℤ) : 0 ≤ countedUs last times := by
  induction times generalizing last with
  | nil => exact le_refl 0
  | cons t times ih =>
    rw [countedUs]
    split_ifs with ht
    · exact ih last
    · have := ih t
      omega

/-- The counted microseconds lie between the first and the last call. -/
theorem countedUs_le (h : (last :: (times ++ [t])).Pairwise (· ≤ ·)) :
    1000 * countedUs last (times ++ [t]) ≤ t - last := by
  induction times generalizing last with
  | nil =>
    have hle : last ≤ t := by simpa using h
    simp only [List.nil_append, countedUs]
    split_ifs <;> omega
  | cons s times ih =>
    obtain ⟨hlast, hrest⟩ := List.pairwise_cons.mp h
    have hskip : (last :: (times ++ [t])).Pairwise (· ≤ ·) :=
      List.pairwise_cons.mpr ⟨fun u hu => hlast u (List.mem_cons_of_mem s hu),
        (List.pairwise_cons.mp hrest).2⟩
    rw [List.cons_append, countedUs]
    split_ifs with hs
    · exact ih hskip
    · have := ih hrest
      omega

/-- Nothing is counted only when less than a microsecond has passed. -/
theorem lt_of_countedUs_eq_zero (hzero : countedUs last (times ++ [t]) = 0) : t - last < 1000 := by
  induction times generalizing last with
  | nil =>
    simp only [List.nil_append, countedUs] at hzero
    split_ifs at hzero with ht <;> omega
  | cons s times ih =>
    rw [List.cons_append, countedUs] at hzero
    split_ifs at hzero with hs
    · exact ih hzero
    · have := countedUs_nonneg s (times ++ [t])
      omega

/-! ## The level after several refills -/

theorem refill_of_nonpos (hrate : rate ≤ 0) (b : Bucket) (now : ℤ) :
    (new capacity rate).refill b now = b := by
  rw [refill]
  split_ifs with hzero hadd
  · rfl
  · rfl
  · rw [toAdd_new] at hadd
    have := mul_nonpos_of_nonpos_of_nonneg hrate (by omega : 0 ≤ elapsedUs now b.lastRefill)
    omega

theorem refills_of_nonpos (hrate : rate ≤ 0) (b : Bucket) (times : List ℤ) :
    (new capacity rate).refills b times = b := by
  induction times with
  | nil => rfl
  | cons t times ih =>
    rw [refills, List.foldl_cons, refill_of_nonpos hrate]
    exact ih

theorem refill_of_lt {now : ℤ} (hle : b.lastRefill ≤ now) (hlt : now - b.lastRefill < 1000) :
    (new capacity rate).refill b now = b := by
  have helapsed := elapsedUs_of_le hle
  rw [refill]
  exact if_pos (by omega)

theorem refill_of_le (hrate : 1 ≤ rate) {now : ℤ} (hle : 1000 ≤ now - b.lastRefill) :
    (new capacity rate).refill b now =
      ⟨min (b.tokensMicro + rate * ((now - b.lastRefill) / 1000)) (capacity * micro), now⟩ := by
  have helapsed := elapsedUs_of_le (by omega : b.lastRefill ≤ now)
  have hpos : 0 < rate * ((now - b.lastRefill) / 1000) := mul_pos (by omega) (by omega)
  rw [refill, toAdd_new, helapsed, if_neg (by omega), if_neg (by omega)]
  rfl

/-- The refills add the rate for every counted microsecond, up to the capacity. -/
theorem refills_tokensMicro (hrate : 1 ≤ rate)
    (h : (b.lastRefill :: times).Pairwise (· ≤ ·)) :
    ((new capacity rate).refills b times).tokensMicro =
      if countedUs b.lastRefill times = 0 then b.tokensMicro
      else min (b.tokensMicro + rate * countedUs b.lastRefill times) (capacity * micro) := by
  induction times generalizing b with
  | nil => rfl
  | cons t times ih =>
    obtain ⟨hlast, hrest⟩ := List.pairwise_cons.mp h
    have hle : b.lastRefill ≤ t := hlast t List.mem_cons_self
    rw [refills, List.foldl_cons, countedUs]
    by_cases ht : t - b.lastRefill < 1000
    · have hskip : (b.lastRefill :: times).Pairwise (· ≤ ·) :=
        List.pairwise_cons.mpr ⟨fun u hu => hlast u (List.mem_cons_of_mem t hu),
          (List.pairwise_cons.mp hrest).2⟩
      rw [if_pos ht, refill_of_lt hle ht]
      exact ih hskip
    · have hcounted := countedUs_nonneg t times
      have hadd : 0 ≤ rate * countedUs t times := mul_nonneg (by omega) hcounted
      rw [if_neg ht, refill_of_le hrate (by omega)]
      refine (ih (b := ⟨_, t⟩) hrest).trans ?_
      dsimp only
      rw [mul_add, if_neg (by omega : ¬(t - b.lastRefill) / 1000 + countedUs t times = 0)]
      split_ifs with hzero
      · rw [hzero, mul_zero, add_zero]
      · omega

/-- Refilling at several times leaves the level that refilling at the last of them leaves,
exactly when no tokens come in, the counted microseconds fill the bucket, or less than a
microsecond was dropped. -/
theorem refills_eq_refill_iff (capacity rate : ℤ) (b : Bucket) (times : List ℤ) (t : ℤ)
    (h : (b.lastRefill :: (times ++ [t])).Pairwise (· ≤ ·)) :
    ((new capacity rate).refills b (times ++ [t])).tokensMicro =
        ((new capacity rate).refill b t).tokensMicro ↔
      rate ≤ 0 ∨
      capacity * micro ≤ b.tokensMicro + rate * countedUs b.lastRefill (times ++ [t]) ∨
      t - b.lastRefill < 1000 * (countedUs b.lastRefill (times ++ [t]) + 1) := by
  by_cases hrate : rate ≤ 0
  · rw [refills_of_nonpos hrate, refill_of_nonpos hrate]
    exact iff_of_true rfl (.inl hrate)
  have hle : b.lastRefill ≤ t := (List.pairwise_cons.mp h).1 t (by simp)
  have hcounted := countedUs_le h
  rw [refills_tokensMicro (by omega) h]
  by_cases hzero : countedUs b.lastRefill (times ++ [t]) = 0
  · have hlt := lt_of_countedUs_eq_zero hzero
    rw [if_pos hzero, refill_of_lt hle hlt]
    exact iff_of_true rfl (.inr (.inr (by omega)))
  · have hpos := countedUs_nonneg b.lastRefill (times ++ [t])
    have hthousand : 1000 ≤ t - b.lastRefill := by omega
    rw [if_neg hzero, refill_of_le (by omega) hthousand]
    dsimp only
    generalize countedUs b.lastRefill (times ++ [t]) = counted at *
    rcases (by omega : counted ≤ (t - b.lastRefill) / 1000).eq_or_lt with heq | hlt
    · rw [← heq]
      exact iff_of_true rfl (.inr (.inr (by omega)))
    · -- a microsecond was dropped: only a full bucket hides it
      have hmul : rate * counted < rate * ((t - b.lastRefill) / 1000) :=
        mul_lt_mul_of_pos_left hlt (by omega)
      omega

/-- Calls a whole number of microseconds apart drop nothing. -/
theorem refills_eq_refill_wholeMicroseconds :
    ((new 10 10).refills ⟨0, 0⟩ [2000, 5000]).tokensMicro =
      ((new 10 10).refill ⟨0, 0⟩ 5000).tokensMicro :=
  (refills_eq_refill_iff 10 10 ⟨0, 0⟩ [2000] 5000 (by decide)).mpr (by decide)

/-- Two calls 1.5 microseconds apart are worth two microseconds, one call after the same
time three. -/
theorem polling_costs_tokens :
    ([0, 1500, 3000] : List ℤ).Pairwise (· ≤ ·) ∧
    ((new 10 10).refills ⟨0, 0⟩ [1500, 3000]).tokensMicro = 20 ∧
    ((new 10 10).refill ⟨0, 0⟩ 3000).tokensMicro = 30 := by
  decide

end Gateway.RateLimit
