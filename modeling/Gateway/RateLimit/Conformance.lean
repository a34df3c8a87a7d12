import Gateway.Lib.Reservoir
import Gateway.RateLimit.Polling
import Mathlib.Algebra.BigOperators.Ring.List

/-!
# Which series of calls are allowed in full

The bound on the windows says what a limiter does not allow. Here is what it does allow: calls made
one at a time all return true just when no stretch of them asks for more than the capacity and the
rate over the microseconds that the limiter counts inside the stretch.
-/

namespace Gateway.RateLimit
open Steps Threads TokenBucketRateLimiter Reservoir

/-- The calls as turns of a reservoir of micro-tokens. A call within a microsecond of the last
refill adds nothing, and leaves its time to the next one. -/
def turns (rate last : ℤ) : List Request → List (Turn ℤ)
  | [] => []
  | r :: rs =>
    if r.now - last < 1000 then ⟨0, r.tokensNeeded * micro⟩ :: turns rate last rs
    else ⟨rate * ((r.now - last) / 1000), r.tokensNeeded * micro⟩ :: turns rate r.now rs

section Turns
variable (rate last : ℤ) (rs : List Request)

theorem map_demand_turns :
    (turns rate last rs).map Turn.demand = rs.map fun r => r.tokensNeeded * micro := by
  induction rs generalizing last with
  | nil => rfl
  | cons r rs ih =>
    rw [turns]
    split_ifs <;> simp [ih]

theorem length_turns : (turns rate last rs).length = rs.length := by
  have hlength := congrArg List.length (map_demand_turns rate last rs)
  simpa using hlength

theorem take_turns (n : ℕ) : (turns rate last rs).take n = turns rate last (rs.take n) := by
  induction rs generalizing last n with
  | nil => simp [turns]
  | cons r rs ih =>
    cases n with
    | zero => simp [turns]
    | succ n =>
      rw [List.take_succ_cons, turns, turns]
      split_ifs <;> simp [ih]

/-- What flows in is the rate for every counted microsecond. -/
theorem inflow_turns :
    inflow (turns rate last rs) = rate * countedUs last (rs.map Request.now) := by
  induction rs generalizing last with
  | nil => simp [turns, countedUs]
  | cons r rs ih =>
    rw [turns, List.map_cons, countedUs]
    split_ifs
    · rw [inflow_cons, ih, zero_add]
    · rw [inflow_cons, ih, mul_add]

theorem demand_drop_take_turns (m n : ℕ) :
    demand (((turns rate last rs).take n).drop m) =
      (((rs.take n).drop m).map Request.tokensNeeded).sum * micro := by
  rw [demand, List.map_drop, List.map_take, map_demand_turns, ← List.map_take, ← List.map_drop,
    List.sum_map_mul_right]

end Turns

theorem inflow_nonneg {rate : ℤ} (hrate : 1 ≤ rate) {last : ℤ} {rs : List Request} :
    ∀ t ∈ turns rate last rs, 0 ≤ t.inflow := by
  induction rs generalizing last with
  | nil => simp [turns]
  | cons r rs ih =>
    rw [turns]
    split_ifs with hlt
    · simpa using ih
    · have hus : 0 ≤ rate * ((r.now - last) / 1000) := mul_nonneg (by omega) (by omega)
      simpa [hus] using ih

/-! ## One call after another -/

section Calls
variable {capacity rate : ℤ} {b : Bucket} {r : Request} {rs : List Request}

theorem admitted_sublist (lim : TokenBucketRateLimiter) (b : Bucket) (rs : List Request) :
    (lim.admitted b rs).Sublist rs := by
  induction rs generalizing b with
  | nil => exact List.Sublist.refl []
  | cons r rs ih =>
    rw [admitted]
    split_ifs
    · exact (ih _).cons_cons r
    · exact (ih _).cons r

/-- A series is allowed in full when its first call is and the others are. -/
theorem admitted_cons_eq_iff {lim : TokenBucketRateLimiter} :
    lim.admitted b (r :: rs) = r :: rs ↔
      (lim.tryConsume b r.tokensNeeded r.now).1 = true ∧
        lim.admitted (lim.tryConsume b r.tokensNeeded r.now).2 rs = rs := by
  rw [admitted]
  split_ifs with hanswer
  · simp [hanswer]
  · have hne : lim.admitted (lim.tryConsume b r.tokensNeeded r.now).2 rs ≠ r :: rs := by
      intro heq
      have hlength := (admitted_sublist lim (lim.tryConsume b r.tokensNeeded r.now).2 rs).length_le
      rw [heq, List.length_cons] at hlength
      omega
    simp [hanswer, hne]

/-- The refill of a call is the inflow of its turn. -/
theorem turns_cons (hrate : 1 ≤ rate) (hb : b.tokensMicro ≤ capacity * micro)
    (hnow : b.lastRefill ≤ r.now) (rs : List Request) :
    ∃ t, turns rate b.lastRefill (r :: rs) =
        t :: turns rate ((new capacity rate).refill b r.now).lastRefill rs ∧
      t.demand = r.tokensNeeded * micro ∧
      ((new capacity rate).refill b r.now).tokensMicro =
        min (b.tokensMicro + t.inflow) (capacity * micro) := by
  rw [turns]
  split_ifs with hlt
  · rw [refill_of_lt hnow hlt]
    exact ⟨_, rfl, rfl, by rw [add_zero, min_eq_left hb]⟩
  · rw [refill_of_le hrate (not_lt.mp hlt)]
    exact ⟨_, rfl, rfl, rfl⟩

theorem admitted_eq_iff_supplies (hrate : 1 ≤ rate) (hb : b.tokensMicro ≤ capacity * micro)
    (h : Orderly b rs) :
    (new capacity rate).admitted b rs = rs ↔
      Supplies (capacity * micro) b.tokensMicro (turns rate b.lastRefill rs) := by
  induction rs generalizing b with
  | nil => simp [admitted, turns, Supplies]
  | cons r rs ih =>
    obtain ⟨t, hturns, hdemand, hlevel⟩ :=
      turns_cons hrate hb (h.later r List.mem_cons_self) rs
    have hneed : 0 ≤ r.tokensNeeded * micro :=
      mul_nonneg (h.nonneg r List.mem_cons_self) (by decide)
    have htail : Orderly ((new capacity rate).tryConsume b r.tokensNeeded r.now).2 rs :=
      h.tail hrate
    rw [admitted_cons_eq_iff, hturns, Supplies, hdemand, ← hlevel]
    rw [tryConsume] at htail ⊢
    generalize hrefilled : (new capacity rate).refill b r.now = c at htail hlevel ⊢
    have hc : c.tokensMicro ≤ capacity * micro := hlevel.trans_le (min_le_right _ _)
    rw [consume] at htail ⊢
    split_ifs at htail ⊢ with hlt
    · simp [hlt]
    · have hrest := ih (b := { c with tokensMicro := c.tokensMicro - r.tokensNeeded * micro })
        (by dsimp only; omega) htail
      simp only [hrest, true_and, not_lt.mp hlt]

end Calls

/-! ## Threads that use the limiter one at a time -/

section Served
variable {T : Type*} {lim : TokenBucketRateLimiter}

variable [DecidableEq T] {c d : Config T Local (Shared T)} {rs : List Request}

theorem clock_of_exec {t : T} {acts : List Act}
    (h : exec (step lim) c (acts.map (.thread t)) = some d) : d.shared.clock = c.shared.clock := by
  induction acts generalizing c with
  | nil => rw [← Option.some.inj h]
  | cons a acts ih =>
    obtain ⟨u, hu, hrest⟩ := exec_cons.mp h
    obtain ⟨l', g', hmove, rfl⟩ := step_thread.mp hu
    rw [ih hrest]
    exact clock_of_moves (moves_of_move hmove)

/-- The calls are made at times that do not decrease. -/
theorem Served.sorted (h : Served lim c rs d) :
    (∀ r ∈ rs, c.shared.clock ≤ r.now) ∧ rs.Pairwise fun r s => r.now ≤ s.now := by
  induction h with
  | nil c => simp
  | @cons c d e rs t k ns flags hrun hidle hrest ih =>
    obtain ⟨c', htick, hrun⟩ := exec_cons.mp hrun
    obtain rfl := Option.some.inj htick
    have hcall : exec (step lim) ⟨c.locals, tick ns c.shared⟩
        ((Act.call (.tryConsume k) :: flags.map .advance).map (.thread t)) = some d := by
      rw [List.map_cons, List.map_map]
      exact hrun
    have hclock : d.shared.clock = c.shared.clock + ns := clock_of_exec hcall
    have hlater : ∀ r ∈ rs, c.shared.clock + ns ≤ r.now := by
      intro r hr
      rw [← hclock]
      exact ih.1 r hr
    constructor
    · intro r hr
      rcases List.mem_cons.mp hr with rfl | hr
      · exact Int.le_add_of_nonneg_right (Int.natCast_nonneg ns)
      · have := hlater r hr
        omega
    · exact List.pairwise_cons.mpr ⟨hlater, ih.2⟩

theorem Served.length_returned (h : Served lim c rs d) :
    d.shared.returned.length = c.shared.returned.length + rs.length := by
  induction h with
  | nil c => rfl
  | @cons c d e rs t k ns flags hrun hidle hrest ih =>
    obtain ⟨c', htick, hrun⟩ := exec_cons.mp hrun
    obtain rfl := Option.some.inj htick
    rw [ih, (returned_of_alone hrun hidle).1]
    simp only [tick, List.length_append, List.length_cons, List.length_nil]
    omega

/-- All calls return true just when the limiter by itself admits them all. -/
theorem Served.all_allowed_iff {start : ℤ} (h : Served lim (lim.init start) rs d) :
    (∀ answer ∈ d.shared.returned, answer.allowed = true) ↔
      lim.admitted (lim.bucket start) rs = rs := by
  have hlength : d.shared.returned.length = rs.length := by
    simpa [TokenBucketRateLimiter.init] using h.length_returned
  have hallowed : d.shared.allowed.length = (lim.admitted (lim.bucket start) rs).length := by
    have hmap := congrArg List.length (allowed_of_served h)
    simpa [TokenBucketRateLimiter.init, Shared.allowed, Shared.bucket, bucket] using hmap
  rw [← List.filter_eq_self, ← Shared.allowed]
  constructor
  · intro hall
    apply (admitted_sublist lim _ rs).eq_of_length
    rw [← hallowed, hall, hlength]
  · intro hall
    apply List.filter_sublist.eq_of_length
    rw [← Shared.allowed, hallowed, hall, hlength]

end Served

/-- Calls of any threads, made one at a time, all return true just when for each stretch of them,
from call `i` to call `j`, the tokens are at most the capacity and the rate over the microseconds
counted from the one call to the other. -/
theorem all_allowed_iff_conforms {T : Type*} [DecidableEq T] (capacity rate start : ℤ)
    (hrate : 1 ≤ rate) (rs : List Request) (hk : ∀ r ∈ rs, 0 ≤ r.tokensNeeded)
    (d : Config T Local (Shared T))
    (h : Served (new capacity rate) ((new capacity rate).init start) rs d) :
    (∀ answer ∈ d.shared.returned, answer.allowed = true) ↔
      ∀ i j, i ≤ j → j < rs.length →
        (((rs.take (j + 1)).drop i).map Request.tokensNeeded).sum * 1000000 ≤
          capacity * 1000000 +
            rate * (countedUs start ((rs.take (j + 1)).map Request.now) -
              countedUs start ((rs.take (i + 1)).map Request.now)) := by
  obtain ⟨hstart, hsorted⟩ := h.sorted
  have horderly : Orderly ((new capacity rate).bucket start) rs := ⟨hstart, hsorted, hk⟩
  rw [h.all_allowed_iff, admitted_eq_iff_supplies hrate le_rfl horderly]
  have hfull : Supplies (capacity * micro) (capacity * micro) (turns rate start rs) ↔ _ :=
    supplies_full_iff (inflow_nonneg hrate)
  rw [length_turns] at hfull
  apply hfull.trans
  apply forall₄_congr
  intro i j hij hj
  rw [inflow_drop_take _ (by omega : i + 1 ≤ j + 1), demand_drop_take_turns, take_turns, take_turns,
    inflow_turns, inflow_turns, ← mul_sub]
  exact Iff.rfl

/-- Two threads, a call each, half a second apart: one exchange fails, and the limiter has filled up
again in between. -/
theorem all_allowed_iff_conforms_halfSecond :
    ∃ d : Config Bool Local (Shared Bool),
      Served (new 1 2) ((new 1 2).init 0) [⟨1, 100⟩, ⟨1, 500000100⟩] d ∧
        ∀ answer ∈ d.shared.returned, answer.allowed = true := by
  have hserved : ∃ d : Config Bool Local (Shared Bool),
      Served (new 1 2) ((new 1 2).init 0) [⟨1, 100⟩, ⟨1, 500000100⟩] d := by
    exact ⟨_, .cons false 1 100 [false, false, false, true, false] rfl rfl
      (.cons true 1 500000000 [false, false, false, false, false, false, false] rfl rfl (.nil _))⟩
  obtain ⟨d, hd⟩ := hserved
  refine ⟨d, hd, (all_allowed_iff_conforms 1 2 0 (by decide) _ (by decide) d hd).mpr ?_⟩
  intro i j hij hj
  have hj : j < 2 := hj
  obtain rfl | rfl : j = 0 ∨ j = 1 := by omega
  · obtain rfl : i = 0 := by omega
    decide
  · obtain rfl | rfl : i = 0 ∨ i = 1 := by omega
    · decide
    · decide

end Gateway.RateLimit
