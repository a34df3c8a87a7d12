import Mathlib.Algebra.Order.Floor.Ring
import Mathlib.Data.Int.Log
import Mathlib.Data.Rat.Floor
import Mathlib.Tactic.FieldSimp
import Mathlib.Tactic.Linarith
import Mathlib.Tactic.Positivity
import Mathlib.Tactic.Ring

/-!
# Rounding to a number of significant bits

A binary floating-point operation returns its exact result rounded to the nearest number with
`p` bits after the leading one, of two such numbers the one with the even significand. The
exponents are not bounded: overflow and subnormal results are left out.
-/

namespace Gateway.Rounding

/-- The nearest integer, of two the even one. -/
def roundHalfEven (x : ℚ) : ℤ :=
  if x - ⌊x⌋ < 1 / 2 ∨ (x - ⌊x⌋ = 1 / 2 ∧ ⌊x⌋ % 2 = 0) then ⌊x⌋ else ⌊x⌋ + 1

/-- The weight of the last bit of `x`. -/
def ulp (p : ℕ) (x : ℚ) : ℚ := 2 ^ (Int.log 2 |x| - p)

/-- `x` rounded to `p` bits after the leading one. -/
def roundBits (p : ℕ) (x : ℚ) : ℚ := roundHalfEven (x / ulp p x) * ulp p x

/-- The relative error of a rounding is at most this. -/
def roundoff (p : ℕ) : ℚ := 1 / 2 ^ (p + 1)

/-- The result of a `double` operation. -/
def toDouble (x : ℚ) : ℚ := roundBits 52 x

/-! ## The nearest integer -/

theorem floor_le_roundHalfEven (x : ℚ) : ⌊x⌋ ≤ roundHalfEven x := by
  unfold roundHalfEven
  split_ifs
  all_goals omega

theorem roundHalfEven_le_floor_add_one (x : ℚ) : roundHalfEven x ≤ ⌊x⌋ + 1 := by
  unfold roundHalfEven
  split_ifs
  all_goals omega

theorem roundHalfEven_intCast (n : ℤ) : roundHalfEven n = n := by
  rw [roundHalfEven, Int.floor_intCast, sub_self, if_pos (Or.inl one_half_pos)]

theorem roundHalfEven_mono {x y : ℚ} (h : x ≤ y) : roundHalfEven x ≤ roundHalfEven y := by
  rcases (Int.floor_le_floor h).eq_or_lt with heq | hlt
  · by_cases hdown : y - ⌊y⌋ < 1 / 2 ∨ (y - ⌊y⌋ = 1 / 2 ∧ ⌊y⌋ % 2 = 0)
    · -- what rounds `y` down rounds `x` down
      have hx : x - ⌊x⌋ < 1 / 2 ∨ (x - ⌊x⌋ = 1 / 2 ∧ ⌊x⌋ % 2 = 0) := by
        rw [heq]
        have hle : x - ⌊y⌋ ≤ y - ⌊y⌋ := sub_le_sub_right h _
        rcases hdown with hdown | ⟨hhalf, heven⟩
        · exact Or.inl (hle.trans_lt hdown)
        · rw [hhalf] at hle
          exact hle.lt_or_eq.imp_right fun hx => ⟨hx, heven⟩
      rw [roundHalfEven, if_pos hx, roundHalfEven, if_pos hdown, heq]
    · rw [roundHalfEven.eq_def y, if_neg hdown, ← heq]
      exact roundHalfEven_le_floor_add_one x
  -- an integer is between them
  · calc roundHalfEven x ≤ ⌊x⌋ + 1 := roundHalfEven_le_floor_add_one x
      _ ≤ ⌊y⌋ := hlt
      _ ≤ roundHalfEven y := floor_le_roundHalfEven y

theorem abs_roundHalfEven_sub_le (x : ℚ) : |roundHalfEven x - x| ≤ 1 / 2 := by
  have hfloor := Int.floor_le x
  have hnext := Int.lt_floor_add_one x
  rw [abs_le]
  unfold roundHalfEven
  split_ifs with hdown
  · have hle : x - ⌊x⌋ ≤ 1 / 2 := hdown.elim le_of_lt fun h => h.1.le
    constructor <;> linarith
  · have hle : 1 / 2 ≤ x - ⌊x⌋ := by
      by_contra hlt
      exact hdown (Or.inl (not_le.mp hlt))
    push_cast
    constructor <;> linarith

/-! ## The last bit -/

section Ulp
variable {p : ℕ} {x : ℚ}

theorem ulp_pos (p : ℕ) (x : ℚ) : 0 < ulp p x := zpow_pos two_pos _

theorem roundoff_pos (p : ℕ) : 0 < roundoff p := one_div_pos.mpr (by positivity)

theorem roundoff_lt_one (p : ℕ) : roundoff p < 1 := by
  rw [roundoff, div_lt_one (by positivity)]
  exact one_lt_pow₀ one_lt_two p.succ_ne_zero

theorem roundBits_zero (p : ℕ) : roundBits p 0 = 0 := by
  have hzero : roundHalfEven 0 = 0 := roundHalfEven_intCast 0
  rw [roundBits, zero_div, hzero, Int.cast_zero, zero_mul]

/-- The leading bit is `p` bits above the last one. -/
theorem two_pow_mul_ulp (p : ℕ) (x : ℚ) : 2 ^ p * ulp p x = 2 ^ Int.log 2 |x| := by
  rw [ulp, zpow_sub₀ two_ne_zero, zpow_natCast, mul_div_cancel₀ _ (by positivity)]

theorem two_pow_mul_ulp_le (hx : 0 < x) : 2 ^ p * ulp p x ≤ x := by
  rw [two_pow_mul_ulp, abs_of_pos hx]
  exact_mod_cast Int.zpow_log_le_self (one_lt_two) hx

theorem lt_two_pow_mul_ulp (hx : 0 < x) : x < 2 ^ (p + 1) * ulp p x := by
  rw [pow_succ, mul_right_comm, two_pow_mul_ulp, abs_of_pos hx, ← zpow_add_one₀ two_ne_zero]
  exact_mod_cast Int.lt_zpow_succ_log_self one_lt_two x

/-- A positive number is rounded to one that is not below its leading bit. -/
theorem two_pow_log_le_roundBits (hx : 0 < x) : 2 ^ Int.log 2 |x| ≤ roundBits p x := by
  have hpos := ulp_pos p x
  have hscaled : ((2 ^ p : ℤ) : ℚ) ≤ x / ulp p x := by
    rw [le_div_iff₀ hpos]
    push_cast
    exact two_pow_mul_ulp_le hx
  have hround := roundHalfEven_mono hscaled
  rw [roundHalfEven_intCast] at hround
  rw [← two_pow_mul_ulp p x, roundBits]
  apply mul_le_mul_of_nonneg_right _ hpos.le
  exact_mod_cast hround

/-- And not above the next power of two. -/
theorem roundBits_le_two_pow_log (hx : 0 < x) : roundBits p x ≤ 2 ^ (Int.log 2 |x| + 1) := by
  have hpos := ulp_pos p x
  have hscaled : x / ulp p x ≤ ((2 ^ (p + 1) : ℤ) : ℚ) := by
    rw [div_le_iff₀ hpos]
    push_cast
    exact (lt_two_pow_mul_ulp hx).le
  have hround := roundHalfEven_mono hscaled
  rw [roundHalfEven_intCast] at hround
  rw [zpow_add_one₀ two_ne_zero, ← two_pow_mul_ulp p x, mul_right_comm, ← pow_succ, roundBits]
  apply mul_le_mul_of_nonneg_right _ hpos.le
  exact_mod_cast hround

end Ulp

/-! ## Rounding to significant bits -/

section Round
variable {p : ℕ} {x y : ℚ}

theorem roundBits_nonneg (hx : 0 ≤ x) : 0 ≤ roundBits p x := by
  rcases hx.eq_or_lt with rfl | hpos
  · rw [roundBits_zero]
  · exact (zpow_pos two_pos _).le.trans (two_pow_log_le_roundBits hpos)

/-- Numbers with the same leading bit are rounded alike, and others stay apart. -/
theorem roundBits_mono (hx : 0 ≤ x) (h : x ≤ y) : roundBits p x ≤ roundBits p y := by
  rcases hx.eq_or_lt with rfl | hpos
  · rw [roundBits_zero]
    exact roundBits_nonneg h
  · have hposy := hpos.trans_le h
    have hlog : Int.log 2 |x| ≤ Int.log 2 |y| := by
      rw [abs_of_pos hpos, abs_of_pos hposy]
      exact Int.log_mono_right hpos h
    rcases hlog.eq_or_lt with heq | hlt
    · have hulp : ulp p x = ulp p y := by rw [ulp, ulp, heq]
      rw [roundBits, roundBits, hulp]
      apply mul_le_mul_of_nonneg_right _ (ulp_pos p y).le
      exact_mod_cast roundHalfEven_mono (div_le_div_of_nonneg_right h (ulp_pos p y).le)
    -- a power of two is between them
    · calc roundBits p x ≤ 2 ^ (Int.log 2 |x| + 1) := roundBits_le_two_pow_log hpos
        _ ≤ 2 ^ Int.log 2 |y| := zpow_le_zpow_right₀ one_le_two hlt
        _ ≤ roundBits p y := two_pow_log_le_roundBits hposy

/-- Integers of `p + 1` bits are left alone. -/
theorem roundBits_natCast {n : ℕ} (h : n < 2 ^ (p + 1)) : roundBits p n = n := by
  rcases n.eq_zero_or_pos with rfl | hpos
  · exact roundBits_zero p
  · have hlog : Nat.log 2 n ≤ p := Nat.lt_succ_iff.mp (Nat.log_lt_of_lt_pow hpos.ne' h)
    -- an integer has no bit below the point, so it is a multiple of its last bit
    have hulp : ulp p n = ((2 ^ (p - Nat.log 2 n) : ℕ) : ℚ)⁻¹ := by
      rw [ulp, Nat.abs_cast, Int.log_natCast, ← neg_sub, zpow_neg, ← Nat.cast_sub hlog,
        zpow_natCast]
      push_cast
      rfl
    have hscaled : (n : ℚ) / ulp p n = ((n * 2 ^ (p - Nat.log 2 n) : ℤ) : ℚ) := by
      rw [hulp, div_inv_eq_mul]
      push_cast
      rfl
    rw [roundBits, hscaled, roundHalfEven_intCast, ← hscaled,
      div_mul_cancel₀ _ (ulp_pos p _).ne']

/-! ## Scaling by a power of two -/

/-- A power of two moves the leading bit. -/
theorem log_mul_zpow (hx : 0 < x) (z : ℤ) : Int.log 2 (x * 2 ^ z) = Int.log 2 x + z := by
  have hpow : (0 : ℚ) < 2 ^ z := zpow_pos two_pos z
  have hlow : (2 : ℚ) ^ (Int.log 2 x + z) ≤ x * 2 ^ z := by
    rw [zpow_add₀ two_ne_zero]
    apply mul_le_mul_of_nonneg_right _ hpow.le
    exact_mod_cast Int.zpow_log_le_self one_lt_two hx
  have hhigh : x * 2 ^ z < (2 : ℚ) ^ (Int.log 2 x + z + 1) := by
    rw [add_right_comm, zpow_add₀ two_ne_zero]
    apply mul_lt_mul_of_pos_right _ hpow
    exact_mod_cast Int.lt_zpow_succ_log_self one_lt_two x
  have hle := (Int.zpow_le_iff_le_log one_lt_two (mul_pos hx hpow)).mp (by exact_mod_cast hlow)
  have hlt := (Int.lt_zpow_iff_log_lt one_lt_two (mul_pos hx hpow)).mp (by exact_mod_cast hhigh)
  omega

/-- Multiplication by a power of two is exact. -/
theorem roundBits_mul_zpow (hx : 0 ≤ x) (z : ℤ) :
    roundBits p (x * 2 ^ z) = roundBits p x * 2 ^ z := by
  rcases hx.eq_or_lt with rfl | hpos
  · rw [zero_mul, roundBits_zero, zero_mul]
  · have hpow : (0 : ℚ) < 2 ^ z := zpow_pos two_pos z
    have hulp : ulp p (x * 2 ^ z) = ulp p x * 2 ^ z := by
      rw [ulp, ulp, abs_of_pos (mul_pos hpos hpow), abs_of_pos hpos, log_mul_zpow hpos,
        ← zpow_add₀ two_ne_zero, add_sub_right_comm]
    rw [roundBits, hulp, mul_div_mul_right _ _ hpow.ne', roundBits, mul_assoc]

/-- A number that has been rounded is left alone. -/
theorem roundBits_roundBits (hx : 0 ≤ x) : roundBits p (roundBits p x) = roundBits p x := by
  rcases hx.eq_or_lt with rfl | hpos
  · rw [roundBits_zero, roundBits_zero]
  · obtain ⟨n, hn⟩ : ∃ n : ℕ, roundHalfEven (x / ulp p x) = n := by
      have hnonneg := roundHalfEven_mono (div_nonneg hx (ulp_pos p x).le)
      rw [← Int.cast_zero, roundHalfEven_intCast] at hnonneg
      exact ⟨_, (Int.toNat_of_nonneg hnonneg).symm⟩
    have hround : roundBits p x = n * ulp p x := by
      rw [roundBits, hn, Int.cast_natCast]
    have hle : n ≤ 2 ^ (p + 1) := by
      have hscaled : x / ulp p x ≤ ((2 ^ (p + 1) : ℤ) : ℚ) := by
        rw [div_le_iff₀ (ulp_pos p x)]
        push_cast
        exact (lt_two_pow_mul_ulp hpos).le
      have hmono := roundHalfEven_mono hscaled
      rw [roundHalfEven_intCast, hn] at hmono
      exact_mod_cast hmono
    have hexact : roundBits p (n : ℚ) = n := by
      rcases hle.eq_or_lt with rfl | hlt
      · -- the next power of two has one bit, whatever its exponent
        have hone : roundBits p ((1 : ℕ) : ℚ) = (1 : ℕ) := roundBits_natCast (Nat.one_lt_two_pow' p)
        have hpow := roundBits_mul_zpow (p := p) (Nat.cast_nonneg' 1 : (0 : ℚ) ≤ (1 : ℕ)) (p + 1 : ℕ)
        rw [hone, zpow_natCast, Nat.cast_one, one_mul] at hpow
        exact_mod_cast hpow
      · exact roundBits_natCast hlt
    rw [hround, ulp, roundBits_mul_zpow (Nat.cast_nonneg n), hexact]

/-! ## The relative error -/

/-- The error is at most half of the last bit. -/
theorem abs_roundBits_sub_le (hx : 0 ≤ x) : |roundBits p x - x| ≤ x * roundoff p := by
  rcases hx.eq_or_lt with rfl | hpos
  · simp [roundBits_zero]
  · have hulp := ulp_pos p x
    have hexact : roundBits p x - x = (roundHalfEven (x / ulp p x) - x / ulp p x) * ulp p x := by
      rw [sub_mul, div_mul_cancel₀ _ hulp.ne', roundBits]
    have hhalf := abs_roundHalfEven_sub_le (x / ulp p x)
    calc |roundBits p x - x| = |roundHalfEven (x / ulp p x) - x / ulp p x| * ulp p x := by
          rw [hexact, abs_mul, abs_of_pos hulp]
      _ ≤ 1 / 2 * ulp p x := mul_le_mul_of_nonneg_right hhalf hulp.le
      _ = 2 ^ p * ulp p x * roundoff p := by
          rw [roundoff, pow_succ]
          field_simp
      _ ≤ x * roundoff p :=
          mul_le_mul_of_nonneg_right (two_pow_mul_ulp_le hpos) (roundoff_pos p).le

theorem le_roundBits (hx : 0 ≤ x) : x * (1 - roundoff p) ≤ roundBits p x := by
  have herror := (abs_le.mp (abs_roundBits_sub_le (p := p) hx)).1
  linarith

theorem roundBits_le (hx : 0 ≤ x) : roundBits p x ≤ x * (1 + roundoff p) := by
  have herror := (abs_le.mp (abs_roundBits_sub_le (p := p) hx)).2
  linarith

theorem roundBits_pos (hx : 0 < x) : 0 < roundBits p x :=
  (zpow_pos two_pos _).trans_le (two_pow_log_le_roundBits hx)

/-! ## A rounded quotient of rounded numbers -/

theorem roundBits_div_le (hx : 0 ≤ x) (hy : 0 < y) :
    roundBits p (roundBits p x / roundBits p y) ≤
      x / y * ((1 + roundoff p) ^ 2 / (1 - roundoff p)) := by
  have hlow : 0 < 1 - roundoff p := sub_pos.mpr (roundoff_lt_one p)
  have hhigh : 0 < 1 + roundoff p := add_pos one_pos (roundoff_pos p)
  have hquotient : roundBits p x / roundBits p y ≤
      x * (1 + roundoff p) / (y * (1 - roundoff p)) := by
    apply div_le_div₀ (mul_nonneg hx hhigh.le) (roundBits_le hx) (mul_pos hy hlow)
    exact le_roundBits hy.le
  calc roundBits p (roundBits p x / roundBits p y)
      ≤ roundBits p x / roundBits p y * (1 + roundoff p) :=
        roundBits_le (div_nonneg (roundBits_nonneg hx) (roundBits_nonneg hy.le))
    _ ≤ x * (1 + roundoff p) / (y * (1 - roundoff p)) * (1 + roundoff p) :=
        mul_le_mul_of_nonneg_right hquotient hhigh.le
    _ = x / y * ((1 + roundoff p) ^ 2 / (1 - roundoff p)) := by
        rw [sq, mul_div_mul_comm]
        ring

theorem le_roundBits_div (hx : 0 ≤ x) (hy : 0 < y) :
    x / y * ((1 - roundoff p) ^ 2 / (1 + roundoff p)) ≤
      roundBits p (roundBits p x / roundBits p y) := by
  have hlow : 0 < 1 - roundoff p := sub_pos.mpr (roundoff_lt_one p)
  have hquotient : x * (1 - roundoff p) / (y * (1 + roundoff p)) ≤
      roundBits p x / roundBits p y := by
    apply div_le_div₀ (roundBits_nonneg hx) (le_roundBits hx) (roundBits_pos hy)
    exact roundBits_le hy.le
  calc x / y * ((1 - roundoff p) ^ 2 / (1 + roundoff p))
      = x * (1 - roundoff p) / (y * (1 + roundoff p)) * (1 - roundoff p) := by
        rw [sq, mul_div_mul_comm]
        ring
    _ ≤ roundBits p x / roundBits p y * (1 - roundoff p) :=
        mul_le_mul_of_nonneg_right hquotient hlow.le
    _ ≤ roundBits p (roundBits p x / roundBits p y) :=
        le_roundBits (div_nonneg (roundBits_nonneg hx) (roundBits_nonneg hy.le))

end Round

end Gateway.Rounding
