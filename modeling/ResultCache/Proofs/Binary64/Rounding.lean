import Mathlib.Algebra.Order.Field.Basic
import Mathlib.Algebra.Order.Field.Power
import Mathlib.Data.Rat.Cast.Order
import Mathlib.Tactic.FieldSimp
import Mathlib.Tactic.Linarith
import Mathlib.Tactic.NormNum
import Mathlib.Tactic.Positivity
import Mathlib.Tactic.Ring
import ResultCache.Binary64.Shortest

/-!
# Rounding finds a double back

The reals of the interval of a finite double are rounded to it (`ofRatio_of_covers`, `ofDecimal_of_covers`).  A real
between two powers of two is rounded to a multiple of the place that goes with the lower one, and the interval lies
between the powers that go with the double, except below a power of two: there the next lower place applies, on which
the doubles stand twice as close.
-/

namespace ResultCache.Binary64

/-! ### To a whole number -/

theorem roundHalfEven_eq {num den k : Nat} (hden : 0 < den) (hlow : (k : ℚ) - 1 / 2 ≤ num / den)
    (hhigh : (num : ℚ) / den ≤ k + 1 / 2)
    (hodd : k % 2 = 1 → (k : ℚ) - 1 / 2 < num / den ∧ (num : ℚ) / den < k + 1 / 2) : roundHalfEven num den = k := by
  have hpos : (0 : ℚ) < den := by exact_mod_cast hden
  rw [le_div_iff₀ hpos] at hlow
  rw [div_le_iff₀ hpos] at hhigh
  rw [lt_div_iff₀ hpos, div_lt_iff₀ hpos] at hodd
  have hlow : 2 * (den * k) ≤ 2 * num + den := by
    have : (2 * (den * k) : ℚ) ≤ 2 * num + den := by linarith
    exact_mod_cast this
  have hhigh : 2 * num ≤ 2 * (den * k) + den := by
    have : (2 * num : ℚ) ≤ 2 * (den * k) + den := by linarith
    exact_mod_cast this
  have hodd : k % 2 = 1 → 2 * (den * k) < 2 * num + den ∧ 2 * num < 2 * (den * k) + den := by
    intro hk
    obtain ⟨h₁, h₂⟩ := hodd hk
    have h₁ : (2 * (den * k) : ℚ) < 2 * num + den := by linarith
    have h₂ : (2 * num : ℚ) < 2 * (den * k) + den := by linarith
    exact ⟨by exact_mod_cast h₁, by exact_mod_cast h₂⟩
  have hnum : den * (num / den) + num % den = num := Nat.div_add_mod num den
  have hrest : num % den < den := Nat.mod_lt num hden
  rw [roundHalfEven]
  generalize num / den = q at hnum ⊢
  generalize num % den = r at hnum hrest ⊢
  have hle : k ≤ q + 1 := by
    by_contra h
    have := Nat.mul_le_mul_left den (show q + 2 ≤ k by omega)
    rw [Nat.mul_add] at this
    omega
  have hge : q ≤ k := by
    by_contra h
    have := Nat.mul_le_mul_left den (show k + 1 ≤ q by omega)
    rw [Nat.mul_add] at this
    omega
  rcases Nat.lt_or_ge q k with hlt | hge'
  · obtain rfl : k = q + 1 := by omega
    rw [Nat.mul_add] at hlow hhigh hodd
    rw [if_pos (by omega)]
  · obtain rfl : k = q := by omega
    rw [if_neg (by omega)]

/-! ### Powers with whole exponents -/

theorem pow_toNat (b : ℚ) {e : Int} (h : 0 ≤ e) : b ^ e.toNat = b ^ e := by
  rw [← zpow_natCast, Int.toNat_of_nonneg h]

theorem pow_neg_toNat (b : ℚ) {e : Int} (h : ¬ 0 ≤ e) : b ^ (-e).toNat = (b ^ e)⁻¹ := by
  rw [← zpow_natCast, Int.toNat_of_nonneg (by omega), zpow_neg]

theorem two_zpow_add (e : Int) (n : Nat) : (2 : ℚ) ^ (e + n) = 2 ^ e * 2 ^ n := by
  rw [zpow_add₀ (by norm_num), zpow_natCast]

theorem log2_le_lt {n : Nat} (h : 0 < n) :
    (2 : ℚ) ^ (n.log2 : Int) ≤ n ∧ (n : ℚ) < 2 ^ ((n.log2 : Int) + 1) := by
  have hlow := Nat.log2_self_le (Nat.pos_iff_ne_zero.1 h)
  have hhigh := @Nat.lt_log2_self n
  constructor
  · rw [zpow_natCast]
    exact_mod_cast hlow
  · rw [← Nat.cast_succ, zpow_natCast]
    exact_mod_cast hhigh

/-- A quotient is compared with a power of two in whole numbers. -/
theorem below_iff {num den : Nat} (hden : 0 < den) (e : Int) :
    (if 0 ≤ e then decide (num < den * 2 ^ e.toNat) else decide (num * 2 ^ (-e).toNat < den)) = true ↔
      (num : ℚ) / den < 2 ^ e := by
  have hpos : (0 : ℚ) < den := by exact_mod_cast hden
  rw [div_lt_iff₀ hpos]
  by_cases h : 0 ≤ e
  · rw [if_pos h, decide_eq_true_iff, ← pow_toNat 2 h, mul_comm]
    exact_mod_cast Iff.rfl
  · have hinv : (0 : ℚ) < 2 ^ e := by positivity
    rw [if_neg h, decide_eq_true_iff, ← @Nat.cast_lt ℚ, Nat.cast_mul, Nat.cast_pow, Nat.cast_ofNat,
      pow_neg_toNat 2 h, ← div_eq_mul_inv, div_lt_iff₀ hinv, mul_comm]

/-- The leading power of two of a quotient is that of the logarithms, or the one below it. -/
theorem leading_zpow {num den : Nat} (hnum : 0 < num) (hden : 0 < den) :
    let guess : Int := (num.log2 : Int) - den.log2
    let top : Int := if (num : ℚ) / den < 2 ^ guess then guess - 1 else guess
    (2 : ℚ) ^ top ≤ num / den ∧ (num : ℚ) / den < 2 ^ (top + 1) := by
  intro guess top
  have hpos : (0 : ℚ) < den := by exact_mod_cast hden
  obtain ⟨hnum_low, hnum_high⟩ := log2_le_lt hnum
  obtain ⟨hden_low, hden_high⟩ := log2_le_lt hden
  have hlow : (2 : ℚ) ^ (guess - 1) ≤ num / den := by
    rw [le_div_iff₀ hpos]
    calc (2 : ℚ) ^ (guess - 1) * den ≤ 2 ^ (guess - 1) * 2 ^ ((den.log2 : Int) + 1) := by gcongr
      _ = 2 ^ (num.log2 : Int) := by
        rw [← zpow_add₀ (by norm_num)]
        congr 1
        omega
      _ ≤ num := hnum_low
  have hhigh : (num : ℚ) / den < 2 ^ (guess + 1) := by
    rw [div_lt_iff₀ hpos]
    calc (num : ℚ) < 2 ^ ((num.log2 : Int) + 1) := hnum_high
      _ = 2 ^ (guess + 1) * 2 ^ (den.log2 : Int) := by
        rw [← zpow_add₀ (by norm_num)]
        congr 1
        omega
      _ ≤ 2 ^ (guess + 1) * den := by gcongr
  by_cases hbelow : (num : ℚ) / den < 2 ^ guess
  · have htop : top = guess - 1 := if_pos hbelow
    rw [htop, sub_add_cancel]
    exact ⟨hlow, hbelow⟩
  · have htop : top = guess := if_neg hbelow
    rw [htop]
    exact ⟨not_lt.1 hbelow, hhigh⟩

/-- Rounding to a multiple of a power of two. -/
theorem roundHalfEven_scaled {num den k : Nat} {e : Int} (hden : 0 < den)
    (hlow : ((k : ℚ) - 1 / 2) * 2 ^ e ≤ num / den) (hhigh : (num : ℚ) / den ≤ (k + 1 / 2) * 2 ^ e)
    (hodd : k % 2 = 1 → ((k : ℚ) - 1 / 2) * 2 ^ e < num / den ∧ (num : ℚ) / den < (k + 1 / 2) * 2 ^ e) :
    (if 0 ≤ e then roundHalfEven num (den * 2 ^ e.toNat) else roundHalfEven (num * 2 ^ (-e).toNat) den) = k := by
  have hpos : (0 : ℚ) < 2 ^ e := by positivity
  rw [← le_div_iff₀ hpos] at hlow
  rw [← div_le_iff₀ hpos] at hhigh
  rw [← lt_div_iff₀ hpos, ← div_lt_iff₀ hpos] at hodd
  by_cases h : 0 ≤ e
  · have hratio : (num : ℚ) / (den * 2 ^ e.toNat : Nat) = num / den / 2 ^ e := by
      rw [Nat.cast_mul, Nat.cast_pow, Nat.cast_ofNat, pow_toNat 2 h, div_div]
    rw [if_pos h]
    exact roundHalfEven_eq (by positivity) (hratio ▸ hlow) (hratio ▸ hhigh) (hratio ▸ hodd)
  · have hratio : ((num * 2 ^ (-e).toNat : Nat) : ℚ) / den = num / den / 2 ^ e := by
      rw [Nat.cast_mul, Nat.cast_pow, Nat.cast_ofNat, pow_neg_toNat 2 h, ← div_eq_mul_inv, div_right_comm]
    rw [if_neg h]
    exact roundHalfEven_eq hden (hratio ▸ hlow) (hratio ▸ hhigh) (hratio ▸ hodd)

/-- A quotient of the size that goes with a last place is rounded to a multiple of it. -/
theorem ofRatio_eq (negative : Bool) {num den k : Nat} {e : Int} (hnum : 0 < num) (hden : 0 < den) (he : -1074 ≤ e)
    (hhigh : (num : ℚ) / den < 2 ^ (e + 53)) (hlow : e = -1074 ∨ (2 : ℚ) ^ (e + 52) ≤ num / den)
    (hbelow : ((k : ℚ) - 1 / 2) * 2 ^ e ≤ num / den) (habove : (num : ℚ) / den ≤ (k + 1 / 2) * 2 ^ e)
    (hodd : k % 2 = 1 → ((k : ℚ) - 1 / 2) * 2 ^ e < num / den ∧ (num : ℚ) / den < (k + 1 / 2) * 2 ^ e) :
    ofRatio negative num den =
      ofMagnitude negative (min ((e + 1074).toNat * 2 ^ 52 + k) infinityMagnitude) := by
  obtain ⟨htop_low, htop_high⟩ := leading_zpow hnum hden
  have hdecide : ∀ e : Int, (if 0 ≤ e then decide (num < den * 2 ^ e.toNat)
      else decide (num * 2 ^ (-e).toNat < den)) = decide ((num : ℚ) / den < 2 ^ e) := by
    intro e
    rw [Bool.eq_iff_iff, below_iff hden, decide_eq_true_iff]
  rw [ofRatio, if_neg (by omega)]
  simp only [hdecide, decide_eq_true_eq]
  generalize htop : (if (num : ℚ) / den < 2 ^ ((num.log2 : Int) - den.log2) then (num.log2 : Int) - den.log2 - 1
    else (num.log2 : Int) - den.log2) = top at htop_low htop_high ⊢
  have hlt : top < e + 53 := (zpow_lt_zpow_iff_right₀ (by norm_num)).1 (htop_low.trans_lt hhigh)
  have hplace : max (top - 52) (-1074) = e := by
    rcases hlow with rfl | hlow
    · omega
    · have hpow : (2 : ℚ) ^ (e + 52) < 2 ^ (top + 1) := hlow.trans_lt htop_high
      have hle : e + 52 < top + 1 := (zpow_lt_zpow_iff_right₀ (by norm_num)).1 hpow
      omega
  rw [hplace, roundHalfEven_scaled hden hbelow habove hodd]

/-! ### The parts of a double -/

variable {x : Binary64}

theorem ofMagnitude_magnitude (x : Binary64) : ofMagnitude x.isNegative x.magnitude = x := by
  obtain ⟨bits⟩ := x
  have hlt : bits.toNat < 2 ^ 64 := bits.toNat_lt
  rw [ofMagnitude, Binary64.mk.injEq, ← UInt64.toNat_inj, UInt64.toNat_ofNat']
  simp only [isNegative, magnitude, decide_eq_true_eq]
  split <;> omega

theorem mantissa_pos (hzero : x.magnitude ≠ 0) : 0 < x.mantissa := by
  rw [mantissa]
  split <;> omega

theorem mantissa_lt (x : Binary64) : x.mantissa < 2 ^ 53 := by
  rw [mantissa]
  split <;> omega

theorem exponent_bounds (hfinite : x.isFinite = true) : -1074 ≤ x.exponent ∧ x.exponent ≤ 971 := by
  have hlt : x.magnitude < infinityMagnitude := of_decide_eq_true hfinite
  rw [infinityMagnitude] at hlt
  rw [exponent]
  split <;> omega

/-- Only the doubles of the lowest place have less than 53 bits. -/
theorem exponent_eq_or_le (x : Binary64) : x.exponent = -1074 ∨ 2 ^ 52 ≤ x.mantissa := by
  rw [exponent, mantissa]
  split <;> omega

theorem magnitude_eq (hfinite : x.isFinite = true) :
    min ((x.exponent + 1074).toNat * 2 ^ 52 + x.mantissa) infinityMagnitude = x.magnitude := by
  have hlt : x.magnitude < infinityMagnitude := of_decide_eq_true hfinite
  have hsum : (x.exponent + 1074).toNat * 2 ^ 52 + x.mantissa = x.magnitude := by
    rw [exponent, mantissa]
    split <;> omega
  rw [hsum]
  exact Nat.min_eq_left (Nat.le_of_lt hlt)

/-! ### The interval of a double -/

/-- A number lies in an interval, or at an end that belongs to it. -/
structure Interval.Covers (i : Interval) (r : ℚ) : Prop where
  low_le : (i.low : ℚ) ≤ r * i.den
  le_high : r * i.den ≤ i.high
  inside : i.closed = false → (i.low : ℚ) < r * i.den ∧ r * i.den < i.high

/-- How far the interval reaches below a double, in last places. -/
def reachBelow (x : Binary64) : ℚ :=
  if x.mantissa = 2 ^ 52 ∧ -1074 < x.exponent then 1 / 4 else 1 / 2

theorem reachBelow_le (x : Binary64) : 0 < x.reachBelow ∧ x.reachBelow ≤ 1 / 2 := by
  rw [reachBelow]
  split <;> norm_num

/-- The ends of the interval, in last places. -/
theorem interval_eq (hzero : x.magnitude ≠ 0) :
    0 < x.interval.den ∧ (x.interval.value : ℚ) = x.mantissa * 2 ^ x.exponent * x.interval.den ∧
      (x.interval.low : ℚ) = (x.mantissa - x.reachBelow) * 2 ^ x.exponent * x.interval.den ∧
      (x.interval.high : ℚ) = (x.mantissa + 1 / 2) * 2 ^ x.exponent * x.interval.den := by
  have hpos := mantissa_pos hzero
  -- the interval is counted in quarters of the last place
  have hquarter : (2 : ℚ) ^ x.exponent = 4 * 2 ^ (x.exponent - 2) := by
    rw [zpow_sub₀ (by norm_num)]
    ring
  have hstep : (((4 * x.mantissa - if x.mantissa = 2 ^ 52 ∧ -1074 < x.exponent then 1 else 2 : Nat) : ℚ)) =
      4 * (x.mantissa - x.reachBelow) := by
    rw [reachBelow, Nat.cast_sub (by split <;> omega)]
    push_cast
    split <;> ring
  simp only [interval]
  by_cases h : 0 ≤ x.exponent - 2
  · simp only [if_pos h]
    refine ⟨one_pos, ?_, ?_, ?_⟩
    all_goals
      simp only [Nat.cast_mul, Nat.cast_add, Nat.cast_pow, Nat.cast_ofNat, Nat.cast_one, hstep, hquarter,
        pow_toNat 2 h]
      ring
  · have hinv : (2 : ℚ) ^ (x.exponent - 2) * (2 ^ (x.exponent - 2))⁻¹ = 1 := mul_inv_cancel₀ (by positivity)
    simp only [if_neg h]
    refine ⟨by positivity, ?_, ?_, ?_⟩
    all_goals
      simp only [Nat.cast_mul, Nat.cast_add, Nat.cast_pow, Nat.cast_ofNat, Nat.cast_one, hstep, hquarter,
        pow_neg_toNat 2 h, mul_assoc, hinv]
      ring

theorem covers_iff (hzero : x.magnitude ≠ 0) {r : ℚ} :
    x.interval.Covers r ↔ (x.mantissa - x.reachBelow) * 2 ^ x.exponent ≤ r ∧
      r ≤ (x.mantissa + 1 / 2) * 2 ^ x.exponent ∧
      (x.mantissa % 2 = 1 →
        (x.mantissa - x.reachBelow) * 2 ^ x.exponent < r ∧ r < (x.mantissa + 1 / 2) * 2 ^ x.exponent) := by
  obtain ⟨hden, -, hlow, hhigh⟩ := interval_eq hzero
  have hden : (0 : ℚ) < x.interval.den := by exact_mod_cast hden
  have hclosed : x.interval.closed = false ↔ x.mantissa % 2 = 1 := by
    simp only [interval, beq_eq_false_iff_ne]
    omega
  constructor
  · rintro ⟨h₁, h₂, h₃⟩
    rw [hlow, hhigh, hclosed] at *
    simp only [mul_le_mul_iff_left₀ hden, mul_lt_mul_iff_left₀ hden] at h₁ h₂ h₃
    exact ⟨h₁, h₂, h₃⟩
  · rintro ⟨h₁, h₂, h₃⟩
    refine ⟨?_, ?_, ?_⟩
    · rw [hlow]
      exact mul_le_mul_of_nonneg_right h₁ hden.le
    · rw [hhigh]
      exact mul_le_mul_of_nonneg_right h₂ hden.le
    · rw [hclosed, hlow, hhigh]
      intro hodd
      exact ⟨mul_lt_mul_of_pos_right (h₃ hodd).1 hden, mul_lt_mul_of_pos_right (h₃ hodd).2 hden⟩

/-- The interval of a double reaches below the powers of two that go with it only if the double is one itself. -/
theorem mantissa_eq_of_lt {r : ℚ} (hlow : (x.mantissa - x.reachBelow) * 2 ^ x.exponent ≤ r)
    (hnormal : x.exponent ≠ -1074) (hbelow : r < 2 ^ (x.exponent + 52)) : x.mantissa = 2 ^ 52 := by
  obtain ⟨-, hreach⟩ := x.reachBelow_le
  have hplace : (0 : ℚ) < 2 ^ x.exponent := by positivity
  have hpower : (2 : ℚ) ^ (x.exponent + 52) = 2 ^ x.exponent * 2 ^ 52 := two_zpow_add x.exponent 52
  have hle : 2 ^ 52 ≤ x.mantissa := x.exponent_eq_or_le.resolve_left hnormal
  have hlt : (x.mantissa : ℚ) - x.reachBelow < 2 ^ 52 := by
    have hprod := hlow.trans_lt hbelow
    rw [hpower, mul_comm] at hprod
    exact lt_of_mul_lt_mul_left hprod hplace.le
  have hsucc : (x.mantissa : ℚ) < (2 ^ 52 + 1 : Nat) := by
    push_cast
    linarith
  have hsucc := Nat.cast_lt.1 hsucc
  omega

/-- A quotient that lies in the interval of a power of two, but below it, is rounded up to it. -/
theorem ofRatio_of_lt_power (hfinite : x.isFinite = true) {num den : Nat} (hnum : 0 < num) (hden : 0 < den)
    (hlow : (x.mantissa - x.reachBelow) * 2 ^ x.exponent ≤ num / den) (hnormal : x.exponent ≠ -1074)
    (hbelow : (num : ℚ) / den < 2 ^ (x.exponent + 52)) : ofRatio x.isNegative num den = x := by
  obtain ⟨hexponent, -⟩ := exponent_bounds hfinite
  have hpower := mantissa_eq_of_lt hlow hnormal hbelow
  have hquarter : x.reachBelow = 1 / 4 := by
    rw [reachBelow, if_pos ⟨hpower, by omega⟩]
  -- counted in the next lower place, the double is `2 ^ 53`
  have hplace : (0 : ℚ) < 2 ^ (x.exponent - 1) := by positivity
  have hhalf : (2 : ℚ) ^ x.exponent = 2 * 2 ^ (x.exponent - 1) := by
    rw [zpow_sub₀ (by norm_num)]
    ring
  have htop : (2 : ℚ) ^ (x.exponent - 1 + 53) = 2 ^ (x.exponent - 1) * 2 ^ 53 := two_zpow_add (x.exponent - 1) 53
  have hlead : (2 : ℚ) ^ (x.exponent - 1 + 52) = 2 ^ (x.exponent - 1) * 2 ^ 52 := two_zpow_add (x.exponent - 1) 52
  rw [hpower, hquarter, hhalf] at hlow
  have hnear : (((2 ^ 53 : Nat) : ℚ) - 1 / 2) * 2 ^ (x.exponent - 1) ≤ num / den := by
    refine le_of_eq_of_le ?_ hlow
    push_cast
    ring
  have hbelow : (num : ℚ) / den < 2 ^ (x.exponent - 1 + 53) := by
    rw [show x.exponent - 1 + 53 = x.exponent + 52 by ring]
    exact hbelow
  have hreaches : (2 : ℚ) ^ (x.exponent - 1 + 52) ≤ num / den := by
    rw [hlead, mul_comm]
    exact le_trans (mul_le_mul_of_nonneg_right (by norm_num) hplace.le) hnear
  have habove : (num : ℚ) / den ≤ (((2 ^ 53 : Nat) : ℚ) + 1 / 2) * 2 ^ (x.exponent - 1) := by
    refine hbelow.le.trans ?_
    rw [htop, mul_comm]
    exact mul_le_mul_of_nonneg_right (by norm_num) hplace.le
  have hsum : (x.exponent - 1 + 1074).toNat * 2 ^ 52 + 2 ^ 53 = (x.exponent + 1074).toNat * 2 ^ 52 + x.mantissa := by
    omega
  rw [ofRatio_eq x.isNegative hnum hden (by omega) hbelow (.inr hreaches) hnear habove
    fun hk => absurd hk (by decide), hsum, magnitude_eq hfinite, ofMagnitude_magnitude]

/-- A quotient in the interval of a double is rounded to it. -/
theorem ofRatio_of_covers (hfinite : x.isFinite = true) (hzero : x.magnitude ≠ 0) {num den : Nat} (hnum : 0 < num)
    (hden : 0 < den) (h : x.interval.Covers (num / den)) : ofRatio x.isNegative num den = x := by
  obtain ⟨hlow, hhigh, hodd⟩ := (covers_iff hzero).1 h
  by_cases hsame : x.exponent = -1074 ∨ (2 : ℚ) ^ (x.exponent + 52) ≤ num / den
  · -- the place of the quotient is that of the double
    obtain ⟨-, hreach⟩ := x.reachBelow_le
    have hplace : (0 : ℚ) < 2 ^ x.exponent := by positivity
    have hpower : (2 : ℚ) ^ (x.exponent + 53) = 2 ^ x.exponent * 2 ^ 53 := two_zpow_add x.exponent 53
    have hmantissa : (x.mantissa : ℚ) + 1 ≤ 2 ^ 53 := by exact_mod_cast x.mantissa_lt
    have htop : (num : ℚ) / den < 2 ^ (x.exponent + 53) := by
      rw [hpower, mul_comm]
      exact hhigh.trans_lt (mul_lt_mul_of_pos_right (by linarith) hplace)
    have hbelow : ((x.mantissa : ℚ) - 1 / 2) * 2 ^ x.exponent ≤ (x.mantissa - x.reachBelow) * 2 ^ x.exponent :=
      mul_le_mul_of_nonneg_right (by linarith) hplace.le
    rw [ofRatio_eq x.isNegative hnum hden (exponent_bounds hfinite).1 htop hsame (hbelow.trans hlow) hhigh
      fun hk => ⟨hbelow.trans_lt (hodd hk).1, (hodd hk).2⟩, magnitude_eq hfinite, ofMagnitude_magnitude]
  · rw [not_or, not_le] at hsame
    exact ofRatio_of_lt_power hfinite hnum hden hlow hsame.1 hsame.2

/-! ### Decimal numbers -/

/-- A number has as many digits as the power of ten that it reaches tells. -/
theorem pow_digitCount {n : Nat} (h : 0 < n) :
    0 < digitCount n ∧ 10 ^ (digitCount n - 1) ≤ n ∧ n < 10 ^ digitCount n := by
  induction n using Nat.strongRecOn with
  | _ n ih =>
    rw [digitCount]
    split
    · rename_i hlt
      exact ⟨one_pos, h, hlt⟩
    · rename_i hge
      obtain ⟨hpos, hlow, hhigh⟩ := ih (n / 10) (by omega) (by omega)
      refine ⟨Nat.succ_pos _, ?_, ?_⟩
      · rw [Nat.add_sub_cancel]
        calc 10 ^ digitCount (n / 10) = 10 ^ (digitCount (n / 10) - 1) * 10 := by
              rw [← Nat.pow_succ, Nat.succ_eq_add_one, Nat.sub_add_cancel hpos]
          _ ≤ n / 10 * 10 := Nat.mul_le_mul_right 10 hlow
          _ ≤ n := Nat.div_mul_le_self n 10
      · rw [Nat.pow_succ]
        omega

-- stated for any exponents, so that no large power is computed
theorem two_pow_lt_ten_pow {a b : Nat} (h : 2 ^ a < 10 ^ b) : (2 : ℚ) ^ a < 10 ^ b := by
  exact_mod_cast h

/-- The interval of a double lies between the least and the greatest number that doubles are made of. -/
theorem bounds_of_covers (hfinite : x.isFinite = true) (hzero : x.magnitude ≠ 0) {r : ℚ} (h : x.interval.Covers r) :
    (10 : ℚ) ^ (-331 : Int) < r ∧ r < 10 ^ (310 : Int) := by
  obtain ⟨hlow, hhigh, -⟩ := (covers_iff hzero).1 h
  obtain ⟨-, hreach⟩ := x.reachBelow_le
  obtain ⟨hleast, hgreatest⟩ := exponent_bounds hfinite
  have hpos : (1 : ℚ) ≤ x.mantissa := by exact_mod_cast mantissa_pos hzero
  have hlt : (x.mantissa : ℚ) + 1 ≤ 2 ^ 53 := by exact_mod_cast x.mantissa_lt
  have hsmall : (2 : ℚ) ^ 1075 < 10 ^ 331 := two_pow_lt_ten_pow (by decide +kernel)
  have hlarge : (2 : ℚ) ^ 1024 < 10 ^ 310 := two_pow_lt_ten_pow (by decide +kernel)
  constructor
  · calc (10 : ℚ) ^ (-331 : Int) = (10 ^ 331)⁻¹ := zpow_neg_coe_of_pos 10 (by norm_num)
      _ < (2 ^ 1075)⁻¹ := by gcongr
      _ = 1 / 2 * 2 ^ (-1074 : Int) := by
        rw [zpow_neg, show (1074 : Int) = (1074 : Nat) from rfl, zpow_natCast, pow_succ 2 1074, mul_inv, mul_comm,
          one_div]
      _ ≤ (x.mantissa - x.reachBelow) * 2 ^ x.exponent :=
        mul_le_mul (by linarith) (zpow_le_zpow_right₀ (by norm_num) hleast) (by positivity) (by linarith)
      _ ≤ r := hlow
  · calc r ≤ (x.mantissa + 1 / 2) * 2 ^ x.exponent := hhigh
      _ ≤ 2 ^ 53 * 2 ^ (971 : Int) :=
        mul_le_mul (by linarith) (zpow_le_zpow_right₀ (by norm_num) hgreatest) (by positivity) (by positivity)
      _ = 2 ^ 1024 := by rw [show (971 : Int) = (971 : Nat) from rfl, zpow_natCast, ← pow_add]
      _ < 10 ^ (310 : Int) := hlarge

/-- A decimal number in the interval of a double is rounded to it. -/
theorem ofDecimal_of_covers (hfinite : x.isFinite = true) (hzero : x.magnitude ≠ 0) {m : Nat} {e : Int} (hm : 0 < m)
    (h : x.interval.Covers (m * 10 ^ e)) : ofDecimal x.isNegative m e = x := by
  obtain ⟨hleast, hgreatest⟩ := bounds_of_covers hfinite hzero h
  obtain ⟨hcount, hlow, hhigh⟩ := pow_digitCount hm
  have hten : (0 : ℚ) < 10 ^ e := by positivity
  have habove : ¬ (digitCount m + e : Int) < -330 := by
    intro hlt
    have hr : (m : ℚ) * 10 ^ e < 10 ^ (digitCount m + e : Int) := by
      rw [zpow_add₀ (by norm_num), zpow_natCast]
      exact mul_lt_mul_of_pos_right (by exact_mod_cast hhigh) hten
    have hplaces : (10 : ℚ) ^ (digitCount m + e : Int) ≤ 10 ^ (-331 : Int) :=
      zpow_le_zpow_right₀ (by norm_num) (by omega)
    exact lt_irrefl _ (hleast.trans (hr.trans_le hplaces))
  have hbelow : ¬ (310 : Int) < digitCount m + e := by
    intro hlt
    have hr : (10 : ℚ) ^ ((digitCount m - 1 : Nat) + e : Int) ≤ m * 10 ^ e := by
      rw [zpow_add₀ (by norm_num), zpow_natCast]
      exact mul_le_mul_of_nonneg_right (by exact_mod_cast hlow) hten.le
    have hplaces : (10 : ℚ) ^ (310 : Int) ≤ 10 ^ ((digitCount m - 1 : Nat) + e : Int) :=
      zpow_le_zpow_right₀ (by norm_num) (by omega)
    exact lt_irrefl _ (hplaces.trans_lt (hr.trans_lt hgreatest))
  rw [ofDecimal, if_neg (by omega), if_neg hbelow]
  by_cases he : 0 ≤ e
  · rw [if_pos he]
    refine ofRatio_of_covers hfinite hzero (by positivity) one_pos ?_
    rw [Nat.cast_mul, Nat.cast_pow, Nat.cast_ofNat, pow_toNat 10 he, Nat.cast_one, div_one]
    exact h
  · rw [if_neg he]
    refine ofRatio_of_covers hfinite hzero hm (by positivity) ?_
    rw [Nat.cast_pow, Nat.cast_ofNat, pow_neg_toNat 10 he, div_inv_eq_mul]
    exact h

end ResultCache.Binary64
