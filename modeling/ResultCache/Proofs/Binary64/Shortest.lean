import Mathlib.Data.Nat.Cast.Order.Field
import ResultCache.Proofs.Binary64.Rounding

/-!
# The fewest digits lie in the interval

The digits that are found for a double stand for a number of its interval (`covers_shortest`).  Seventeen digits are
enough: numbers with so many digits stand closer to each other than the interval is wide, so that it holds one of the
two around the double.
-/

namespace ResultCache.Binary64

variable {x : Binary64} {i : Interval}

theorem Interval.covers_of_inside {r : ℚ} (hlow : (i.low : ℚ) < r * i.den) (hhigh : r * i.den < i.high) :
    i.Covers r :=
  ⟨hlow.le, hhigh.le, fun _ => ⟨hlow, hhigh⟩⟩

/-- Whether a decimal number lies in an interval is decided in whole numbers. -/
theorem Interval.covers_iff {up den d : Nat} {unit : ℚ} (hup : 0 < up) (hden : (den : ℚ) = up * (unit * i.den)) :
    (if i.closed then decide (i.low * up ≤ d * den) && decide (d * den ≤ i.high * up)
      else decide (i.low * up < d * den) && decide (d * den < i.high * up)) = true ↔ i.Covers (d * unit) := by
  have hpos : (0 : ℚ) < up := by exact_mod_cast hup
  have hscaled : (d : ℚ) * den = d * unit * i.den * up := by
    rw [hden]
    ring
  have hle : i.low * up ≤ d * den ↔ (i.low : ℚ) ≤ d * unit * i.den := by
    rw [← @Nat.cast_le ℚ, Nat.cast_mul, Nat.cast_mul, hscaled, mul_le_mul_iff_left₀ hpos]
  have hge : d * den ≤ i.high * up ↔ d * unit * i.den ≤ (i.high : ℚ) := by
    rw [← @Nat.cast_le ℚ, Nat.cast_mul, Nat.cast_mul, hscaled, mul_le_mul_iff_left₀ hpos]
  have hlt : i.low * up < d * den ↔ (i.low : ℚ) < d * unit * i.den := by
    rw [← @Nat.cast_lt ℚ, Nat.cast_mul, Nat.cast_mul, hscaled, mul_lt_mul_iff_left₀ hpos]
  have hgt : d * den < i.high * up ↔ d * unit * i.den < (i.high : ℚ) := by
    rw [← @Nat.cast_lt ℚ, Nat.cast_mul, Nat.cast_mul, hscaled, mul_lt_mul_iff_left₀ hpos]
  cases hclosed : i.closed with
  | true =>
    simp only [if_true, Bool.and_eq_true, decide_eq_true_eq, hle, hge]
    exact ⟨fun h => ⟨h.1, h.2, fun hopen => by rw [hclosed] at hopen; cases hopen⟩, fun h => ⟨h.1, h.2⟩⟩
  | false =>
    simp only [Bool.false_eq_true, if_false, Bool.and_eq_true, decide_eq_true_eq, hlt, hgt]
    exact ⟨fun h => covers_of_inside h.1 h.2, fun h => h.inside hclosed⟩

/-- A quotient of whole numbers by a decimal unit. -/
theorem Interval.scaled_den (i : Interval) (unit : Int) :
    (((if 0 ≤ unit then i.den * 10 ^ unit.toNat else i.den : Nat)) : ℚ) =
      (if 0 ≤ unit then 1 else 10 ^ (-unit).toNat : Nat) * (10 ^ unit * i.den) := by
  by_cases h : 0 ≤ unit
  · rw [if_pos h, if_pos h, Nat.cast_mul, Nat.cast_pow, Nat.cast_ofNat, pow_toNat 10 h, Nat.cast_one]
    ring
  · have hinv : (10 ^ unit : ℚ)⁻¹ * 10 ^ unit = 1 := inv_mul_cancel₀ (by positivity)
    rw [if_neg h, if_neg h, Nat.cast_pow, Nat.cast_ofNat, pow_neg_toNat 10 h, ← mul_assoc, hinv, one_mul]

/-- Of two numbers of so many digits around a double, one that lies in the interval is taken, if there is one. -/
theorem Interval.candidate?_spec (i : Interval) (top : Int) (count : Nat) (hden : 0 < i.den) :
    (∀ r, i.candidate? top count = some r → i.Covers (r.digits * 10 ^ r.exponent)) ∧
      (i.candidate? top count = none → ∃ d : Nat, (d : ℚ) * 10 ^ (top - count) * i.den ≤ i.value ∧
        (i.value : ℚ) < (d + 1 : Nat) * 10 ^ (top - count) * i.den ∧
        ¬ i.Covers (d * 10 ^ (top - count)) ∧ ¬ i.Covers ((d + 1 : Nat) * 10 ^ (top - count))) := by
  have hscaled := i.scaled_den (top - count)
  have hup : 0 < if 0 ≤ top - count then 1 else 10 ^ (-(top - count)).toNat := by
    split <;> positivity
  have hden' : 0 < if 0 ≤ top - count then i.den * 10 ^ (top - count).toNat else i.den := by
    split <;> positivity
  simp only [candidate?]
  generalize (if 0 ≤ top - count then 1 else 10 ^ (-(top - count)).toNat) = up at hscaled hup ⊢
  generalize (if 0 ≤ top - count then i.den * 10 ^ (top - count).toNat else i.den) = den at hscaled hden' ⊢
  have hcovers : ∀ d, _ := fun d => @covers_iff i up den d _ hup hscaled
  have hpos : (0 : ℚ) < up := by exact_mod_cast hup
  have hbelow : ((i.value * up / den : Nat) : ℚ) * 10 ^ (top - count) * i.den ≤ i.value := by
    have hle : ((i.value * up / den * den : Nat) : ℚ) ≤ (i.value * up : Nat) :=
      Nat.cast_le.2 (Nat.div_mul_le_self _ _)
    rw [Nat.cast_mul, Nat.cast_mul, hscaled] at hle
    refine le_of_mul_le_mul_right ?_ hpos
    linarith
  have habove : (i.value : ℚ) < (i.value * up / den + 1 : Nat) * 10 ^ (top - count) * i.den := by
    have hlt : ((i.value * up : Nat) : ℚ) < ((i.value * up / den + 1) * den : Nat) :=
      Nat.cast_lt.2 ((Nat.div_lt_iff_lt_mul hden').1 (Nat.lt_succ_self _))
    rw [Nat.cast_mul, Nat.cast_mul _ den, hscaled] at hlt
    refine lt_of_mul_lt_mul_right ?_ hpos.le
    linarith
  split
  · rename_i hd hd'
    refine ⟨fun r hr => ?_, fun h => ?_⟩
    · split at hr
      · cases hr
        exact (hcovers _).1 hd
      · cases hr
        exact (hcovers _).1 hd'
    · split at h <;> cases h
  · rename_i hd hd'
    refine ⟨fun r hr => ?_, fun h => by cases h⟩
    cases hr
    exact (hcovers _).1 hd
  · rename_i hd hd'
    refine ⟨fun r hr => ?_, fun h => by cases h⟩
    cases hr
    exact (hcovers _).1 hd'
  · rename_i hd hd'
    refine ⟨fun r hr => ?_, fun _ => ⟨_, hbelow, habove, fun h => ?_, fun h => ?_⟩⟩
    · cases hr
    · rw [(hcovers _).2 h] at hd
      cases hd
    · rw [(hcovers _).2 h] at hd'
      cases hd'

/-- The first digit of a quotient stands at its decimal exponent or above it. -/
theorem ten_zpow_le {num den k : Nat} (hden : 0 < den) (hk : k ≤ 400) (h : (10 : ℚ) ^ (-(k : Int)) ≤ num / den) :
    (10 : ℚ) ^ (decimalExponent num den - 1) ≤ num / den := by
  have hpos : (0 : ℚ) < den := by exact_mod_cast hden
  have hreaches : ∀ j : Nat, (10 : ℚ) ^ (-(j : Int)) ≤ num / den ↔ den ≤ 10 ^ j * num := by
    intro j
    rw [zpow_neg, zpow_natCast, le_div_iff₀ hpos, inv_mul_le_iff₀ (by positivity)]
    exact_mod_cast Iff.rfl
  rcases decimalExponent_eq hk ((hreaches k).1 h) with ⟨hle, heq⟩ | ⟨j, heq, hj⟩
  · obtain ⟨hcount, hlow, -⟩ := pow_digitCount (Nat.div_pos hle hden)
    have hexponent : (digitCount (num / den) : Int) - 1 = (digitCount (num / den) - 1 : Nat) := by omega
    have hfloor : ((10 ^ (digitCount (num / den) - 1) : Nat) : ℚ) ≤ (num / den : Nat) := Nat.cast_le.2 hlow
    rw [Nat.cast_pow, Nat.cast_ofNat] at hfloor
    rw [heq, hexponent, zpow_natCast]
    exact hfloor.trans Nat.cast_div_le
  · rw [heq, show 1 - (j : Int) - 1 = -j by ring]
    exact (hreaches j).2 hj

/-- Zeros that are dropped are made up for by the exponent. -/
theorem strip_eq (d : Decimal) (fuel : Nat) :
    ((d.strip fuel).digits : ℚ) * 10 ^ (d.strip fuel).exponent = d.digits * 10 ^ d.exponent := by
  induction fuel generalizing d with
  | zero => rfl
  | succ fuel ih =>
    rw [Decimal.strip]
    split
    · rename_i h
      have hdigits : (d.digits : ℚ) = (d.digits / 10 : Nat) * 10 := by
        have : d.digits / 10 * 10 = d.digits := by omega
        exact_mod_cast this.symm
      rw [ih, hdigits, zpow_add₀ (by norm_num), zpow_one]
      ring
    · rfl

theorem value_inside (hzero : x.magnitude ≠ 0) :
    (x.interval.low : ℚ) < x.interval.value ∧ (x.interval.value : ℚ) < x.interval.high := by
  obtain ⟨hden, hvalue, hlow, hhigh⟩ := interval_eq hzero
  obtain ⟨hreach, -⟩ := x.reachBelow_le
  have hpos : (0 : ℚ) < x.interval.den := by exact_mod_cast hden
  have hplace : (0 : ℚ) < 2 ^ x.exponent := by positivity
  rw [hvalue, hlow, hhigh]
  exact ⟨mul_lt_mul_of_pos_right (mul_lt_mul_of_pos_right (by linarith) hplace) hpos,
    mul_lt_mul_of_pos_right (mul_lt_mul_of_pos_right (by linarith) hplace) hpos⟩

/-- The interval of a double is wider than the distance of two numbers of seventeen digits. -/
theorem candidate?_seventeen (hzero : x.magnitude ≠ 0) {top : Int}
    (htop : (10 : ℚ) ^ (top - 1) ≤ x.interval.value / x.interval.den) :
    x.interval.candidate? top 17 ≠ none := by
  intro hnone
  obtain ⟨hden, hvalue, hlow, hhigh⟩ := interval_eq hzero
  obtain ⟨hreach, -⟩ := x.reachBelow_le
  have hpos : (0 : ℚ) < x.interval.den := by exact_mod_cast hden
  have hplace : (0 : ℚ) < 2 ^ x.exponent := by positivity
  obtain ⟨d, hbelow, habove, hout, hout'⟩ := (x.interval.candidate?_spec top 17 hden).2 hnone
  have hmantissa : (x.mantissa : ℚ) + 1 ≤ 2 ^ 53 := by exact_mod_cast x.mantissa_lt
  -- the double lies inside, so that both numbers around it lie outside only if they are as far apart as the ends
  have hinside := value_inside hzero
  have hunit : (10 : ℚ) ^ (top - (17 : Nat)) * 10 ^ 16 ≤ x.mantissa * 2 ^ x.exponent := by
    rw [hvalue, mul_div_assoc, div_self hpos.ne', mul_one] at htop
    refine le_of_eq_of_le ?_ htop
    rw [← zpow_natCast, ← zpow_add₀ (by norm_num)]
    congr 1
    push_cast
    ring
  generalize (10 : ℚ) ^ (top - (17 : Nat)) = unit at hbelow habove hout hout' hunit
  have hd : (d : ℚ) * unit * x.interval.den ≤ x.interval.low := by
    by_contra hlt
    exact hout (Interval.covers_of_inside (not_le.1 hlt) (hbelow.trans_lt hinside.2))
  have hd' : (x.interval.high : ℚ) ≤ (d + 1 : Nat) * unit * x.interval.den := by
    by_contra hlt
    exact hout' (Interval.covers_of_inside (hinside.1.trans habove) (not_le.1 hlt))
  have hwidth : (x.reachBelow + 1 / 2) * 2 ^ x.exponent ≤ unit := by
    refine le_of_mul_le_mul_right ?_ hpos
    rw [hhigh, Nat.cast_add, Nat.cast_one] at hd'
    rw [hlow] at hd
    linarith
  have hnarrow : (x.mantissa : ℚ) < (x.reachBelow + 1 / 2) * 10 ^ 16 := by
    rw [reachBelow]
    split
    · rename_i hpower
      rw [hpower.1]
      norm_num
    · linarith
  have hlt : (x.mantissa : ℚ) * 2 ^ x.exponent < (x.reachBelow + 1 / 2) * 2 ^ x.exponent * 10 ^ 16 := by
    rw [mul_right_comm]
    exact mul_lt_mul_of_pos_right hnarrow hplace
  linarith

/-- The digits of a double stand for a number of its interval. -/
theorem covers_shortest (hfinite : x.isFinite = true) (hzero : x.magnitude ≠ 0) :
    0 < x.shortest.digits ∧ x.interval.Covers (x.shortest.digits * 10 ^ x.shortest.exponent) := by
  obtain ⟨hden, -, -, -⟩ := interval_eq hzero
  obtain ⟨hlow, hhigh⟩ := value_inside hzero
  have hpos : (0 : ℚ) < x.interval.den := by exact_mod_cast hden
  have hown : x.interval.Covers (x.interval.value / x.interval.den) := by
    have hvalue : (x.interval.value / x.interval.den : ℚ) * x.interval.den = x.interval.value :=
      div_mul_cancel₀ _ hpos.ne'
    exact Interval.covers_of_inside (hvalue.symm ▸ hlow) (hvalue.symm ▸ hhigh)
  have hsize : (10 : ℚ) ^ (-((331 : Nat) : Int)) ≤ x.interval.value / x.interval.den :=
    (bounds_of_covers hfinite hzero hown).1.le
  have hcovers : x.interval.Covers (x.shortest.digits * 10 ^ x.shortest.exponent) := by
    rw [shortest, if_neg hzero]
    dsimp only
    cases hfound : (List.range 17).findSome? fun k =>
        x.interval.candidate? (decimalExponent x.interval.value x.interval.den) (k + 1) with
    | some d =>
      obtain ⟨k, -, hk⟩ := List.exists_of_findSome?_eq_some hfound
      dsimp only
      rw [strip_eq]
      exact (x.interval.candidate?_spec _ (k + 1) hden).1 d hk
    | none =>
      have hnone := List.findSome?_eq_none_iff.1 hfound 16 (by simp)
      exact absurd hnone (candidate?_seventeen hzero (ten_zpow_le hden (by decide) hsize))
  refine ⟨Nat.pos_iff_ne_zero.2 fun hdigits => ?_, hcovers⟩
  have hleast := (bounds_of_covers hfinite hzero hcovers).1
  rw [hdigits, Nat.cast_zero, zero_mul] at hleast
  exact absurd hleast (not_lt.2 (by positivity))

/-- The digits of a double are rounded to it. -/
theorem ofDecimal_of_eq_shortest (hfinite : x.isFinite = true) (hzero : x.magnitude ≠ 0) {m : Nat} {e : Int}
    (h : (m : ℚ) * 10 ^ e = x.shortest.digits * 10 ^ x.shortest.exponent) : ofDecimal x.isNegative m e = x := by
  obtain ⟨hdigits, hcovers⟩ := covers_shortest hfinite hzero
  have hm : 0 < m := by
    refine Nat.pos_iff_ne_zero.2 fun hm => ?_
    have hpos : (0 : ℚ) < x.shortest.digits * 10 ^ x.shortest.exponent := by positivity
    rw [← h, hm, Nat.cast_zero, zero_mul] at hpos
    exact lt_irrefl _ hpos
  exact ofDecimal_of_covers hfinite hzero hm (h ▸ hcovers)

end ResultCache.Binary64
