import ResultCache.Binary64.Basic

/-!
# The fewest digits that read back

Between two neighbours of a double lies an interval of reals that round to it.  For `1, 2, …, 17` digits in turn,
`shortest` looks at the two numbers with that many digits around the double, and takes the first that lies in the
interval: of two such the nearer one, of two equally near the even one.
-/

namespace ResultCache.Binary64

/-- A decimal number `digits · 10 ^ exponent`. -/
structure Decimal where
  digits : Nat
  exponent : Int
deriving DecidableEq

/-- The reals that round to a double, with the double itself, as fractions over one denominator. -/
structure Interval where
  value : Nat
  low : Nat
  high : Nat
  den : Nat
  /-- Whether the ends round to the double too. -/
  closed : Bool

/-- The interval of a finite positive double. -/
def interval (x : Binary64) : Interval :=
  let m := x.mantissa
  let q := x.exponent - 2
  let scale := if 0 ≤ q then 2 ^ q.toNat else 1
  -- below a power of two the doubles stand twice as close
  let step := if m = 2 ^ 52 ∧ -1074 < x.exponent then 1 else 2
  { value := 4 * m * scale
    low := (4 * m - step) * scale
    high := (4 * m + 2) * scale
    den := if 0 ≤ q then 1 else 2 ^ (-q).toNat
    closed := m % 2 == 0 }

/-- The least `j`, from `j` on, for which `num · 10 ^ j` reaches `den`; `num` is already multiplied. -/
private def tensUntil (num den j : Nat) : Nat → Nat
  | 0 => j
  | fuel + 1 => if den ≤ num then j else tensUntil (10 * num) den (j + 1) fuel

/-- The exponent `e` with `10 ^ (e - 1) ≤ num / den < 10 ^ e`, for a quotient above `10 ^ -400`. -/
def decimalExponent (num den : Nat) : Int :=
  if den ≤ num then digitCount (num / den) else 1 - (tensUntil num den 0 400 : Int)

private theorem tensUntil_eq {num den k : Nat} (j : Nat) {fuel : Nat} (hk : k ≤ fuel) (h : den ≤ 10 ^ k * num) :
    ∃ i, tensUntil num den j fuel = j + i ∧ den ≤ 10 ^ i * num := by
  induction fuel generalizing num j k with
  | zero =>
    obtain rfl := Nat.le_zero.1 hk
    exact ⟨0, rfl, h⟩
  | succ fuel ih =>
    rw [tensUntil]
    split
    · rename_i hle
      exact ⟨0, rfl, by rwa [Nat.pow_zero, Nat.one_mul]⟩
    · rename_i hlt
      cases k with
      | zero => exact absurd (by rwa [Nat.pow_zero, Nat.one_mul] at h) hlt
      | succ k =>
        rw [Nat.pow_succ, Nat.mul_assoc] at h
        obtain ⟨i, heq, hi⟩ := ih (j + 1) (Nat.le_of_succ_le_succ hk) h
        exact ⟨i + 1, by omega, by rwa [Nat.pow_succ, Nat.mul_assoc]⟩

/-- What the exponent of a quotient that is not too small counts: digits, or the zeros after the point with the first
other digit. -/
theorem decimalExponent_eq {num den k : Nat} (hk : k ≤ 400) (h : den ≤ 10 ^ k * num) :
    den ≤ num ∧ decimalExponent num den = digitCount (num / den) ∨
      ∃ j : Nat, decimalExponent num den = 1 - (j : Int) ∧ den ≤ 10 ^ j * num := by
  rw [decimalExponent]
  split
  · exact .inl ⟨‹_›, rfl⟩
  · obtain ⟨j, heq, hj⟩ := tensUntil_eq 0 hk h
    exact .inr ⟨j, by rw [heq, Nat.zero_add], hj⟩

namespace Interval

/-- The number of `count` digits that stands for the double, if one of the two around it lies in the interval. -/
def candidate? (i : Interval) (top : Int) (count : Nat) : Option Decimal :=
  let unit := top - count
  let up := if 0 ≤ unit then 1 else 10 ^ (-unit).toNat
  let den := if 0 ≤ unit then i.den * 10 ^ unit.toNat else i.den
  let inside (d : Nat) : Bool :=
    if i.closed then i.low * up ≤ d * den && d * den ≤ i.high * up
    else i.low * up < d * den && d * den < i.high * up
  let d := i.value * up / den
  let twice := 2 * (i.value * up % den)
  match inside d, inside (d + 1) with
  | true, true =>
    if twice < den ∨ (twice = den ∧ d % 2 = 0) then some ⟨d, unit⟩ else some ⟨d + 1, unit⟩
  | true, false => some ⟨d, unit⟩
  | false, true => some ⟨d + 1, unit⟩
  | false, false => none

end Interval

/-- Drops the zeros at the end of the digits. -/
def Decimal.strip (d : Decimal) : Nat → Decimal
  | 0 => d
  | fuel + 1 =>
    if d.digits % 10 = 0 ∧ d.digits ≠ 0 then Decimal.strip ⟨d.digits / 10, d.exponent + 1⟩ fuel else d

/-- The decimal number with the fewest digits that reads back as the finite double, up to sign. -/
def shortest (x : Binary64) : Decimal :=
  if x.magnitude = 0 then ⟨0, 0⟩
  else
    let i := x.interval
    let top := decimalExponent i.value i.den
    match (List.range 17).findSome? fun k => i.candidate? top (k + 1) with
    | some d => d.strip 18
    | none => ⟨x.mantissa, 0⟩

end ResultCache.Binary64
