import ResultCache.Operators

/-!
# Doubles as words

A double is kept as its 64 bits, so that equality tells every two of them apart.  The value of a finite one is
`mantissa · 2 ^ exponent` up to sign.  `ofRatio` rounds an exact quotient to the nearest double, a half to the even
neighbour, and `rank` numbers the doubles in their total order, in which `-0.0` stands before `0.0`.
-/

namespace ResultCache

/-- A double-precision number as its word. -/
structure Binary64 where
  bits : UInt64
deriving DecidableEq, Inhabited

namespace Binary64

/-- The word of a number that the processor computed. -/
def ofFloat (x : Float) : Binary64 :=
  ⟨x.toBits⟩

/-- The number, for the processor to compute with. -/
def toFloat (x : Binary64) : Float :=
  Float.ofBits x.bits

/-- Whether the sign bit is set. -/
def isNegative (x : Binary64) : Bool :=
  2 ^ 63 ≤ x.bits.toNat

/-- The word without its sign bit. -/
def magnitude (x : Binary64) : Nat :=
  x.bits.toNat % 2 ^ 63

/-- The magnitude of infinity; larger ones are those of NaNs. -/
def infinityMagnitude : Nat :=
  0x7FF * 2 ^ 52

def isFinite (x : Binary64) : Bool :=
  x.magnitude < infinityMagnitude

def isInfinite (x : Binary64) : Bool :=
  x.magnitude == infinityMagnitude

def isNaN (x : Binary64) : Bool :=
  infinityMagnitude < x.magnitude

/-- The number with the given sign and magnitude. -/
def ofMagnitude (negative : Bool) (magnitude : Nat) : Binary64 :=
  ⟨UInt64.ofNat (magnitude + if negative then 2 ^ 63 else 0)⟩

/-- The integer factor of a finite number. -/
def mantissa (x : Binary64) : Nat :=
  if x.magnitude < 2 ^ 52 then x.magnitude else x.magnitude % 2 ^ 52 + 2 ^ 52

/-- The power of two of a finite number. -/
def exponent (x : Binary64) : Int :=
  if x.magnitude < 2 ^ 52 then -1074 else (x.magnitude / 2 ^ 52 : Nat) - 1075

/-- The place in the total order, in which the negative words come first and in reverse. -/
def rank (x : Binary64) : Int :=
  if x.isNegative then -1 - (x.magnitude : Int) else x.magnitude

/-- The rank of the first word in the total order. -/
def leastRank : Int :=
  -(2 ^ 63)

/-- No double stands before the first word. -/
theorem leastRank_le (x : Binary64) : leastRank ≤ x.rank := by
  have h : x.magnitude < 2 ^ 63 := Nat.mod_lt _ (by decide)
  rw [leastRank, rank]
  split <;> omega

/-- Only one double has a given rank. -/
theorem rank_injective {x y : Binary64} (h : x.rank = y.rank) : x = y := by
  obtain ⟨a⟩ := x
  obtain ⟨b⟩ := y
  have ha : a.toNat < 2 ^ 64 := a.toNat_lt
  have hb : b.toNat < 2 ^ 64 := b.toNat_lt
  congr 1
  apply UInt64.toNat.inj
  simp only [rank, isNegative, magnitude, decide_eq_true_eq] at h
  split at h <;> split at h <;> omega

/-- The quotient rounded to a whole number, a half to the even one. -/
def roundHalfEven (num den : Nat) : Nat :=
  let q := num / den
  let r := num % den
  if den < 2 * r ∨ (2 * r = den ∧ q % 2 = 1) then q + 1 else q

/-- The double nearest to `num / den`, infinity from half a step above the largest one on. -/
def ofRatio (negative : Bool) (num den : Nat) : Binary64 :=
  if num = 0 then ofMagnitude negative 0
  else
    -- the logarithms tell the leading power of two of the quotient, or the one above it
    let guess : Int := (Nat.log2 num : Int) - Nat.log2 den
    let below : Bool :=
      if 0 ≤ guess then num < den * 2 ^ guess.toNat else num * 2 ^ (-guess).toNat < den
    let top : Int := if below then guess - 1 else guess
    -- the last place of the mantissa, which is not lower than that of the subnormal doubles
    let q : Int := max (top - 52) (-1074)
    let m := if 0 ≤ q then roundHalfEven num (den * 2 ^ q.toNat) else roundHalfEven (num * 2 ^ (-q).toNat) den
    ofMagnitude negative (min ((q + 1074).toNat * 2 ^ 52 + m) infinityMagnitude)

/-- The count of decimal digits of a number; that of zero is one. -/
def digitCount (n : Nat) : Nat :=
  if n < 10 then 1 else digitCount (n / 10) + 1
termination_by n
decreasing_by omega

/-- The double nearest to `m · 10 ^ e`. -/
def ofDecimal (negative : Bool) (m : Nat) (e : Int) : Binary64 :=
  let places : Int := digitCount m + e
  if m = 0 ∨ places < -330 then ofMagnitude negative 0
  else if 310 < places then ofMagnitude negative infinityMagnitude
  else if 0 ≤ e then ofRatio negative (m * 10 ^ e.toNat) 1
  else ofRatio negative m (10 ^ (-e).toNat)

end Binary64

end ResultCache
