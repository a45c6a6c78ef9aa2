import ResultCache.Binary64.Shortest
import ResultCache.Text.Numeral

/-!
# Doubles in JSON text

A double is written with the fewest digits that read back.  From `10 ^ -5` up to but not including `10 ^ 16` the
point is written in its place and has a digit on both sides; outside, one digit stands before the point and an
exponent with its sign follows.  JSON has no text for infinities and NaNs, which become `null`.
-/

namespace ResultCache.Json

open ResultCache.Text (decimal)

/-- Where the notation with a point in its place ends, for the exponent of the first digit. -/
structure PositionalRange where
  least : Int
  bound : Int

/-- Exponents `-5, …, 15` are written with the point in its place. -/
def positionalRange : PositionalRange :=
  ⟨-5, 16⟩

/-- The text of digits that stand for `0.digits · 10 ^ point`. -/
def layOut (range : PositionalRange) (digits : List Char) (point : Int) : List Char :=
  let lead := point - 1
  if range.least ≤ lead ∧ lead < range.bound then
    if point ≤ 0 then '0' :: '.' :: (List.replicate (-point).toNat '0' ++ digits)
    else
      let whole := digits.take point.toNat
      let places := digits.drop point.toNat
      whole ++ List.replicate (point.toNat - whole.length) '0' ++ '.' :: (if places.isEmpty then ['0'] else places)
  else
    let places := digits.drop 1
    digits.take 1 ++ (if places.isEmpty then [] else '.' :: places) ++
      'e' :: (if lead < 0 then '-' else '+') :: decimal lead.natAbs

/-- The text of a double. -/
def floatText (x : Binary64) : List Char :=
  if !x.isFinite then ['n', 'u', 'l', 'l']
  else
    let sign := if x.isNegative then ['-'] else []
    if x.magnitude = 0 then sign ++ ['0', '.', '0']
    else
      let d := x.shortest
      let digits := decimal d.digits
      sign ++ layOut positionalRange digits (digits.length + d.exponent)

end ResultCache.Json
