import ResultCache.Binary64.Basic
import ResultCache.Text.Numeral

/-!
# Reading a double

A setting holds a double as digits with an optional sign, point and exponent, or as one of the words `inf`,
`infinity` and `nan` in any case.  The point may stand first or last, but there is at least one digit before the
exponent.
-/

namespace ResultCache.Binary64

open ResultCache.Text (isDigit digitsValue digitsValueFrom)

/-- A signed run of digits that ends the text. -/
private def exponentValue? (cs : List Char) : Option Int :=
  let (negative, digits) := match cs with
    | '-' :: rest => (true, rest)
    | '+' :: rest => (false, rest)
    | _ => (false, cs)
  if digits.isEmpty || !digits.all isDigit then none
  else
    let n : Int := digitsValue digits
    some (if negative then -n else n)

/-- Digits with an optional point and exponent. -/
private def unsigned? (negative : Bool) (cs : List Char) : Option Binary64 :=
  let whole := cs.takeWhile isDigit
  let rest := cs.dropWhile isDigit
  let (places, rest) := match rest with
    | '.' :: more => (more.takeWhile isDigit, more.dropWhile isDigit)
    | _ => ([], rest)
  if whole.isEmpty && places.isEmpty then none
  else
    let m := digitsValueFrom (digitsValue whole) places
    let read (e : Int) : Binary64 := ofDecimal negative m (e - places.length)
    match rest with
    | [] => some (read 0)
    | c :: more => if c = 'e' ∨ c = 'E' then (exponentValue? more).map read else none

/-- The number that a text stands for. -/
def ofText? (cs : List Char) : Option Binary64 :=
  let (negative, body) := match cs with
    | '-' :: rest => (true, rest)
    | '+' :: rest => (false, rest)
    | _ => (false, cs)
  let word := body.map Char.toLower
  if word = "inf".toList ∨ word = "infinity".toList then some (ofMagnitude negative infinityMagnitude)
  else if word = "nan".toList then some (ofMagnitude negative (infinityMagnitude + 2 ^ 51))
  else unsigned? negative body

end ResultCache.Binary64
