import ResultCache.Json.Basic
import ResultCache.Text.Utf8

/-!
# Strings and numbers in JSON text

The text of a document is a sequence of bytes.  A string is scanned up to its closing quote with the escapes
replaced, and has to be UTF-8 afterwards; a number is scanned as far as its grammar goes.  Scanning fails on what is
no JSON text; it never says what else was wanted.
-/

namespace ResultCache.Json

open ResultCache.Text

/-- The byte of an ASCII character. -/
abbrev ascii (c : Char) : UInt8 :=
  c.toUInt8

/-- The four bytes that may stand between the parts of a document. -/
def isSpaceByte (b : UInt8) : Bool :=
  b == ascii ' ' || b == ascii '\n' || b == ascii '\r' || b == ascii '\t'

def skipSpace (bs : Bytes) : Bytes :=
  bs.dropWhile isSpaceByte

/-- The rest after a given beginning. -/
def after? : Bytes → Bytes → Option Bytes
  | [], bs => some bs
  | _ :: _, [] => none
  | w :: ws, b :: bs => if w = b then after? ws bs else none

/-- The byte of a one-letter escape. -/
def letterEscape? (b : UInt8) : Option UInt8 :=
  if b = ascii '"' ∨ b = ascii '\\' ∨ b = ascii '/' then some b
  else if b = ascii 'b' then some 8
  else if b = ascii 'f' then some 12
  else if b = ascii 'n' then some 10
  else if b = ascii 'r' then some 13
  else if b = ascii 't' then some 9
  else none

/-- The value of four hexadecimal digits. -/
def hex4? (a b c d : UInt8) : Option Nat := do
  let a ← hexValue? (Char.ofNat a.toNat)
  let b ← hexValue? (Char.ofNat b.toNat)
  let c ← hexValue? (Char.ofNat c.toNat)
  let d ← hexValue? (Char.ofNat d.toNat)
  return ((a * 16 + b) * 16 + c) * 16 + d

/-- The bytes of one character. -/
def charBytes (n : Nat) : Bytes :=
  utf8 (String.ofList [Char.ofNat n])

/-- The bytes of a string up to its closing quote, escapes replaced, and the rest after the quote.  `acc` holds the
bytes already read, in reverse. -/
def stringBytes (acc : Bytes) : Bytes → Option (Bytes × Bytes)
  | [] => none
  | b :: rest =>
    if b = ascii '"' then some (acc.reverse, rest)
    else if b < 32 then none
    else if b ≠ ascii '\\' then stringBytes (b :: acc) rest
    else
      match rest with
      | [] => none
      | e :: rest =>
        if e ≠ ascii 'u' then
          match letterEscape? e with
          | some c => stringBytes (c :: acc) rest
          | none => none
        else
          match rest with
          | h1 :: h2 :: h3 :: h4 :: rest =>
            match hex4? h1 h2 h3 h4 with
            | none => none
            | some n =>
              if n < 0xD800 ∨ 0xDFFF < n then stringBytes ((charBytes n).reverse ++ acc) rest
              else if 0xDC00 ≤ n then none
              else
                match rest with
                | s :: u :: h1 :: h2 :: h3 :: h4 :: rest =>
                  if s ≠ ascii '\\' ∨ u ≠ ascii 'u' then none
                  else
                    match hex4? h1 h2 h3 h4 with
                    | none => none
                    | some m =>
                      if m < 0xDC00 ∨ 0xDFFF < m then none
                      else
                        let c := 0x10000 + (n - 0xD800) * 0x400 + (m - 0xDC00)
                        stringBytes ((charBytes c).reverse ++ acc) rest
                | _ => none
          | _ => none

/-- A string after its opening quote. -/
def scanString? (bs : Bytes) : Option (String × Bytes) :=
  match stringBytes [] bs with
  | none => none
  | some (raw, rest) => (ofUtf8? raw).map (·, rest)

/-- The rest after a string whose content does not matter: the escapes have to be spelled right, but need not stand
for characters, nor the bytes be UTF-8. -/
def skipString? : Bytes → Option Bytes
  | [] => none
  | b :: rest =>
    if b = ascii '"' then some rest
    else if b < 32 then none
    else if b ≠ ascii '\\' then skipString? rest
    else
      match rest with
      | [] => none
      | e :: rest =>
        if e ≠ ascii 'u' then
          match letterEscape? e with
          | some _ => skipString? rest
          | none => none
        else
          match rest with
          | h1 :: h2 :: h3 :: h4 :: rest =>
            match hex4? h1 h2 h3 h4 with
            | none => none
            | some _ => skipString? rest
          | _ => none

def isDigitByte (b : UInt8) : Bool :=
  ascii '0' ≤ b && b ≤ ascii '9'

/-- The value of digits after digits of value `acc`. -/
def digitBytesValue (acc : Nat) (bs : Bytes) : Nat :=
  bs.foldl (fun n b => 10 * n + (b.toNat - 48)) acc

/-- A number as it is spelled: sign, the digits before and after the point as one whole number, how many stand after
the point, the exponent, and whether there was neither point nor exponent. -/
structure Spelled where
  negative : Bool
  digits : Nat
  places : Nat
  exponent : Int
  isWhole : Bool

/-- The digits after a point, at least one; no digits where no point stands. -/
def scanPlaces? (bs : Bytes) : Option (Option Bytes × Bytes) :=
  match bs with
  | [] => some (none, [])
  | b :: rest =>
    if b ≠ ascii '.' then some (none, bs)
    else
      let digits := rest.takeWhile isDigitByte
      if digits.isEmpty then none else some (some digits, rest.dropWhile isDigitByte)

/-- The exponent after its letter, with at least one digit; none where no such letter stands. -/
def scanExponent? (bs : Bytes) : Option (Option Int × Bytes) :=
  match bs with
  | [] => some (none, [])
  | b :: rest =>
    if b ≠ ascii 'e' ∧ b ≠ ascii 'E' then some (none, bs)
    else
      let (negative, rest) := match rest with
        | s :: more =>
          if s = ascii '-' then (true, more) else if s = ascii '+' then (false, more) else (false, rest)
        | [] => (false, [])
      let digits := rest.takeWhile isDigitByte
      if digits.isEmpty then none
      else
        let n : Int := digitBytesValue 0 digits
        some (some (if negative then -n else n), rest.dropWhile isDigitByte)

/-- A number after its sign: no needless leading zero, digits on both sides of a point. -/
def scanUnsigned? (negative : Bool) (bs : Bytes) : Option (Spelled × Bytes) :=
  let whole := bs.takeWhile isDigitByte
  if whole.isEmpty || (whole.head? == some (ascii '0') && whole.length != 1) then none
  else
    match scanPlaces? (bs.dropWhile isDigitByte) with
    | none => none
    | some (places, rest) =>
      match scanExponent? rest with
      | none => none
      | some (exponent, rest) =>
        let fraction := places.getD []
        some ({ negative, digits := digitBytesValue (digitBytesValue 0 whole) fraction, places := fraction.length
                exponent := exponent.getD 0, isWhole := places.isNone && exponent.isNone }, rest)

/-- A number at the head of the bytes, as it is spelled. -/
def scanSpelled? (bs : Bytes) : Option (Spelled × Bytes) :=
  match bs with
  | [] => none
  | b :: rest => if b = ascii '-' then scanUnsigned? true rest else scanUnsigned? false bs

/-- The number meant: exact if it is whole and fits 64 bits, else the nearest double; none if that is infinite.
Minus zero is a double. -/
def Spelled.value? (s : Spelled) : Option Json :=
  if s.isWhole && !s.negative && s.digits < 2 ^ 64 then some (int s.digits)
  else if s.isWhole && s.negative && s.digits != 0 && s.digits ≤ 2 ^ 63 then some (int (-(s.digits : Int)))
  else
    let x := Binary64.ofDecimal s.negative s.digits (s.exponent - s.places)
    if x.isFinite then some (float x) else none

/-- A number at the head of the bytes, with its value. -/
def scanNumber? (bs : Bytes) : Option (Json × Bytes) :=
  match scanSpelled? bs with
  | none => none
  | some (s, rest) => s.value?.map (·, rest)

end ResultCache.Json
