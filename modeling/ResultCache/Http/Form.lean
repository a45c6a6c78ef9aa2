import ResultCache.Text.Pattern
import ResultCache.Text.Utf8

/-!
# Queries of URIs

A query is a list of names and values: pairs between ampersands, a plus for a blank, two hexadecimal digits after a
percent sign for a byte.  A percent sign without such digits stands for itself, and bytes that are not UTF-8 are
replaced.
-/

namespace ResultCache.Http

/-- A byte that is not part of an escape: a plus stands for a blank. -/
def plainByte (b : UInt8) : UInt8 :=
  if b = '+'.toUInt8 then ' '.toUInt8 else b

/-- The byte of two hexadecimal digits. -/
def escapedByte? (high low : UInt8) : Option UInt8 := do
  let high ← Text.hexValue? (Char.ofNat high.toNat)
  let low ← Text.hexValue? (Char.ofNat low.toNat)
  return UInt8.ofNat (16 * high + low)

/-- The bytes of a part of a query. -/
def percentDecode : Bytes → Bytes
  | b :: high :: low :: rest =>
    if b = '%'.toUInt8 then
      match escapedByte? high low with
      | some c => c :: percentDecode rest
      | none => b :: percentDecode (high :: low :: rest)
    else plainByte b :: percentDecode (high :: low :: rest)
  | bs => bs.map plainByte

/-- The text of a part of a query. -/
def decodePart (cs : List Char) : String :=
  String.ofList (Text.decodeLossy (percentDecode (Text.utf8 (String.ofList cs))))

/-- A part up to the first equals sign, and the part after it. -/
def decodePair (cs : List Char) : String × String :=
  (decodePart (cs.takeWhile (· != '=')), decodePart ((cs.dropWhile (· != '=')).drop 1))

def queryPairs (query : List Char) : List (String × String) :=
  ((Text.splitOn '&' query).filter fun part => !part.isEmpty).map decodePair

/-- The value of a name that is given exactly once. -/
def onlyValue? (name : String) (pairs : List (String × String)) : Option String :=
  match pairs.filter fun p => p.1 == name with
  | [p] => some p.2
  | _ => none

end ResultCache.Http
