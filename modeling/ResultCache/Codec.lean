import ResultCache.Deflate.Gzip
import ResultCache.Json.Printer
import ResultCache.Json.Reader

/-!
# Codecs

A codec packs a value into bytes and unpacks it again; both may fail.  Which values come back as they were is for each
codec to say (`Codec.Restores`).
-/

namespace ResultCache

/-- A way of keeping large values. -/
structure Codec where
  name : String
  compress : Json → Option Bytes
  decompress : Bytes → Option Json

namespace Codec

/-- A value is unpacked again if it is packed at all. -/
def Restores (c : Codec) (v : Json) : Prop :=
  ∀ bs, c.compress v = some bs → c.decompress bs = some v

/-- The value of a document, if it is one. -/
def document? (bs : Bytes) : Option Json :=
  match Json.parse bs with
  | .ok v => some v
  | .error _ => none

/-- Gzip over the compact text. -/
def gzip (level : Nat) : Codec where
  name := "gzip"
  compress v := some (Gzip.compress (min level Gzip.maxLevel) v.bytes)
  decompress bs := (Gzip.decompress? bs).bind document?

def defaultLevel : Nat :=
  6

/-- Runs of equal bytes, each with its length from 1 to 255 before it; `acc` is the result so far in reverse. -/
def runsFrom (acc : Bytes) : Bytes → Bytes
  | [] => acc.reverse
  | b :: bs =>
    match acc with
    | last :: count :: earlier =>
      if last = b ∧ count < 255 then runsFrom (b :: (count + 1) :: earlier) bs else runsFrom (b :: 1 :: acc) bs
    | _ => runsFrom (b :: 1 :: acc) bs

/-- The bytes of some runs; `acc` is the result so far in reverse. -/
def expandFrom? (acc : Bytes) : Bytes → Option Bytes
  | [] => some acc.reverse
  | [_] => none
  | count :: b :: rest => expandFrom? (List.replicate count.toNat b ++ acc) rest

/-- Run lengths over the compact text. -/
def runLength : Codec where
  name := "rle"
  compress v := some (runsFrom [] v.bytes)
  decompress bs := (expandFrom? [] bs).bind document?

/-- A codec that can no longer pack. -/
def neverCompressing (c : Codec) : Codec :=
  { c with compress := fun _ => none }

/-- A codec that can no longer unpack. -/
def neverDecompressing (c : Codec) : Codec :=
  { c with decompress := fun _ => none }

/-- A codec that loses the last bytes of what it packs. -/
def losingLast (c : Codec) (count : Nat) : Codec :=
  { c with compress := fun v => (c.compress v).map fun bs => bs.take (bs.length - count) }

end Codec

end ResultCache
