import ResultCache.Deflate.Compress
import ResultCache.Deflate.Inflate
import ResultCache.Digest.Crc32

/-!
# Gzip members

A member is a header, DEFLATE data, and a trailer with the checksum and the length of what the data stands for.
Writing leaves every optional part of the header out; reading takes them all, and ignores what follows the member.
-/

namespace ResultCache.Gzip

open ResultCache.Digest (crc32)

/-- A number in `count` bytes, least significant first. -/
def littleEndian (n : Nat) : Nat → Bytes
  | 0 => []
  | count + 1 => UInt8.ofNat n :: littleEndian (n / 256) count

/-- The number of bytes that stand least significant first. -/
def littleEndianValue : Bytes → Nat
  | [] => 0
  | b :: bs => b.toNat + 256 * littleEndianValue bs

/-- The strongest compression level; the default is 6. -/
def maxLevel : Nat :=
  9

/-- The header byte that tells the strongest and the fastest levels from the others. -/
def levelByte (level : Nat) : UInt8 :=
  if maxLevel ≤ level then 2 else if level ≤ 1 then 4 else 0

/-- The ten bytes before the data. -/
def header (level : Nat) : Bytes :=
  [0x1F, 0x8B, 8, 0, 0, 0, 0, 0, levelByte level, 255]

/-- The eight bytes after the data. -/
def trailer (raw : Bytes) : Bytes :=
  littleEndian (crc32 raw).toNat 4 ++ littleEndian raw.length 4

/-- Some bytes as a member. -/
def compress (level : Nat) (raw : Bytes) : Bytes :=
  header level ++ Deflate.deflate raw ++ trailer raw

/-- The longest name or comment that is read. -/
def maxFieldLength : Nat :=
  65535

/-- The rest after a field that ends with a zero byte, if the flag says that it is there. -/
def skipZeroEnded? (present : Bool) (bs : Bytes) : Option Bytes :=
  if !present then some bs
  else
    let field := bs.takeWhile (· != 0)
    match bs.dropWhile (· != 0) with
    | [] => none
    | _ :: rest => if field.length ≤ maxFieldLength then some rest else none

/-- The rest after a field that begins with its length, if the flag says that it is there. -/
def skipCounted? (present : Bool) (bs : Bytes) : Option Bytes :=
  if !present then some bs
  else
    match bs with
    | a :: b :: rest =>
      let length := a.toNat + 256 * b.toNat
      if length ≤ rest.length then some (rest.drop length) else none
    | _ => none

/-- The data after a header. -/
def skipHeader? (bs : Bytes) : Option Bytes :=
  match bs with
  | 0x1F :: 0x8B :: 8 :: flags :: _ :: _ :: _ :: _ :: _ :: _ :: rest => do
    let flag (bit : UInt8) : Bool := flags &&& bit != 0
    if flag 0xE0 then none
    let rest ← skipCounted? (flag 4) rest
    let rest ← skipZeroEnded? (flag 8) rest
    let rest ← skipZeroEnded? (flag 16) rest
    if !flag 2 then some rest
    else
      match rest with
      | a :: b :: data =>
        let sum := (crc32 (bs.take (bs.length - rest.length))).toNat % 65536
        if a.toNat + 256 * b.toNat = sum then some data else none
      | _ => none
  | _ => none

/-- What the first member stands for. -/
def decompress? (bs : Bytes) : Option Bytes := do
  let data ← skipHeader? bs
  let (raw, rest) ← Deflate.inflate? data
  if rest.length < 8 ∨ rest.take 8 ≠ trailer raw then none else some raw

end ResultCache.Gzip
