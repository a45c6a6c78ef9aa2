import ResultCache.Text.Hex

/-!
# Bit streams

Bits are packed into bytes from the least significant one on.  Reading takes bits off the front of a stream; writing
is a list of bits that is packed in the end.
-/

namespace ResultCache.Deflate

/-- The eight bits of a byte, least significant first. -/
def byteBits (b : UInt8) : List Bool :=
  [b &&& 1, b &&& 2, b &&& 4, b &&& 8, b &&& 16, b &&& 32, b &&& 64, b &&& 128].map (· != 0)

/-- The number of some bits, least significant first. -/
def bitsValue : List Bool → Nat
  | [] => 0
  | b :: bs => (if b then 1 else 0) + 2 * bitsValue bs

/-- The `count` low bits of a number, least significant first. -/
def lowBits (n : Nat) : Nat → List Bool
  | 0 => []
  | count + 1 => (n % 2 == 1) :: lowBits (n / 2) count

/-- A stream that is read: what is left of the current byte, and the bytes after it. -/
structure BitStream where
  pending : List Bool
  bytes : Bytes

namespace BitStream

def next? (s : BitStream) : Option (Bool × BitStream) :=
  match s.pending, s.bytes with
  | b :: bs, bytes => some (b, ⟨bs, bytes⟩)
  | [], [] => none
  | [], byte :: bytes =>
    match byteBits byte with
    | b :: bs => some (b, ⟨bs, bytes⟩)
    | [] => none

/-- The number of the next `count` bits, least significant first. -/
def take? (s : BitStream) : Nat → Option (Nat × BitStream)
  | 0 => some (0, s)
  | count + 1 =>
    match s.next? with
    | none => none
    | some (b, s) =>
      match s.take? count with
      | none => none
      | some (n, s) => some ((if b then 1 else 0) + 2 * n, s)

/-- The stream from the next whole byte on. -/
def aligned (s : BitStream) : BitStream :=
  ⟨[], s.bytes⟩

end BitStream

/-- Packs bits into bytes; `count` bits with number `n` are waiting, and `acc` holds the bytes so far in reverse. -/
def packFrom (acc : Bytes) (count n : Nat) : List Bool → Bytes
  | [] => (if count = 0 then acc else UInt8.ofNat n :: acc).reverse
  | b :: bs =>
    let n := if b then n + 2 ^ count else n
    if count = 7 then packFrom (UInt8.ofNat n :: acc) 0 0 bs else packFrom acc (count + 1) n bs

/-- Packs bits into bytes; the last byte is filled up with zeros. -/
def pack (bits : List Bool) : Bytes :=
  packFrom [] 0 0 bits

end ResultCache.Deflate
