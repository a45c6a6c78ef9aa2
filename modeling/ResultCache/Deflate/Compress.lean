import Std.Data.HashMap
import ResultCache.Deflate.Huffman

/-!
# Writing DEFLATE data

One block in the fixed codes.  A match is looked for at the last place where the same three bytes stood, and taken if
it is there; all else is written byte by byte.
-/

namespace ResultCache.Deflate

/-- The bits of a code word, which are written most significant first. -/
def wordBits (word count : Nat) : List Bool :=
  (lowBits word count).reverse

/-- A symbol in the fixed code for bytes and match lengths. -/
def symbolBits (symbol : Nat) : List Bool :=
  if symbol < 144 then wordBits (0x30 + symbol) 8
  else if symbol < 256 then wordBits (0x190 + (symbol - 144)) 9
  else if symbol < 280 then wordBits (symbol - 256) 7
  else wordBits (0xC0 + (symbol - 280)) 8

/-- The last row of a table whose least value is at most `n`, with its place. -/
def tableRow (table : List (Nat × Nat)) (n : Nat) : Nat × Nat × Nat :=
  table.zipIdx.foldl (fun best (row, i) => if row.1 ≤ n then (i, row) else best) (0, 1, 0)

/-- A match as bits. -/
def matchBits (length distance : Nat) : List Bool :=
  let (i, least, bits) := tableRow lengthTable length
  let (j, leastDistance, distanceBits) := tableRow distanceTable distance
  symbolBits (257 + i) ++ lowBits (length - least) bits ++
    wordBits j 5 ++ lowBits (distance - leastDistance) distanceBits

/-- How many bytes at two places are equal, at most `limit`. -/
def commonLength (data : Array UInt8) (i j : Nat) : Nat → Nat
  | 0 => 0
  | limit + 1 =>
    match data[i]?, data[j]? with
    | some a, some b => if a = b then commonLength data (i + 1) (j + 1) limit + 1 else 0
    | _, _ => 0

/-- The three bytes at a place as one number. -/
def tripleAt? (data : Array UInt8) (i : Nat) : Option Nat := do
  let a ← data[i]?
  let b ← data[i + 1]?
  let c ← data[i + 2]?
  return a.toNat + 256 * (b.toNat + 256 * c.toNat)

/-- The bits of the data from place `i` on, in reverse before `acc`.  `seen` tells where three bytes last stood. -/
def deflateFrom (data : Array UInt8) (acc : List Bool) (seen : Std.HashMap Nat Nat) (i : Nat) :
    Nat → List Bool
  | 0 => acc
  | fuel + 1 =>
    match data[i]? with
    | none => acc
    | some b =>
      match tripleAt? data i with
      | none => deflateFrom data ((symbolBits b.toNat).reverse ++ acc) seen (i + 1) fuel
      | some triple =>
        -- only the last place of the three bytes is tried
        let found := match seen[triple]? with
          | some j => if i - j ≤ 32768 then some (i - j, commonLength data i j 258) else none
          | none => none
        let seen := seen.insert triple i
        match found with
        | some (distance, length) =>
          if 3 ≤ length then deflateFrom data ((matchBits length distance).reverse ++ acc) seen (i + length) fuel
          else deflateFrom data ((symbolBits b.toNat).reverse ++ acc) seen (i + 1) fuel
        | none => deflateFrom data ((symbolBits b.toNat).reverse ++ acc) seen (i + 1) fuel

/-- The data as one last block in the fixed codes. -/
def deflate (data : Bytes) : Bytes :=
  let body := deflateFrom data.toArray [false, true, true] {} 0 data.length
  -- 256 ends the block
  pack ((symbolBits 256).reverse ++ body).reverse

end ResultCache.Deflate
