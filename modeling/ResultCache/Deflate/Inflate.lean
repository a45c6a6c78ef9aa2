import ResultCache.Deflate.Huffman

/-!
# Reading DEFLATE data

The data is a sequence of blocks, each stored as it is or coded with the fixed codes or with codes of its own.  A
coded block is a sequence of bytes and of matches, which repeat what came some distance before.
-/

namespace ResultCache.Deflate

/-- Appends `length` bytes, each the one `distance` places before. -/
def repeatBack (out : Array UInt8) (distance : Nat) : Nat → Option (Array UInt8)
  | 0 => some out
  | length + 1 =>
    if distance = 0 ∨ out.size < distance then none
    else
      match out[out.size - distance]? with
      | some b => repeatBack (out.push b) distance length
      | none => none

/-- A number from a table of least values and further bits. -/
def tableValue? (table : List (Nat × Nat)) (symbol : Nat) (s : BitStream) : Option (Nat × BitStream) :=
  match table[symbol]? with
  | none => none
  | some (least, bits) => (s.take? bits).map fun (n, s) => (least + n, s)

/-- Reads the rest of a match, whose length begins with a symbol, and repeats what it stands for. -/
def inflateMatch? (distances : Code) (symbol : Nat) (out : Array UInt8) (s : BitStream) :
    Option (Array UInt8 × BitStream) :=
  match tableValue? lengthTable (symbol - 257) s with
  | none => none
  | some (length, s) =>
    match distances.symbol? s with
    | none => none
    | some (symbol, s) =>
      match tableValue? distanceTable symbol s with
      | none => none
      | some (distance, s) => (repeatBack out distance length).map (·, s)

/-- Reads one symbol with what belongs to it; tells whether the block ends with it. -/
def inflateSymbol? (lengths distances : Code) (out : Array UInt8) (s : BitStream) :
    Option (Bool × Array UInt8 × BitStream) :=
  match lengths.symbol? s with
  | none => none
  | some (symbol, s) =>
    if symbol < 256 then some (false, out.push (UInt8.ofNat symbol), s)
    else if symbol = 256 then some (true, out, s)
    else (inflateMatch? distances symbol out s).map (false, ·)

/-- Reads the symbols of a block up to its end.  `fuel` bounds their number. -/
def inflateSymbols (lengths distances : Code) :
    Nat → Array UInt8 → BitStream → Option (Array UInt8 × BitStream)
  | 0, _, _ => none
  | fuel + 1, out, s =>
    match inflateSymbol? lengths distances out s with
    | none => none
    | some (true, r) => some r
    | some (false, out, s) => inflateSymbols lengths distances fuel out s

/-- Reads a stored block: its length, the complement of the length, and the bytes. -/
private def inflateStored (out : Array UInt8) (s : BitStream) : Option (Array UInt8 × BitStream) :=
  match s.bytes with
  | a :: b :: c :: d :: rest =>
    let length := a.toNat + 256 * b.toNat
    if c.toNat + 256 * d.toNat = 65535 - length ∧ length ≤ rest.length then
      some (out ++ (rest.take length).toArray, ⟨[], rest.drop length⟩)
    else none
  | _ => none

/-- The order in which the lengths of the code for code lengths are given. -/
private def lengthOrder : List Nat :=
  [16, 17, 18, 0, 8, 7, 9, 6, 10, 5, 11, 4, 12, 3, 13, 2, 14, 1, 15]

/-- `count` numbers of three bits. -/
private def triples? (s : BitStream) : Nat → Option (List Nat × BitStream)
  | 0 => some ([], s)
  | count + 1 =>
    match s.take? 3 with
    | none => none
    | some (n, s) => (triples? s count).map fun (ns, s) => (n :: ns, s)

/-- Reads word lengths up to `total` of them; `acc` holds those so far in reverse. -/
private def codeLengths? (code : Code) (total : Nat) : Nat → List Nat → BitStream → Option (List Nat × BitStream)
  | 0, _, _ => none
  | fuel + 1, acc, s =>
    if acc.length = total then some (acc.reverse, s)
    else
      match code.symbol? s with
      | none => none
      | some (symbol, s) =>
        if symbol < 16 then codeLengths? code total fuel (symbol :: acc) s
        else
          -- 16 repeats the length before it, 17 and 18 stand for runs of zeros
          let (bits, least) := if symbol = 16 then (2, 3) else if symbol = 17 then (3, 3) else (7, 11)
          let previous := if symbol = 16 then acc.head? else some 0
          match previous, s.take? bits with
          | some l, some (n, s) =>
            let acc := List.replicate (least + n) l ++ acc
            if acc.length ≤ total then codeLengths? code total fuel acc s else none
          | _, _ => none

/-- Reads the codes of a block that has its own. -/
private def ownCodes? (s : BitStream) : Option ((Code × Code) × BitStream) := do
  let (lengthCount, s) ← s.take? 5
  let (distanceCount, s) ← s.take? 5
  let (count, s) ← s.take? 4
  if 29 < lengthCount ∨ 29 < distanceCount then none
  let (given, s) ← triples? s (count + 4)
  let lengthOf (symbol : Nat) : Nat := (lengthOrder.zip given).lookup symbol |>.getD 0
  let code := Code.ofLengths ((List.range 19).map lengthOf)
  if !code.isUsable then none
  let total := lengthCount + 257 + (distanceCount + 1)
  let (all, s) ← codeLengths? code total (total + 1) [] s
  let lengths := Code.ofLengths (all.take (lengthCount + 257))
  let distances := Code.ofLengths (all.drop (lengthCount + 257))
  if !(lengths.isUsable && distances.isUsable) then none
  return ((lengths, distances), s)

/-- Reads blocks up to the last one.  `fuel` bounds their number, and that of the symbols in each. -/
def inflateBlocks (symbols : Nat) : Nat → Array UInt8 → BitStream → Option (Array UInt8 × BitStream)
  | 0, _, _ => none
  | fuel + 1, out, s =>
    match s.take? 3 with
    | none => none
    | some (head, s) =>
      let block :=
        match head / 2 with
        | 0 => inflateStored out s.aligned
        | 1 => inflateSymbols (.ofLengths fixedLengths) (.ofLengths fixedDistances) symbols out s
        | 2 =>
          match ownCodes? s with
          | none => none
          | some ((lengths, distances), s) => inflateSymbols lengths distances symbols out s
        | _ => none
      match block with
      | none => none
      | some (out, s) => if head % 2 = 1 then some (out, s) else inflateBlocks symbols fuel out s

/-- The bytes that some data stands for, and what follows the data. -/
def inflate? (data : Bytes) : Option (Bytes × Bytes) :=
  let bound := 8 * data.length + 1
  (inflateBlocks bound bound #[] ⟨[], data⟩).map fun (out, s) => (out.toList, s.bytes)

end ResultCache.Deflate
