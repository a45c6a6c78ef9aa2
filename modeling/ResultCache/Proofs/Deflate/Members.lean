import ResultCache.Deflate.Gzip
import ResultCache.Proofs.Deflate.Matches

/-!
# Gzip members read back

What is compressed is decompressed to the same bytes (`Gzip.decompress?_compress`), at every level, whatever the bytes
are: the one block that is written is read up to its end, and the trailer stands where the packed bits end.
-/

namespace ResultCache

namespace Deflate

/-- The last block is one in the fixed codes, and its symbols are all that is read. -/
theorem inflateBlocks_last {symbols fuel : Nat} {out out' : Array UInt8} {s s₁ s₂ : BitStream}
    (hhead : s.take? 3 = some (3, s₁))
    (hread : inflateSymbols (.ofLengths fixedLengths) (.ofLengths fixedDistances) symbols out s₁ = some (out', s₂)) :
    inflateBlocks symbols (fuel + 1) out s = some (out', s₂) := by
  rw [inflateBlocks, hhead]
  simp only [Nat.reduceDiv, hread, Nat.reduceMod, if_true]

/-- The data is read back from its block, and what follows the block is left. -/
theorem inflate?_deflate (raw rest : Bytes) : inflate? (deflate raw ++ rest) = some (raw, rest) := by
  obtain ⟨body, hbody, hspells⟩ := @spells_deflateFrom raw.toArray {} 0 (fun triple j hj => by simp at hj)
    (Nat.zero_le _) raw.length (by simp) [false, true, true]
  have hblock : deflate raw = pack ([true, true, false] ++ (body ++ symbolBits 256)) := by
    rw [deflate, hbody]
    simp
  obtain ⟨pad, hpad, hbits⟩ := bitsOf_pack ([true, true, false] ++ (body ++ symbolBits 256))
  rw [← hblock] at hbits
  have hs : (⟨[], deflate raw ++ rest⟩ : BitStream).Holds
      ([true, true, false] ++ (body ++ (symbolBits 256 ++ (List.replicate pad false ++ bitsOf rest)))) := by
    have hholds := BitStream.holds_bytes (deflate raw ++ rest)
    rw [bitsOf_append, hbits] at hholds
    simpa only [List.append_assoc] using hholds
  -- the head of the block, its symbols, and less than a byte of zeros
  obtain ⟨s₁, hhead, h₁⟩ := hs.take?
  have hlength : body.length < 8 * (deflate raw ++ rest).length + 1 := by
    have hcount := congrArg List.length hbits
    rw [length_bitsOf] at hcount
    simp only [List.length_append, List.length_cons, List.length_nil, List.length_replicate] at hcount ⊢
    omega
  have hempty : (#[] : Array UInt8).toList = raw.toArray.toList.take 0 := rfl
  obtain ⟨s₂, hread, h₂⟩ := hspells.inflate hempty h₁ hlength
  have hbytes : s₂.bytes = rest := h₂.bytes_eq (by rw [List.length_replicate]; exact hpad)
  have hhead' : (⟨[], deflate raw ++ rest⟩ : BitStream).take? 3 = some (3, s₁) := hhead
  rw [inflate?, inflateBlocks_last hhead' hread, Option.map_some]
  dsimp only
  rw [hbytes]

end Deflate

namespace Gzip

theorem length_littleEndian (n count : Nat) : (littleEndian n count).length = count := by
  induction count generalizing n with
  | zero => rfl
  | succ count ih => rw [littleEndian, List.length_cons, ih]

/-- What is compressed is decompressed to the same bytes. -/
theorem decompress?_compress (level : Nat) (raw : Bytes) : decompress? (compress level raw) = some raw := by
  have hskip : skipHeader? (header level ++ (Deflate.deflate raw ++ trailer raw)) =
      some (Deflate.deflate raw ++ trailer raw) := rfl
  have hlength : (trailer raw).length = 8 := by
    rw [trailer, List.length_append, length_littleEndian, length_littleEndian]
  have htake : (trailer raw).take 8 = trailer raw := List.take_of_length_le (Nat.le_of_eq hlength)
  rw [decompress?, compress, List.append_assoc, hskip]
  simp only [Option.bind_eq_bind, Option.bind_some, Deflate.inflate?_deflate]
  rw [if_neg]
  rintro (hshort | hother)
  · omega
  · exact hother htake

end Gzip

end ResultCache
