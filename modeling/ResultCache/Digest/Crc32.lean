import ResultCache.Text.Hex

/-!
# The CRC-32 checksum

The remainder of the message by the polynomial `0xEDB88320`, least significant bit first, with the remainder
inverted before and after.
-/

namespace ResultCache.Digest

/-- Eight division steps, one for each bit of a byte that was added to the remainder. -/
private def crcSteps (c : UInt32) : Nat → UInt32
  | 0 => c
  | n + 1 => crcSteps (if c &&& 1 = 1 then (c >>> 1) ^^^ 0xEDB88320 else c >>> 1) n

def crc32 (message : Bytes) : UInt32 :=
  (message.foldl (fun c b => crcSteps (c ^^^ b.toUInt32) 8) 0xFFFFFFFF) ^^^ 0xFFFFFFFF

end ResultCache.Digest
