import ResultCache.Json.Printer
import ResultCache.Json.Scan
import ResultCache.Proofs.Json.Encoding

/-!
# Strings read back

The text of a string is scanned to the string (`scanString?_flatMap`).  The bytes of a character that is not escaped
are none of the bytes that mean something to the scanner, and every escape that is written stands for its character.
-/

namespace ResultCache.Json

open ResultCache.Text

/-- A byte that stands for itself in a string. -/
def IsPlain (b : UInt8) : Prop :=
  b ≠ ascii '"' ∧ ¬ b < 32 ∧ b ≠ ascii '\\'

theorem stringBytes_plain {acc rest : Bytes} {b : UInt8} (h : IsPlain b) :
    stringBytes acc (b :: rest) = stringBytes (b :: acc) rest := by
  obtain ⟨hquote, hlow, hslash⟩ := h
  rw [stringBytes.eq_def]
  dsimp only
  rw [if_neg hquote, if_neg hlow, if_pos hslash]

theorem stringBytes_plains {bs : Bytes} (h : ∀ b ∈ bs, IsPlain b) (acc rest : Bytes) :
    stringBytes acc (bs ++ rest) = stringBytes (bs.reverse ++ acc) rest := by
  induction bs generalizing acc with
  | nil => rfl
  | cons b bs ih =>
    rw [List.cons_append, stringBytes_plain (h b List.mem_cons_self), ih fun b hb => h b (List.mem_cons_of_mem _ hb),
      List.reverse_cons, List.append_assoc, List.singleton_append]

/-- An escape of one letter stands for its byte. -/
theorem stringBytes_letter {acc rest : Bytes} {e c : UInt8} (he : e ≠ ascii 'u') (h : letterEscape? e = some c) :
    stringBytes acc (ascii '\\' :: e :: rest) = stringBytes (c :: acc) rest := by
  rw [stringBytes.eq_def]
  dsimp only
  rw [if_neg (by decide), if_neg (by decide), if_neg (by decide), if_pos he, h]

theorem hexDigit_lt {n : Nat} (h : n < 16) : (hexDigit n).toNat < 128 := by
  have : ∀ k : Fin 16, (hexDigit k.val).toNat < 128 := by decide
  exact this ⟨n, h⟩

theorem hexValue?_hexDigit_byte {n : Nat} (h : n < 16) :
    hexValue? (Char.ofNat (UInt8.ofNat (hexDigit n).toNat).toNat) = some n := by
  have hlt := hexDigit_lt h
  rw [UInt8.toNat_ofNat', Nat.mod_eq_of_lt (by omega), Char.ofNat_toNat]
  exact hexValue?_hexDigit h

/-- An escape of four digits, below 256, stands for its character. -/
theorem stringBytes_hex {acc rest : Bytes} {n : Nat} (h : n < 256) :
    stringBytes acc (ascii '\\' :: ascii 'u' :: ascii '0' :: ascii '0' :: UInt8.ofNat (hexDigit (n / 16)).toNat ::
      UInt8.ofNat (hexDigit (n % 16)).toNat :: rest) = stringBytes ((charBytes n).reverse ++ acc) rest := by
  have hzero : hexValue? (Char.ofNat (ascii '0').toNat) = some 0 := by decide
  have hhex : hex4? (ascii '0') (ascii '0') (UInt8.ofNat (hexDigit (n / 16)).toNat)
      (UInt8.ofNat (hexDigit (n % 16)).toNat) = some n := by
    rw [hex4?, hzero, hexValue?_hexDigit_byte (show n / 16 < 16 by omega),
      hexValue?_hexDigit_byte (show n % 16 < 16 by omega)]
    simp only [Option.bind_eq_bind, Option.bind_some, Option.pure_def, Option.some.injEq]
    omega
  rw [stringBytes.eq_def]
  dsimp only
  rw [if_neg (by decide), if_neg (by decide), if_neg (by decide), if_neg (by decide), hhex]
  exact if_pos (.inl (by omega))

theorem charBytes_toNat (c : Char) : charBytes c.toNat = String.utf8EncodeChar c := by
  rw [charBytes, Char.ofNat_toNat, utf8_ofList, encode_cons, encode_nil, List.append_nil]

/-- The bytes of a character that needs no escape stand for themselves. -/
theorem isPlain_of_mem_utf8EncodeChar {c : Char} (hquote : c ≠ '"') (hslash : c ≠ '\\') (hlow : ¬ c.toNat < 32)
    {b : UInt8} (hb : b ∈ String.utf8EncodeChar c) : IsPlain b := by
  -- a byte of an ASCII character is its number, and a byte of any other one is too large
  by_cases hc : c.toNat < 128
  · rw [utf8EncodeChar_ascii hc, List.mem_singleton] at hb
    have hb' : b.toNat = c.toNat := by
      rw [hb, UInt8.toNat_ofNat']
      omega
    have hne : ∀ d : Char, c ≠ d → b.toNat ≠ d.toNat := fun d hd h =>
      hd (Char.toNat_inj.1 (hb'.symm.trans h))
    refine ⟨fun h => hne '"' hquote (h ▸ rfl), fun h => hlow ?_, fun h => hne '\\' hslash (h ▸ rfl)⟩
    rw [UInt8.lt_iff_toNat_lt] at h
    exact hb' ▸ h
  · have hb' := le_of_mem_utf8EncodeChar (Nat.not_lt.1 hc) hb
    refine ⟨fun h => ?_, fun h => ?_, fun h => ?_⟩
    · subst h
      exact absurd hb' (by decide)
    · rw [UInt8.lt_iff_toNat_lt] at h
      exact absurd hb' (Nat.not_le.2 (Nat.lt_trans h (by decide)))
    · subst h
      exact absurd hb' (by decide)

/-- The text of a character is scanned to its bytes. -/
theorem stringBytes_escapeChar (c : Char) (acc rest : Bytes) :
    stringBytes acc (encode (escapeChar c) ++ rest) = stringBytes ((String.utf8EncodeChar c).reverse ++ acc) rest := by
  have letter : ∀ e : Char, e.toNat < 128 → UInt8.ofNat e.toNat ≠ ascii 'u' → c.toNat < 128 →
      letterEscape? (UInt8.ofNat e.toNat) = some (UInt8.ofNat c.toNat) →
      stringBytes acc (encode ['\\', e] ++ rest) = stringBytes ((String.utf8EncodeChar c).reverse ++ acc) rest := by
    intro e he hu hc h
    rw [encode_cons_ascii (by decide), encode_cons_ascii he, utf8EncodeChar_ascii hc]
    exact stringBytes_letter hu h
  unfold escapeChar
  split
  · subst c
    exact letter '"' (by decide) (by decide) (by decide) (by decide)
  split
  · subst c
    exact letter '\\' (by decide) (by decide) (by decide) (by decide)
  split
  · rename_i h
    exact letter 'b' (by decide) (by decide) (by omega) (by rw [h]; decide)
  split
  · rename_i h
    exact letter 'f' (by decide) (by decide) (by omega) (by rw [h]; decide)
  split
  · subst c
    exact letter 'n' (by decide) (by decide) (by decide) (by decide)
  split
  · subst c
    exact letter 'r' (by decide) (by decide) (by decide) (by decide)
  split
  · subst c
    exact letter 't' (by decide) (by decide) (by decide) (by decide)
  split
  · rename_i h
    have hhigh := hexDigit_lt (show c.toNat / 16 < 16 by omega)
    have hlow := hexDigit_lt (show c.toNat % 16 < 16 by omega)
    rw [encode_cons_ascii (by decide), encode_cons_ascii (by decide), encode_cons_ascii (by decide),
      encode_cons_ascii (by decide), encode_cons_ascii hhigh, encode_cons_ascii hlow, ← charBytes_toNat]
    exact stringBytes_hex (by omega)
  · rename_i hquote hslash _ _ _ _ _ hlow
    rw [encode_cons, encode_nil, List.append_nil]
    exact stringBytes_plains (fun b hb => isPlain_of_mem_utf8EncodeChar hquote hslash hlow hb) acc rest

theorem stringBytes_flatMap (cs : List Char) (acc rest : Bytes) :
    stringBytes acc (encode (cs.flatMap escapeChar) ++ ascii '"' :: rest) = some (acc.reverse ++ encode cs, rest) := by
  induction cs generalizing acc with
  | nil =>
    rw [List.flatMap_nil, encode_nil, List.nil_append, List.append_nil, stringBytes.eq_def]
    exact if_pos rfl
  | cons c cs ih =>
    rw [List.flatMap_cons, encode_append, List.append_assoc, stringBytes_escapeChar, ih, encode_cons,
      List.reverse_append, List.reverse_reverse, List.append_assoc]

/-- The text of a string, after its opening quote, is scanned to the string. -/
theorem scanString?_flatMap (s : String) (rest : Bytes) :
    scanString? (encode (s.toList.flatMap escapeChar) ++ ascii '"' :: rest) = some (s, rest) := by
  rw [scanString?, stringBytes_flatMap]
  simp [← utf8_eq_encode]

theorem encode_quoted (s : String) (rest : Bytes) :
    encode (quoted s) ++ rest = ascii '"' :: (encode (s.toList.flatMap escapeChar) ++ ascii '"' :: rest) := by
  rw [quoted, List.cons_append, encode_cons_ascii (by decide), encode_append, encode_cons_ascii (by decide)]
  simp
  rfl

end ResultCache.Json
