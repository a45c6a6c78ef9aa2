import Mathlib.Data.List.Basic
import Mathlib.Data.List.TakeWhile
import ResultCache.Json.Printer
import ResultCache.Json.Scan
import ResultCache.Proofs.Json.Encoding

/-!
# Numbers read back

A number that is scanned to the end of some bytes is scanned in the same way when more bytes follow that cannot
belong to it (`scanNumber?_append`).  The digits of a whole number that fits 64 bits are scanned to that number
(`scanNumber?_decimalInt`).  Of the text of a double it is only said what it means to read it back.
-/

namespace ResultCache.Json

open ResultCache.Text

/-- The bytes do not begin with one that could go on with a number. -/
def EndsNumber (rest : Bytes) : Prop :=
  ∀ b ∈ rest.head?, isDigitByte b = false ∧ b ≠ ascii '.' ∧ b ≠ ascii 'e' ∧ b ≠ ascii 'E'

/-- The text of a double is scanned to that double. -/
def FloatReads (x : Binary64) : Prop :=
  scanNumber? (encode (floatText x)) = some (float x, [])

theorem endsNumber_cons {b : UInt8} {rest : Bytes}
    (h : isDigitByte b = false ∧ b ≠ ascii '.' ∧ b ≠ ascii 'e' ∧ b ≠ ascii 'E') : EndsNumber (b :: rest) := by
  intro b' hb'
  rw [List.head?_cons, Option.mem_some_iff] at hb'
  exact hb' ▸ h

/-! ### More bytes after a number -/

theorem scanPlaces?_append {bs more rest : Bytes} {places : Option Bytes} (hrest : EndsNumber rest)
    (h : scanPlaces? bs = some (places, more)) : scanPlaces? (bs ++ rest) = some (places, more ++ rest) := by
  cases bs with
  | nil =>
    simp only [scanPlaces?, Option.some.injEq, Prod.mk.injEq] at h
    obtain ⟨rfl, rfl⟩ := h
    cases rest with
    | nil => rfl
    | cons b rest => exact if_pos (hrest b rfl).2.1
  | cons b bs =>
    obtain ⟨htake, hdrop⟩ := takeWhile_append (fun b hb => (hrest b hb).1) bs
    simp only [scanPlaces?, List.cons_append, htake, hdrop] at h ⊢
    split at h
    · rename_i hpoint
      rw [if_pos hpoint]
      cases h
      rfl
    · rename_i hpoint
      rw [if_neg hpoint]
      split at h
      · cases h
      · rename_i hdigits
        rw [if_neg hdigits]
        cases h
        rfl

theorem scanExponent?_append {bs more rest : Bytes} {exponent : Option Int} (hrest : EndsNumber rest)
    (h : scanExponent? bs = some (exponent, more)) :
    scanExponent? (bs ++ rest) = some (exponent, more ++ rest) := by
  cases bs with
  | nil =>
    simp only [scanExponent?, Option.some.injEq, Prod.mk.injEq] at h
    obtain ⟨rfl, rfl⟩ := h
    cases rest with
    | nil => rfl
    | cons b rest => exact if_pos (hrest b rfl).2.2
  | cons b bs =>
    simp only [scanExponent?, List.cons_append] at h ⊢
    split at h
    · rename_i hletter
      rw [if_pos hletter]
      cases h
      rfl
    · rename_i hletter
      rw [if_neg hletter]
      cases bs with
      | nil => simp at h
      | cons s bs =>
        -- the digits start after the sign, or where there is none
        have digits : ∀ (negative : Bool) (ds : Bytes),
            (if (ds.takeWhile isDigitByte).isEmpty = true then none
              else some (some (if negative = true then -(digitBytesValue 0 (ds.takeWhile isDigitByte) : Int)
                else digitBytesValue 0 (ds.takeWhile isDigitByte)), ds.dropWhile isDigitByte)) =
                some (exponent, more) →
            (if ((ds ++ rest).takeWhile isDigitByte).isEmpty = true then none
              else some (some (if negative = true then -(digitBytesValue 0 ((ds ++ rest).takeWhile isDigitByte) : Int)
                else digitBytesValue 0 ((ds ++ rest).takeWhile isDigitByte)), (ds ++ rest).dropWhile isDigitByte)) =
                some (exponent, more ++ rest) := by
          intro negative ds hds
          obtain ⟨htake, hdrop⟩ := takeWhile_append (fun b hb => (hrest b hb).1) ds
          rw [htake, hdrop]
          split at hds
          · cases hds
          · rename_i hne
            rw [if_neg hne]
            cases hds
            rfl
        simp only [List.cons_append] at h ⊢
        by_cases hminus : s = ascii '-'
        · rw [if_pos hminus] at h ⊢
          exact digits true bs h
        · rw [if_neg hminus] at h ⊢
          by_cases hplus : s = ascii '+'
          · rw [if_pos hplus] at h ⊢
            exact digits false bs h
          · rw [if_neg hplus] at h ⊢
            exact digits false (s :: bs) h

theorem scanUnsigned?_append {negative : Bool} {bs more rest : Bytes} {s : Spelled} (hrest : EndsNumber rest)
    (h : scanUnsigned? negative bs = some (s, more)) :
    scanUnsigned? negative (bs ++ rest) = some (s, more ++ rest) := by
  obtain ⟨htake, hdrop⟩ := takeWhile_append (fun b hb => (hrest b hb).1) bs
  simp only [scanUnsigned?, htake, hdrop] at h ⊢
  split at h
  · cases h
  · rename_i hwhole
    rw [if_neg hwhole]
    split at h
    · cases h
    · rename_i places middle hplaces
      rw [scanPlaces?_append hrest hplaces]
      dsimp only
      split at h
      · cases h
      · rename_i exponent last hexponent
        rw [scanExponent?_append hrest hexponent]
        cases h
        rfl

/-- What is scanned as a number stays so before bytes that cannot belong to it. -/
theorem scanNumber?_append {bs rest : Bytes} {v : Json} (hrest : EndsNumber rest)
    (h : scanNumber? bs = some (v, [])) : scanNumber? (bs ++ rest) = some (v, rest) := by
  have spelled : ∀ s more, scanSpelled? bs = some (s, more) → scanSpelled? (bs ++ rest) = some (s, more ++ rest) := by
    intro s more hs
    cases bs with
    | nil => cases hs
    | cons b bs =>
      simp only [scanSpelled?, List.cons_append] at hs ⊢
      split at hs
      · rename_i hminus
        rw [if_pos hminus]
        exact scanUnsigned?_append hrest hs
      · rename_i hminus
        rw [if_neg hminus]
        exact scanUnsigned?_append hrest hs
  unfold scanNumber? at h ⊢
  split at h
  · cases h
  · rename_i s more hs
    rw [spelled s more hs]
    obtain ⟨v', hv', heq⟩ := Option.map_eq_some_iff.1 h
    cases heq
    exact Option.map_eq_some_iff.2 ⟨v, hv', rfl⟩

/-! ### Whole numbers -/

theorem toNat_lt_of_isDigit {c : Char} (h : isDigit c = true) : 48 ≤ c.toNat ∧ c.toNat ≤ 57 := by
  simpa [isDigit] using h

/-- Digits are encoded to as many digits of the same value. -/
theorem encode_digits {cs : List Char} (h : ∀ c ∈ cs, isDigit c = true) :
    encode cs = cs.map (fun c => UInt8.ofNat c.toNat) ∧ (∀ b ∈ encode cs, isDigitByte b = true) ∧
      ∀ acc, digitBytesValue acc (encode cs) = digitsValueFrom acc cs := by
  induction cs with
  | nil => exact ⟨rfl, by simp, fun _ => rfl⟩
  | cons c cs ih =>
    obtain ⟨heq, hdigit, hvalue⟩ := ih fun d hd => h d (List.mem_cons_of_mem _ hd)
    obtain ⟨hlow, hhigh⟩ := toNat_lt_of_isDigit (h c List.mem_cons_self)
    have hbyte : (UInt8.ofNat c.toNat).toNat = c.toNat := by
      rw [UInt8.toNat_ofNat']
      omega
    rw [encode_cons_ascii (by omega)]
    refine ⟨by rw [heq, List.map_cons], fun b hb => ?_, fun acc => ?_⟩
    · rcases List.mem_cons.1 hb with rfl | hb
      · simp only [isDigitByte, Bool.and_eq_true, decide_eq_true_eq, UInt8.le_iff_toNat_le, hbyte]
        exact ⟨hlow, hhigh⟩
      · exact hdigit b hb
    · rw [digitBytesValue, List.foldl_cons, hbyte]
      exact hvalue _

/-- No number but zero is written with a leading zero. -/
theorem head?_decimal {n : Nat} (h : 0 < n) : (decimal n).head? ≠ some '0' := by
  induction n using Nat.strongRecOn with
  | _ n ih =>
    -- the first digit is that of the number without its last one
    rw [decimal]
    split
    · rename_i hlt
      have : ∀ k : Fin 10, 0 < k.val → [Char.ofNat (48 + k.val)].head? ≠ some '0' := by decide
      exact this ⟨n, hlt⟩ h
    · rw [List.head?_append_of_ne_nil _ (isDigit_decimal _).1]
      exact ih (n / 10) (by omega) (by omega)

/-- Digits are encoded with a leading zero only if there is one. -/
theorem head?_of_encode_digits {cs : List Char} (h : ∀ c ∈ cs, isDigit c = true)
    (hzero : (encode cs).head? = some (ascii '0')) : cs.head? = some '0' := by
  rw [(encode_digits h).1, List.head?_map] at hzero
  obtain ⟨c, hc, hbyte⟩ := Option.map_eq_some_iff.1 hzero
  obtain ⟨hlow, hhigh⟩ := toNat_lt_of_isDigit (h c (List.mem_of_head? hc))
  have hnat := congrArg UInt8.toNat hbyte
  rw [UInt8.toNat_ofNat', Nat.mod_eq_of_lt (by omega)] at hnat
  have hchar : c = '0' := Char.toNat_inj.1 hnat
  rw [hc, hchar]

/-- Digits end where no digit follows. -/
theorem takeWhile_encode_digits {cs : List Char} (h : ∀ c ∈ cs, isDigit c = true) {rest : Bytes}
    (hrest : ∀ b ∈ rest.head?, isDigitByte b = false) :
    (encode cs ++ rest).takeWhile isDigitByte = encode cs ∧ (encode cs ++ rest).dropWhile isDigitByte = rest := by
  obtain ⟨-, hdigits, -⟩ := encode_digits h
  obtain ⟨htake, hdrop⟩ := takeWhile_append hrest (encode cs)
  rw [htake, hdrop, List.takeWhile_eq_self_iff.2 hdigits, List.dropWhile_eq_nil_iff.2 hdigits]
  exact ⟨rfl, rfl⟩

theorem isEmpty_encode_digits {cs : List Char} (h : ∀ c ∈ cs, isDigit c = true) (hne : cs ≠ []) :
    (encode cs).isEmpty = false := by
  rw [(encode_digits h).1, List.isEmpty_eq_false_iff, ne_eq, List.map_eq_nil_iff]
  exact hne

/-- Digits before a point or an exponent: at least one, and no needless zero first. -/
structure LeadsNumber (whole : List Char) : Prop where
  ne_nil : whole ≠ []
  isDigit : ∀ c ∈ whole, isDigit c = true
  of_zero : whole.head? = some '0' → whole.length = 1

theorem leadsNumber_decimal (n : Nat) : LeadsNumber (decimal n) := by
  obtain ⟨hne, hdigits⟩ := isDigit_decimal n
  refine ⟨hne, hdigits, fun hzero => ?_⟩
  rcases Nat.eq_zero_or_pos n with rfl | hpos
  · rw [decimal]
    rfl
  · exact absurd hzero (head?_decimal hpos)

/-- A number without its sign is scanned part by part. -/
theorem scanUnsigned?_eq (negative : Bool) {whole : List Char} (hwhole : LeadsNumber whole) {rest rest' : Bytes}
    (hrest : ∀ b ∈ rest.head?, isDigitByte b = false) {places : Option Bytes}
    (hplaces : scanPlaces? rest = some (places, rest')) {exponent : Option Int}
    (hexponent : scanExponent? rest' = some (exponent, [])) :
    scanUnsigned? negative (encode whole ++ rest) =
      some (⟨negative, digitBytesValue (digitsValue whole) (places.getD []), (places.getD []).length,
        exponent.getD 0, places.isNone && exponent.isNone⟩, []) := by
  obtain ⟨hbytes, -, hvalue⟩ := encode_digits hwhole.isDigit
  obtain ⟨htake, hdrop⟩ := takeWhile_encode_digits hwhole.isDigit hrest
  have hfirst : ((encode whole).isEmpty ||
      ((encode whole).head? == some (ascii '0') && (encode whole).length != 1)) = false := by
    rw [isEmpty_encode_digits hwhole.isDigit hwhole.ne_nil, Bool.false_or, Bool.and_eq_false_imp]
    intro hzero
    have hlength := hwhole.of_zero (head?_of_encode_digits hwhole.isDigit (beq_iff_eq.1 hzero))
    rw [hbytes, List.length_map, hlength]
    rfl
  simp only [scanUnsigned?, htake, hdrop, hfirst, hplaces, hexponent]
  rw [hvalue 0]
  rfl

theorem scanUnsigned?_decimal (negative : Bool) (n : Nat) :
    scanUnsigned? negative (encode (decimal n)) = some (⟨negative, n, 0, 0, true⟩, []) := by
  have hscan := @scanUnsigned?_eq negative _ (leadsNumber_decimal n) [] [] (by simp) none rfl none rfl
  rw [List.append_nil, digitsValue_decimal] at hscan
  exact hscan

/-- A sign before a number is its sign. -/
theorem scanSpelled?_sign {negative : Bool} {cs : List Char} {s : Spelled}
    (h : scanUnsigned? negative (encode cs) = some (s, [])) :
    scanSpelled? (encode ((if negative = true then ['-'] else []) ++ cs)) = some (s, []) := by
  cases negative with
  | true =>
    rw [if_pos rfl, List.singleton_append, encode_cons_ascii (by decide), scanSpelled?, if_pos (by decide)]
    exact h
  | false =>
    rw [if_neg (by decide), List.nil_append]
    cases hbytes : encode cs with
    | nil =>
      rw [hbytes] at h
      cases h
    | cons b bs =>
      have hminus : b ≠ ascii '-' := by
        rintro rfl
        rw [hbytes, scanUnsigned?] at h
        simp [List.takeWhile_cons_of_neg (show ¬ isDigitByte (ascii '-') = true by decide)] at h
      rw [scanSpelled?, if_neg hminus, ← hbytes]
      exact h

theorem value?_plain {m : Nat} (h : m < 2 ^ 64) : Spelled.value? ⟨false, m, 0, 0, true⟩ = some (int m) := by
  rw [Spelled.value?, if_pos (by simpa using h)]

theorem value?_negated {m : Nat} (h₀ : m ≠ 0) (h : m ≤ 2 ^ 63) :
    Spelled.value? ⟨true, m, 0, 0, true⟩ = some (int (-(m : Int))) := by
  rw [Spelled.value?, if_neg (by simp), if_pos (by simpa [h₀] using h)]

/-- The digits of a whole number of 64 bits are scanned to that number. -/
theorem scanNumber?_decimalInt {n : Int} (hlow : -(2 ^ 63) ≤ n) (hhigh : n < 2 ^ 64) :
    scanNumber? (encode (decimalInt n)) = some (int n, []) := by
  have hspelled := scanSpelled?_sign (scanUnsigned?_decimal (decide (n < 0)) n.natAbs)
  rw [scanNumber?, decimalInt]
  by_cases hneg : n < 0
  · rw [decide_eq_true hneg, if_pos rfl] at hspelled
    rw [if_pos hneg, ← List.singleton_append, hspelled]
    dsimp only
    rw [value?_negated (by omega) (by omega), show -(n.natAbs : Int) = n by omega]
    rfl
  · rw [decide_eq_false hneg, if_neg (by decide), List.nil_append] at hspelled
    rw [if_neg hneg, hspelled]
    dsimp only
    rw [value?_plain (by omega), show (n.natAbs : Int) = n by omega]
    rfl

end ResultCache.Json
