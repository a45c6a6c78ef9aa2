import ResultCache.Proofs.Binary64.Shortest
import ResultCache.Proofs.Json.Numbers

/-!
# Doubles read back

The text of every finite double is scanned to that double (`floatReads_of_isFinite`).  However the digits are laid out,
with the point in its place or with an exponent, they spell a number that equals the one that they stand for
(`spells_layOut`), and this number is rounded to the double.
-/

namespace ResultCache

namespace Text

theorem digitsValue_append (a b : List Char) : digitsValue (a ++ b) = digitsValueFrom (digitsValue a) b :=
  List.foldl_append

theorem digitsValueFrom_zeros (acc n : Nat) : digitsValueFrom acc (List.replicate n '0') = acc * 10 ^ n := by
  induction n generalizing acc with
  | zero => simp [digitsValueFrom]
  | succ n ih =>
    have hcons : digitsValueFrom acc (List.replicate (n + 1) '0') =
        digitsValueFrom (10 * acc + digitValue '0') (List.replicate n '0') := rfl
    have hzero : digitValue '0' = 0 := by decide
    rw [hcons, ih, hzero, Nat.add_zero, Nat.pow_succ]
    ring

theorem isDigit_of_mem_zeros {n : Nat} {c : Char} (h : c ∈ List.replicate n '0') : isDigit c = true := by
  rw [List.eq_of_mem_replicate h]
  decide

end Text

namespace Json

open ResultCache.Text

variable {negative : Bool} {digits : List Char}

/-- Some characters are scanned to a number with the given sign and size that is not whole. -/
def Spells (negative : Bool) (cs : List Char) (r : ℚ) : Prop :=
  ∃ s : Spelled, scanUnsigned? negative (encode cs) = some (s, []) ∧ s.negative = negative ∧ s.isWhole = false ∧
    (s.digits : ℚ) * 10 ^ (s.exponent - s.places) = r

theorem scanPlaces?_digits {places : List Char} (hne : places ≠ []) (h : ∀ c ∈ places, isDigit c = true)
    {rest : Bytes} (hrest : ∀ b ∈ rest.head?, isDigitByte b = false) :
    scanPlaces? (ascii '.' :: (encode places ++ rest)) = some (some (encode places), rest) := by
  obtain ⟨htake, hdrop⟩ := takeWhile_encode_digits h hrest
  rw [scanPlaces?, if_neg (by simp)]
  dsimp only
  rw [htake, hdrop, isEmpty_encode_digits h hne, if_neg (by decide)]

/-- The point stands in its place. -/
theorem spells_positional {whole places : List Char} (hwhole : LeadsNumber whole) (hne : places ≠ [])
    (h : ∀ c ∈ places, isDigit c = true) :
    Spells negative (whole ++ '.' :: places) (digitsValue (whole ++ places) * 10 ^ (-(places.length : Int))) := by
  obtain ⟨hbytes, -, hvalue⟩ := encode_digits h
  have hlength : (encode places).length = places.length := by rw [hbytes, List.length_map]
  have hplaces := @scanPlaces?_digits places hne h [] (by simp)
  have hpoint : ∀ b ∈ (ascii '.' :: (encode places ++ [])).head?, isDigitByte b = false := by
    simp only [List.head?_cons, Option.mem_some_iff, forall_eq']
    decide
  have hscan := @scanUnsigned?_eq negative whole hwhole _ [] hpoint _ hplaces none rfl
  rw [List.append_nil] at hscan
  refine ⟨_, by rw [encode_append, encode_cons_ascii (by decide)]; exact hscan, rfl, rfl, ?_⟩
  simp only [Option.getD_some, Option.getD_none, hvalue, digitsValue_append, hlength, zero_sub]

theorem scanExponent?_decimal (e : Int) :
    scanExponent? (ascii 'e' :: (if e < 0 then ascii '-' else ascii '+') :: encode (decimal e.natAbs)) =
      some (some e, []) := by
  obtain ⟨hne, h⟩ := isDigit_decimal e.natAbs
  obtain ⟨-, -, hvalue⟩ := encode_digits h
  obtain ⟨htake, hdrop⟩ := @takeWhile_encode_digits _ h [] (by simp)
  rw [List.append_nil] at htake hdrop
  have hempty : ¬ (encode (decimal e.natAbs)).isEmpty = true := by
    rw [isEmpty_encode_digits h hne]
    decide
  have hsum : digitBytesValue 0 (encode (decimal e.natAbs)) = e.natAbs := by
    rw [hvalue 0]
    exact digitsValue_decimal _
  rw [scanExponent?, if_neg (by simp)]
  by_cases hneg : e < 0
  · simp only [if_pos hneg, if_true, htake, hdrop, hsum, if_neg hempty]
    rw [show -(e.natAbs : Int) = e by omega]
  · have hplus : ascii '+' ≠ ascii '-' := by decide
    simp only [if_neg hneg, if_neg hplus, if_true, htake, hdrop, hsum, if_neg hempty, Bool.false_eq_true, if_false]
    rw [show (e.natAbs : Int) = e by omega]

/-- One digit stands before the point, and an exponent follows. -/
theorem spells_scientific {c : Char} {places : List Char} (hc : isDigit c = true)
    (h : ∀ c ∈ places, isDigit c = true) (lead : Int) :
    Spells negative ([c] ++ (if places.isEmpty then [] else '.' :: places) ++
        'e' :: (if lead < 0 then '-' else '+') :: decimal lead.natAbs)
      (digitsValue (c :: places) * 10 ^ (lead - places.length)) := by
  obtain ⟨hplaces, -, hvalue⟩ := encode_digits h
  have hlength : (encode places).length = places.length := by rw [hplaces, List.length_map]
  have hwhole : LeadsNumber [c] := by
    refine ⟨by simp, fun d hd => ?_, fun _ => rfl⟩
    rw [List.mem_singleton.1 hd]
    exact hc
  obtain ⟨tail, htail⟩ : ∃ tail, 'e' :: (if lead < 0 then '-' else '+') :: decimal lead.natAbs = tail := ⟨_, rfl⟩
  have hencode : encode tail =
      ascii 'e' :: (if lead < 0 then ascii '-' else ascii '+') :: encode (decimal lead.natAbs) := by
    rw [← htail, encode_cons_ascii (by decide)]
    split <;> rw [encode_cons_ascii (by decide)] <;> rfl
  have hexponent : scanExponent? (encode tail) = some (some lead, []) := hencode ▸ scanExponent?_decimal lead
  have hletter : ∀ b ∈ (encode tail).head?, isDigitByte b = false := by
    rw [hencode]
    simp only [List.head?_cons, Option.mem_some_iff, forall_eq']
    decide
  rw [htail]
  cases places with
  | nil =>
    have hnoPoint : scanPlaces? (encode tail) = some (none, encode tail) := by
      rw [hencode, scanPlaces?, if_pos (by decide)]
    have hscan := @scanUnsigned?_eq negative _ hwhole _ _ hletter none hnoPoint _ hexponent
    exact ⟨_, by rw [List.isEmpty_nil, if_pos rfl, List.append_nil, encode_append]; exact hscan, rfl, rfl, rfl⟩
  | cons d ds =>
    have hpoint : ∀ b ∈ (ascii '.' :: (encode (d :: ds) ++ encode tail)).head?, isDigitByte b = false := by
      simp only [List.head?_cons, Option.mem_some_iff, forall_eq']
      decide
    have hplaces := scanPlaces?_digits (List.cons_ne_nil d ds) h hletter
    have hscan := @scanUnsigned?_eq negative _ hwhole _ _ hpoint _ hplaces _ hexponent
    have hbytes : encode ([c] ++ (if (d :: ds).isEmpty then [] else '.' :: d :: ds) ++ tail) =
        encode [c] ++ ascii '.' :: (encode (d :: ds) ++ encode tail) := by
      rw [List.isEmpty_cons, if_neg (by decide), encode_append, encode_append, encode_cons_ascii (c := '.') (by decide),
        List.append_assoc]
      rfl
    refine ⟨_, by rw [hbytes]; exact hscan, rfl, rfl, ?_⟩
    simp only [Option.getD_some, hvalue, hlength]
    rfl

/-- Zeros stand between the point and the digits. -/
theorem spells_behind (hne : digits ≠ []) (h : ∀ c ∈ digits, isDigit c = true) (n : Nat) :
    Spells negative ('0' :: '.' :: (List.replicate n '0' ++ digits))
      (digitsValue digits * 10 ^ (-(n : Int) - digits.length)) := by
  have hplaces : ∀ c ∈ List.replicate n '0' ++ digits, isDigit c = true := fun c hc =>
    (List.mem_append.1 hc).elim isDigit_of_mem_zeros (h c)
  have hvalue : digitsValue (['0'] ++ (List.replicate n '0' ++ digits)) = digitsValue digits := by
    have hzero : digitsValue ['0'] = 0 := by decide
    rw [← List.append_assoc, digitsValue_append, digitsValue_append, digitsValueFrom_zeros, hzero, Nat.zero_mul]
    rfl
  have hzero : LeadsNumber ['0'] := ⟨by simp, fun c hc => @isDigit_of_mem_zeros 1 c hc, fun _ => rfl⟩
  have hspells := @spells_positional negative ['0'] _ hzero (by simp [hne]) hplaces
  rw [hvalue, List.length_append, List.length_replicate] at hspells
  rw [show -(n : Int) - digits.length = -((n + digits.length : Nat) : Int) by omega]
  exact hspells

/-- Zeros stand between the digits and the point, and one behind it. -/
theorem spells_before {n : Nat} (hwhole : LeadsNumber (digits ++ List.replicate n '0')) :
    Spells negative (digits ++ List.replicate n '0' ++ ['.', '0']) (digitsValue digits * 10 ^ (n : Int)) := by
  have hvalue : digitsValue (digits ++ List.replicate n '0' ++ ['0']) = digitsValue digits * 10 ^ n * 10 := by
    rw [digitsValue_append, digitsValue_append, digitsValueFrom_zeros]
    exact digitsValueFrom_zeros _ 1
  have hspells := @spells_positional negative _ ['0'] hwhole (by simp) fun c hc => @isDigit_of_mem_zeros 1 c hc
  have htenth : (10 : ℚ) * 10 ^ (-((['0'].length : Nat) : Int)) = 1 := by norm_num
  rw [hvalue, Nat.cast_mul, Nat.cast_mul, Nat.cast_ofNat, mul_assoc _ (10 : ℚ), htenth, mul_one, Nat.cast_pow,
    Nat.cast_ofNat, ← zpow_natCast] at hspells
  exact hspells

/-- The point stands between the digits. -/
theorem spells_between {n : Nat} (hwhole : LeadsNumber (digits.take n)) (h : ∀ c ∈ digits, isDigit c = true)
    (hn : n < digits.length) :
    Spells negative (digits.take n ++ '.' :: digits.drop n)
      (digitsValue digits * 10 ^ ((n : Int) - digits.length)) := by
  have hne : digits.drop n ≠ [] := by
    rw [ne_eq, List.drop_eq_nil_iff]
    omega
  have hspells := @spells_positional negative _ _ hwhole hne fun c hc => h c (List.mem_of_mem_drop hc)
  rw [List.take_append_drop, List.length_drop] at hspells
  rw [show (n : Int) - digits.length = -((digits.length - n : Nat) : Int) by omega]
  exact hspells

/-- However digits are laid out, they spell the number that they stand for. -/
theorem spells_layOut (range : PositionalRange) (hne : digits ≠ []) (h : ∀ c ∈ digits, isDigit c = true)
    (hlead : digits.head? ≠ some '0') (point : Int) :
    Spells negative (layOut range digits point) (digitsValue digits * 10 ^ (point - digits.length)) := by
  rw [layOut]
  dsimp only
  split
  · split
    · rename_i hpoint
      rw [show point - digits.length = -((-point).toNat : Int) - digits.length by omega]
      exact spells_behind hne h _
    · rename_i hpoint
      rw [show point = (point.toNat : Int) by omega, Int.toNat_natCast]
      have hpos : 0 < point.toNat := by omega
      generalize point.toNat = n at hpos ⊢
      by_cases hlength : digits.length ≤ n
      · rw [List.take_of_length_le hlength, List.drop_of_length_le hlength, List.isEmpty_nil, if_pos rfl,
          show (n : Int) - digits.length = (n - digits.length : Nat) by omega]
        refine spells_before ⟨by simp [hne], fun c hc => ?_, fun hzero => absurd hzero ?_⟩
        · exact (List.mem_append.1 hc).elim (h c) isDigit_of_mem_zeros
        · rwa [List.head?_append_of_ne_nil _ hne]
      · have hplaces : (digits.drop n).isEmpty = false := by
          rw [List.isEmpty_eq_false_iff, ne_eq, List.drop_eq_nil_iff]
          exact hlength
        have hzeros : n - (digits.take n).length = 0 := by
          rw [List.length_take]
          omega
        rw [hplaces, if_neg (by decide), hzeros, List.replicate_zero, List.append_nil]
        refine spells_between ⟨by simp [hne]; omega, fun c hc => h c (List.mem_of_mem_take hc), fun hzero =>
          absurd hzero ?_⟩ h (by omega)
        rwa [List.head?_take, if_neg (by omega)]
  · -- the first digit stands before the point
    cases digits with
    | nil => exact absurd rfl hne
    | cons d ds =>
      have hspells := @spells_scientific negative d ds (h d List.mem_cons_self)
        (fun c hc => h c (List.mem_cons_of_mem _ hc)) (point - 1)
      rw [show point - 1 - (ds.length : Int) = point - ((d :: ds).length : Int) by rw [List.length_cons]; omega]
        at hspells
      exact hspells

theorem value?_of_not_isWhole {s : Spelled} (h : s.isWhole = false) :
    s.value? = if (Binary64.ofDecimal s.negative s.digits (s.exponent - s.places)).isFinite then
      some (float (Binary64.ofDecimal s.negative s.digits (s.exponent - s.places))) else none := by
  rw [Spelled.value?, h, Bool.false_and, Bool.false_and, if_neg (by decide), Bool.false_and, Bool.false_and,
    Bool.false_and, if_neg (by decide)]

/-- The text of every finite double is scanned to it. -/
theorem floatReads_of_isFinite {x : Binary64} (hfinite : x.isFinite = true) : FloatReads x := by
  -- with its sign the text is scanned to what it spells, and this is rounded
  have reads : ∀ {cs : List Char} {s : Spelled}, scanUnsigned? x.isNegative (encode cs) = some (s, []) →
      s.isWhole = false → Binary64.ofDecimal s.negative s.digits (s.exponent - s.places) = x →
      scanNumber? (encode ((if x.isNegative = true then ['-'] else []) ++ cs)) = some (float x, []) := by
    intro cs s hscan hwhole hrounded
    rw [scanNumber?, scanSpelled?_sign hscan]
    dsimp only
    rw [value?_of_not_isWhole hwhole, hrounded, if_pos hfinite]
    rfl
  rw [FloatReads, floatText, if_neg (by simp [hfinite])]
  dsimp only
  by_cases hzero : x.magnitude = 0
  · rw [if_pos hzero]
    have hscan : scanUnsigned? x.isNegative (encode ['0', '.', '0']) = some (⟨x.isNegative, 0, 1, 0, false⟩, []) := rfl
    refine reads hscan rfl ?_
    have hsame := Binary64.ofMagnitude_magnitude x
    rw [hzero] at hsame
    rw [Binary64.ofDecimal, if_pos (.inl rfl)]
    exact hsame
  · rw [if_neg hzero]
    obtain ⟨hpos, -⟩ := Binary64.covers_shortest hfinite hzero
    obtain ⟨hne, hdigits⟩ := isDigit_decimal x.shortest.digits
    obtain ⟨s, hscan, hnegative, hwhole, hvalue⟩ :=
      @spells_layOut x.isNegative _ positionalRange hne hdigits (head?_decimal hpos)
        ((decimal x.shortest.digits).length + x.shortest.exponent)
    refine reads hscan hwhole ?_
    rw [digitsValue_decimal, add_sub_cancel_left] at hvalue
    rw [hnegative]
    exact Binary64.ofDecimal_of_eq_shortest hfinite hzero hvalue

end Json

end ResultCache
