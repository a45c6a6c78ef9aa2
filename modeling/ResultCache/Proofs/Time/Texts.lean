import Mathlib.Data.List.TakeWhile
import ResultCache.Proofs.Time.Dates
import ResultCache.Time.Clock
import ResultCache.Time.Rfc3339

/-!
# Instants read back

The text of an instant of the calendar, not in a leap second, is read to that instant (`readInstant?_instantText`).
The clock shows no other instants.
-/

namespace ResultCache

namespace Time

open ResultCache.Text

/-! ### Padded numbers -/

theorem digitsValueFrom_replicate (count : Nat) (cs : List Char) :
    digitsValueFrom 0 (List.replicate count '0' ++ cs) = digitsValueFrom 0 cs := by
  induction count with
  | zero => rfl
  | succ count ih => exact ih

theorem length_decimal_le {n width : Nat} (hwidth : 1 ≤ width) (h : n < 10 ^ width) :
    (decimal n).length ≤ width := by
  induction width generalizing n with
  | zero => omega
  | succ width ih =>
    rw [decimal]
    split
    · simp
    · rename_i hlarge
      have hpos : 1 ≤ width := by
        rcases Nat.eq_zero_or_pos width with rfl | hpos
        · omega
        · exact hpos
      have hlt : n / 10 < 10 ^ width := by
        rw [Nat.div_lt_iff_lt_mul (by decide)]
        rwa [Nat.pow_succ] at h
      have := ih hpos hlt
      rw [List.length_append, List.length_singleton]
      omega

theorem padded_digits (width n : Nat) :
    padded width n ≠ [] ∧ (∀ c ∈ padded width n, isDigit c = true) ∧ digitsValue (padded width n) = n := by
  obtain ⟨hne, hdigits⟩ := isDigit_decimal n
  refine ⟨by simp [padded, hne], fun c hc => ?_, ?_⟩
  · rcases List.mem_append.1 hc with hc | hc
    · rw [List.eq_of_mem_replicate hc]
      decide
    · exact hdigits c hc
  · exact (digitsValueFrom_replicate _ _).trans (digitsValue_decimal n)

theorem length_padded {width n : Nat} (hwidth : 1 ≤ width) (h : n < 10 ^ width) :
    (padded width n).length = width := by
  have := length_decimal_le hwidth h
  rw [padded, List.length_append, List.length_replicate]
  omega

/-! ### Reading numbers and separators -/

/-- No blanks are dropped before digits. -/
theorem dropWhile_digits {ds : List Char} (hne : ds ≠ []) (hds : ∀ c ∈ ds, isDigit c = true) (rest : List Char) :
    (ds ++ rest).dropWhile isBlank = ds ++ rest := by
  cases ds with
  | nil => exact absurd rfl hne
  | cons c ds =>
    rw [List.cons_append]
    exact List.dropWhile_cons_of_neg (by simp [isBlank_of_isDigit (hds c List.mem_cons_self)])

/-- Digits are read to their value, up to the width or to what is no digit. -/
theorem number?_digits {ds : List Char} {n : Nat} (hne : ds ≠ []) (hds : ∀ c ∈ ds, isDigit c = true)
    (hn : digitsValue ds = n) {width : Nat} {rest : List Char}
    (h : ds.length = width ∨ ds.length ≤ width ∧ ∀ c ∈ rest.head?, isDigit c = false) :
    number? width (ds ++ rest) = some (n, rest) := by
  have hself : ds.takeWhile isDigit = ds := List.takeWhile_eq_self_iff.2 hds
  have htake : ((ds ++ rest).take width).takeWhile isDigit = ds := by
    rcases h with rfl | ⟨hle, hrest⟩
    · rw [List.take_left' rfl, hself]
    · obtain ⟨k, rfl⟩ : ∃ k, width = ds.length + k := ⟨width - ds.length, by omega⟩
      have hhead : ∀ c ∈ (rest.take k).head?, isDigit c = false := by
        intro c hc
        rw [List.head?_take] at hc
        split at hc
        · cases hc
        · exact hrest c hc
      rw [List.take_length_add_append, (takeWhile_append hhead ds).1, hself]
  rw [number?, htake]
  simp [hne, hn]

theorem twoDigits?_padded {n : Nat} (h : n < 100) (rest : List Char) :
    twoDigits? (padded 2 n ++ rest) = some (n, rest) := by
  obtain ⟨hne, hdigits, hvalue⟩ := padded_digits 2 n
  rw [twoDigits?, dropWhile_digits hne hdigits, number?_digits hne hdigits hvalue (.inl (length_padded (by decide) h))]

theorem separator?_cons {c : Char} (h : isBlank c = false) (rest : List Char) :
    separator? c (c :: rest) = some rest := by
  rw [separator?, List.dropWhile_cons_of_neg (by simp [h])]
  exact if_pos rfl

theorem year?_yearText (y : Int) (rest : List Char) :
    year? (yearText y ++ '-' :: rest) = some (y, '-' :: rest) := by
  rw [yearText]
  split
  · rename_i hrange
    obtain ⟨hne, hdigits, hvalue⟩ := padded_digits 4 y.toNat
    have hlength : (padded 4 y.toNat).length = 4 := length_padded (by decide) (by omega)
    have hnumber : number? 4 (padded 4 y.toNat ++ '-' :: rest) = some (y.toNat, '-' :: rest) :=
      number?_digits hne hdigits hvalue (.inl hlength)
    -- without a sign four digits are read, whatever follows
    have hnosign : ∀ c cs, padded 4 y.toNat ++ '-' :: rest = c :: cs → c ≠ '-' ∧ c ≠ '+' := by
      intro c cs heq
      have hc : isDigit c = true := by
        cases hp : padded 4 y.toNat with
        | nil => exact absurd hp hne
        | cons d ds =>
          rw [hp] at heq
          cases heq
          exact hdigits c (hp ▸ List.mem_cons_self)
      constructor
      · rintro rfl
        exact absurd hc (by decide)
      · rintro rfl
        exact absurd hc (by decide)
    rw [year?, dropWhile_digits hne hdigits]
    split
    · rename_i heq
      exact absurd rfl (hnosign _ _ heq).1
    · rename_i heq
      exact absurd rfl (hnosign _ _ heq).2
    · rw [hnumber, Option.map_some]
      dsimp only
      rw [Int.toNat_of_nonneg hrange.1]
  · rename_i hrange
    obtain ⟨hne, hdigits, hvalue⟩ := padded_digits 4 y.natAbs
    -- after a sign the digits are read up to the next separator
    have hend : ∀ c ∈ ('-' :: rest).head?, isDigit c = false := by
      intro c hc
      cases hc
      decide
    have hnumber : number? (padded 4 y.natAbs ++ '-' :: rest).length (padded 4 y.natAbs ++ '-' :: rest) =
        some (y.natAbs, '-' :: rest) :=
      number?_digits hne hdigits hvalue (.inr ⟨by rw [List.length_append]; omega, hend⟩)
    split
    · rw [List.cons_append, year?, List.dropWhile_cons_of_neg (by decide)]
      refine (congrArg (Option.map fun p : Nat × List Char => (-(p.1 : Int), p.2)) hnumber).trans ?_
      rw [Option.map_some, show -(y.natAbs : Int) = y by omega]
    · rw [List.cons_append, year?, List.dropWhile_cons_of_neg (by decide)]
      refine (congrArg (Option.map fun p : Nat × List Char => ((p.1 : Int), p.2)) hnumber).trans ?_
      rw [Option.map_some, show (y.natAbs : Int) = y by omega]

theorem places?_placesText {nanos : Nat} (h : nanos < 1000000000) :
    places? (placesText nanos ++ ['Z']) = some (nanos, ['Z']) := by
  have written : ∀ width n : Nat, 1 ≤ width → width ≤ 9 → n < 10 ^ width →
      places? ('.' :: padded width n ++ ['Z']) = some (n * 10 ^ (9 - width), ['Z']) := by
    intro width n hlow hhigh hn
    obtain ⟨hne, hdigits, hvalue⟩ := padded_digits width n
    have hlength := length_padded hlow hn
    have hend : ∀ c ∈ ['Z'].head?, isDigit c = false := by
      intro c hc
      cases hc
      decide
    obtain ⟨htake, hdrop⟩ := takeWhile_append hend (padded width n)
    have hself : (padded width n).takeWhile isDigit = padded width n := List.takeWhile_eq_self_iff.2 hdigits
    have hnil : (padded width n).dropWhile isDigit = [] := List.dropWhile_eq_nil_iff.2 hdigits
    rw [List.cons_append, places?, htake, hdrop, hself, hnil, if_neg (by simpa using hne),
      List.take_of_length_le (by omega), hvalue, hlength, List.nil_append]
  rw [placesText]
  split
  · rename_i hzero
    rw [hzero]
    rfl
  split
  · rw [written 3 _ (by decide) (by decide) (by omega)]
    congr 2
    omega
  split
  · rw [written 6 _ (by decide) (by decide) (by omega)]
    congr 2
    omega
  · rw [written 9 _ (by decide) (by decide) (by omega)]
    congr 2
    omega

end Time

/-! ### Instants -/

namespace Instant

/-- An instant that the calendar has, and that is not in a leap second. -/
structure IsRegular (t : Instant) : Prop where
  nanos_lt : t.nanos < 1000000000
  minMillis_le : minMillis ≤ t.second * 1000
  le_maxMillis : t.second * 1000 ≤ maxMillis

end Instant

namespace Time

open ResultCache.Text

/-- Months end before the place where the next one starts in a year from March. -/
theorem day_le {y p k : Int} (hp : 0 ≤ p ∧ p ≤ 11) (hk : k ≤ Date.lengthFromMarch y p) :
    (153 * p + 2) / 5 + k ≤ if p = 11 then 366 else (153 * (p + 1) + 2) / 5 := by
  rw [Date.lengthFromMarch] at hk
  rcases Date.month_cases hp with rfl | rfl | rfl | rfl | rfl | rfl | rfl | rfl | rfl | rfl | rfl | rfl
  case inr.inr.inr.inr.inr.inr.inr.inr.inr.inr.inr =>
    rw [if_pos rfl] at hk ⊢
    split at hk <;> omega
  all_goals
    simp at hk ⊢
    omega

/-- The calendar has the year of each of its instants. -/
theorem isCalendarYear_of_isRegular {t : Instant} (h : t.IsRegular) :
    isCalendarYear (Date.ofDayNumber (t.second / 86400)).year = true := by
  obtain ⟨-, hlow, hhigh⟩ := h
  rw [Instant.minMillis] at hlow
  rw [Instant.maxMillis] at hhigh
  obtain ⟨c, y, p, k, hy0, hy1, hp0, hp1, hk0, hk1, hn, hdate⟩ := Date.exists_parts (t.second / 86400)
  have hday := day_le ⟨hp0, hp1⟩ hk1
  -- only the years of the first and the last cycle can lie outside the calendar
  have hcycle : c = -656 ∨ -655 ≤ c ∧ c ≤ 654 ∨ c = 655 := by omega
  have hyear : -262143 ≤ (if p < 10 then y + c * 400 else y + c * 400 + 1) ∧
      (if p < 10 then y + c * 400 else y + c * 400 + 1) ≤ 262142 := by
    rcases hcycle with rfl | hc | rfl
    · split at hday <;> split <;> omega
    · split <;> omega
    · split at hday <;> split <;> omega
  rw [hdate, isCalendarYear]
  simpa using hyear

/-- The text of an instant is taken apart into its date and its time of day. -/
theorem parts?_instantText {t : Instant} (h : t.IsRegular) :
    parts? (instantText t).toList = some
      { date := Date.ofDayNumber (t.second / 86400), hour := (t.second % 86400).toNat / 3600
        minute := (t.second % 86400).toNat / 60 % 60, second := (t.second % 86400).toNat % 60, nanos := t.nanos
        ahead := 0 } := by
  have hnanos := h.nanos_lt
  have hvalid := Date.isValid_ofDayNumber (t.second / 86400)
  obtain ⟨date, hdate⟩ : ∃ date, Date.ofDayNumber (t.second / 86400) = date := ⟨_, rfl⟩
  rw [hdate] at hvalid ⊢
  have hmonth : date.month < 100 ∧ date.day < 100 := by
    simp only [Date.isValid, Bool.and_eq_true, decide_eq_true_eq] at hvalid
    have : Date.monthLength date.year date.month ≤ 31 := by
      rw [Date.monthLength]
      split <;> split <;> omega
    omega
  obtain ⟨clock, hclock⟩ : ∃ clock, (t.second % 86400).toNat = clock := ⟨_, rfl⟩
  have hday : clock < 86400 := by omega
  have hblank : ∀ rest : List Char, ('Z' :: rest).dropWhile isBlank = 'Z' :: rest := fun rest =>
    List.dropWhile_cons_of_neg (by decide)
  have hbetween : ∀ rest : List Char, between? ('T' :: rest) = some rest := fun rest => rfl
  rw [hclock]
  simp only [instantText, hdate, hclock, Nat.div_eq_of_lt hnanos, Nat.mod_eq_of_lt hnanos, Nat.add_zero,
    String.toList_ofList, List.append_assoc, List.cons_append]
  simp only [parts?, year?_yearText, Option.bind_eq_bind, Option.bind_some,
    separator?_cons (show isBlank '-' = false by decide), separator?_cons (show isBlank ':' = false by decide),
    twoDigits?_padded hmonth.1, twoDigits?_padded hmonth.2, hbetween,
    twoDigits?_padded (show clock / 3600 < 100 by omega), twoDigits?_padded (show clock / 60 % 60 < 100 by omega),
    twoDigits?_padded (show clock % 60 < 100 by omega), places?_placesText hnanos, hblank]
  rfl

/-- The text of an instant is read to the instant. -/
theorem readInstant?_instantText {t : Instant} (h : t.IsRegular) : readInstant? (instantText t) = some t := by
  rw [readInstant?, parts?_instantText h]
  dsimp only
  obtain ⟨hnanos, hlow, hhigh⟩ := h
  have hsecond : (t.second % 86400).toNat % 60 ≠ 60 := by omega
  have hinstant : Parts.instant ⟨Date.ofDayNumber (t.second / 86400), (t.second % 86400).toNat / 3600,
      (t.second % 86400).toNat / 60 % 60, (t.second % 86400).toNat % 60, t.nanos, 0⟩ = t := by
    rw [Parts.instant, Date.dayNumber_ofDayNumber]
    dsimp only
    rw [if_neg hsecond, if_neg hsecond]
    congr 1
    omega
  rw [hinstant]
  refine if_pos ⟨?_, hlow, hhigh⟩
  simp only [Parts.isValid, Date.isValid_ofDayNumber, isCalendarYear_of_isRegular ⟨hnanos, hlow, hhigh⟩,
    Bool.and_eq_true, decide_eq_true_eq, true_and]
  refine ⟨⟨⟨?_, ?_⟩, ?_⟩, by decide⟩ <;> omega

end Time

theorem Instant.isRegular_ofMillis (ms : Int) : (Instant.ofMillis ms).IsRegular := by
  rw [Instant.ofMillis, Instant.ofMillis?]
  split
  · rename_i h
    obtain ⟨hlow, hhigh⟩ := h
    rw [Instant.minMillis] at hlow
    rw [Instant.maxMillis] at hhigh
    rw [Option.getD_some]
    exact ⟨by dsimp only; omega, by rw [Instant.minMillis]; dsimp only; omega,
      by rw [Instant.maxMillis]; dsimp only; omega⟩
  · exact ⟨by decide, by decide, by decide⟩

/-- What the clock shows is read back from its text. -/
theorem ManualClock.readInstant?_now (c : ManualClock) : Time.readInstant? (Time.instantText c.now) = some c.now :=
  Time.readInstant?_instantText (Instant.isRegular_ofMillis c.millis)

end ResultCache
