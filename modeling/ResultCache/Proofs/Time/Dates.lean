import ResultCache.Time.Calendar

/-!
# Day numbers and dates

The date of a day number is a date of the calendar and has that number (`isValid_ofDayNumber`,
`dayNumber_ofDayNumber`).  Both are read off one decomposition of the number into cycles of 400 years, years, months
from March and days (`exists_parts`); its only hard part is that the year of the cycle is the right one.
-/

namespace ResultCache.Date

/-- The day of a cycle lies in the year that is computed for it. -/
theorem yearOfCycle_bounds {d y : Int} (h0 : 0 ≤ d) (h1 : d < 146097)
    (hy : y = (d - d / 1460 + d / 36524 - d / 146096) / 365) :
    0 ≤ y ∧ y < 400 ∧ 365 * y + y / 4 - y / 100 ≤ d ∧
      d < 365 * (y + 1) + (y + 1) / 4 - (y + 1) / 100 + (y + 1) / 400 := by
  have hlast : d = 146096 ∨ d / 146096 = 0 := by omega
  rcases hlast with rfl | hlast
  · omega
  -- per century, and per year of a span of four, all is linear
  have hcentury : d / 36524 = 0 ∨ d / 36524 = 1 ∨ d / 36524 = 2 ∨ d / 36524 = 3 := by omega
  obtain ⟨k, r, hk, hd, hr, hr'⟩ : ∃ k r, d / 1460 = k ∧ d = 1460 * k + r ∧ 0 ≤ r ∧ r < 1460 :=
    ⟨_, d % 1460, rfl, by omega, by omega⟩
  obtain ⟨j, hj⟩ : ∃ j, (r - k + d / 36524 - d / 146096) / 365 = j := ⟨_, rfl⟩
  have hyj : y = 4 * k + j := by omega
  have hjs : j = -1 ∨ j = 0 ∨ j = 1 ∨ j = 2 ∨ j = 3 ∨ j = 4 := by omega
  refine ⟨by omega, by omega, ?_⟩
  rcases hcentury with h | h | h | h <;> rcases hjs with rfl | rfl | rfl | rfl | rfl | rfl <;> omega

theorem month_cases {p : Int} (hp : 0 ≤ p ∧ p ≤ 11) : p = 0 ∨ p = 1 ∨ p = 2 ∨ p = 3 ∨ p = 4 ∨ p = 5 ∨ p = 6 ∨
    p = 7 ∨ p = 8 ∨ p = 9 ∨ p = 10 ∨ p = 11 := by
  omega

/-- The number of days of a month, counted from March, of a year that starts in March. -/
def lengthFromMarch (y p : Int) : Int :=
  if p = 11 then if isLeapYear (y + 1) then 29 else 28
  else if p = 1 ∨ p = 3 ∨ p = 6 ∨ p = 8 then 30
  else 31

theorem isLeapYear_iff (y : Int) : isLeapYear y = true ↔ y % 4 = 0 ∧ (y % 100 ≠ 0 ∨ y % 400 = 0) := by
  simp [isLeapYear]

/-- A year before one that is no leap year has 365 days. -/
theorem start_succ {y : Int} (hy : 0 ≤ y ∧ y < 400) {c : Int} (h : isLeapYear (y + c * 400 + 1) = false) :
    365 * (y + 1) + (y + 1) / 4 - (y + 1) / 100 + (y + 1) / 400 ≤ 365 * y + y / 4 - y / 100 + 365 := by
  have hleap : ¬ ((y + c * 400 + 1) % 4 = 0 ∧ ((y + c * 400 + 1) % 100 ≠ 0 ∨ (y + c * 400 + 1) % 400 = 0)) :=
    fun hleap => by rw [(isLeapYear_iff _).2 hleap] at h; cases h
  by_cases h4 : (y + 1) % 4 = 0
  · have h100 : (y + 1) % 100 = 0 := by omega
    have h400 : (y + 1) % 400 ≠ 0 := by omega
    omega
  · omega

/-- A day number is made up of cycles, years of a cycle, months from March, and days. -/
theorem exists_parts (n : Int) : ∃ c y p k : Int, 0 ≤ y ∧ y < 400 ∧ 0 ≤ p ∧ p ≤ 11 ∧ 1 ≤ k ∧
    k ≤ lengthFromMarch (y + c * 400) p ∧
    n = c * 146097 + 365 * y + y / 4 - y / 100 + (153 * p + 2) / 5 + k - 1 - 719468 ∧
    ofDayNumber n = ⟨if p < 10 then y + c * 400 else y + c * 400 + 1,
      (if p < 10 then p + 3 else p - 9).toNat, k.toNat⟩ := by
  obtain ⟨d, hd⟩ : ∃ d, (n + 719468) % 146097 = d := ⟨_, rfl⟩
  obtain ⟨y, hy⟩ : ∃ y, (d - d / 1460 + d / 36524 - d / 146096) / 365 = y := ⟨_, rfl⟩
  obtain ⟨hy0, hy1, hlow, hhigh⟩ := yearOfCycle_bounds (d := d) (y := y) (by omega) (by omega) hy.symm
  obtain ⟨e, he⟩ : ∃ e, d - (365 * y + y / 4 - y / 100) = e := ⟨_, rfl⟩
  obtain ⟨p, hp⟩ : ∃ p, (5 * e + 2) / 153 = p := ⟨_, rfl⟩
  have he0 : 0 ≤ e := by omega
  have he1 : e ≤ 365 := by omega
  refine ⟨(n + 719468) / 146097, y, p, e - (153 * p + 2) / 5 + 1, hy0, hy1, by omega, by omega, by omega, ?_,
    by omega, ?_⟩
  · rw [lengthFromMarch]
    split
    · split
      · omega
      · rename_i hleap
        have := start_succ ⟨hy0, hy1⟩ (Bool.not_eq_true _ ▸ hleap)
        omega
    · split <;> omega
  · simp only [ofDayNumber, hd, hy, he, hp]
    congr 1
    by_cases h : p < 10
    · rw [if_pos h, if_pos h, if_neg (by omega)]
    · rw [if_neg h, if_neg h, if_pos (by omega)]

/-- The date of a day number has that number. -/
theorem dayNumber_ofDayNumber (n : Int) : (ofDayNumber n).dayNumber = n := by
  obtain ⟨c, y, p, k, hy0, hy1, hp0, hp1, hk0, -, hn, hdate⟩ := exists_parts n
  rw [hdate, dayNumber]
  dsimp only
  by_cases h : p < 10
  · rw [if_pos h, if_pos h, if_neg (by omega)]
    have hmonth : (((p + 3).toNat : Int) + 9) % 12 = p := by omega
    have hk : (k.toNat : Int) = k := by omega
    rw [hmonth, hk]
    omega
  · rw [if_neg h, if_neg h, if_pos (by omega)]
    have hmonth : (((p - 9).toNat : Int) + 9) % 12 = p := by omega
    have hk : (k.toNat : Int) = k := by omega
    rw [hmonth, hk]
    omega

/-- The date of a day number is a date of the calendar. -/
theorem isValid_ofDayNumber (n : Int) : (ofDayNumber n).isValid = true := by
  obtain ⟨c, y, p, k, -, -, hp0, hp1, hk0, hk1, -, hdate⟩ := exists_parts n
  have hday : 1 ≤ k.toNat := by omega
  have hlength : k.toNat ≤ (lengthFromMarch (y + c * 400) p).toNat := by omega
  rw [hdate]
  rcases month_cases ⟨hp0, hp1⟩ with rfl | rfl | rfl | rfl | rfl | rfl | rfl | rfl | rfl | rfl | rfl | rfl
  case inr.inr.inr.inr.inr.inr.inr.inr.inr.inr.inr =>
    simp only [lengthFromMarch, if_true] at hlength
    simp [isValid, monthLength, hday]
    split <;> rename_i hleap <;> simpa [hleap] using hlength
  all_goals
    simp [lengthFromMarch] at hlength
    simp [isValid, monthLength, hday, hlength]

end ResultCache.Date
