import ResultCache.Text.Blank

/-!
# Whole numbers as decimal text

`decimal` writes a number without leading zeros, `digitsValue` is the value of a run of digits, and `readBounded?`
reads a whole text as a number below a bound, with an optional plus sign and any number of leading zeros.
-/

namespace ResultCache.Text

/-- Whether a character is one of the ten ASCII digits. -/
def isDigit (c : Char) : Bool :=
  48 ≤ c.toNat && c.toNat ≤ 57

/-- A digit is no blank. -/
theorem isBlank_of_isDigit {c : Char} (h : isDigit c = true) : isBlank c = false := by
  simp only [isDigit, Bool.and_eq_true, decide_eq_true_eq] at h
  simp only [isBlank, Bool.or_eq_false_iff, Bool.and_eq_false_iff, decide_eq_false_iff_not, beq_eq_false_iff_ne]
  omega

def digitValue (c : Char) : Nat :=
  c.toNat - 48

/-- The value of a run of digits, after digits of value `acc`. -/
def digitsValueFrom (acc : Nat) (cs : List Char) : Nat :=
  cs.foldl (fun n c => 10 * n + digitValue c) acc

def digitsValue (cs : List Char) : Nat :=
  digitsValueFrom 0 cs

/-- The digits of a number, most significant first. -/
def decimal (n : Nat) : List Char :=
  if n < 10 then [Char.ofNat (48 + n)] else decimal (n / 10) ++ [Char.ofNat (48 + n % 10)]
termination_by n
decreasing_by omega

private theorem digitValue_ofNat {d : Nat} (h : d < 10) :
    digitValue (Char.ofNat (48 + d)) = d ∧ isDigit (Char.ofNat (48 + d)) = true := by
  have : ∀ k : Fin 10, digitValue (Char.ofNat (48 + k.val)) = k.val ∧
      isDigit (Char.ofNat (48 + k.val)) = true := by decide
  exact this ⟨d, h⟩

/-- Reading the digits of a number gives the number. -/
theorem digitsValue_decimal (n : Nat) : digitsValue (decimal n) = n := by
  induction n using Nat.strongRecOn with
  | _ n ih =>
    rw [decimal]
    split
    · rename_i h
      simp [digitsValue, digitsValueFrom, digitValue_ofNat h]
    · rename_i h
      have := ih (n / 10) (by omega)
      rw [digitsValue, digitsValueFrom] at this
      rw [digitsValue, digitsValueFrom, List.foldl_append, this]
      simp [digitValue_ofNat (show n % 10 < 10 by omega)]
      omega

/-- A number is written with digits only, and with at least one. -/
theorem isDigit_decimal (n : Nat) : decimal n ≠ [] ∧ ∀ c ∈ decimal n, isDigit c = true := by
  induction n using Nat.strongRecOn with
  | _ n ih =>
    rw [decimal]
    split
    · rename_i h
      simp [digitValue_ofNat h]
    · rename_i h
      refine ⟨by simp, fun c hc => ?_⟩
      rw [List.mem_append, List.mem_singleton] at hc
      rcases hc with hc | rfl
      · exact (ih (n / 10) (by omega)).2 c hc
      · exact (digitValue_ofNat (show n % 10 < 10 by omega)).2

/-- Numbers with one text are one number. -/
theorem decimal_injective {m n : Nat} (h : decimal m = decimal n) : m = n := by
  have := congrArg digitsValue h
  rwa [digitsValue_decimal, digitsValue_decimal] at this

/-- The sign, if negative, and the digits of an integer. -/
def decimalInt (i : Int) : List Char :=
  if i < 0 then '-' :: decimal i.natAbs else decimal i.natAbs

/-- Reads a text that is digits, perhaps after a plus sign, as a number below `bound`. -/
def readBounded? (bound : Nat) (cs : List Char) : Option Nat :=
  let digits := match cs with
    | '+' :: rest => rest
    | _ => cs
  if digits.isEmpty || !digits.all isDigit then none
  else
    let n := digitsValue digits
    if n < bound then some n else none

/-- The text of a number below the bound is read to the number. -/
theorem readBounded?_decimal {bound n : Nat} (h : n < bound) : readBounded? bound (decimal n) = some n := by
  obtain ⟨hne, hdigits⟩ := isDigit_decimal n
  have hvalue := digitsValue_decimal n
  cases hdecimal : decimal n with
  | nil => exact absurd hdecimal hne
  | cons c cs =>
    rw [hdecimal] at hdigits hvalue
    have hsign : c ≠ '+' := by
      rintro rfl
      exact absurd (hdigits '+' List.mem_cons_self) (by decide)
    have hall : (c :: cs).all isDigit = true := List.all_eq_true.2 hdigits
    unfold readBounded?
    split
    · rename_i heq
      exact absurd (List.cons.inj heq).1 hsign
    · simp [hall, hvalue, h]

/-- The digits, written out. -/
def decimalText (n : Nat) : String :=
  String.ofList (decimal n)

end ResultCache.Text
