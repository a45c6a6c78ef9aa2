import ResultCache.Text.Numeral
import ResultCache.Time.Calendar
import ResultCache.Time.Instant

/-!
# Instants as text

An instant is written in RFC 3339 form in UTC, with `Z` and with 0, 3, 6 or 9 places of the second, the fewest that
are exact.  Reading is generous: blanks before each number and separator, one-digit months to seconds, any number of
places, and an offset, by which the instant is moved to UTC.  Second 60 is a leap second.
-/

namespace ResultCache.Time

open ResultCache.Text

/-- Pads digits with zeros to a width. -/
def padded (width n : Nat) : List Char :=
  let digits := decimal n
  List.replicate (width - digits.length) '0' ++ digits

/-- Four digits, or a sign and at least four digits outside the years 0 to 9999. -/
def yearText (y : Int) : List Char :=
  if 0 ≤ y ∧ y ≤ 9999 then padded 4 y.toNat
  else (if y < 0 then '-' else '+') :: padded 4 y.natAbs

/-- The places of a second, the fewest of 0, 3, 6 and 9 that are exact. -/
def placesText (nanos : Nat) : List Char :=
  if nanos = 0 then []
  else if nanos % 1000000 = 0 then '.' :: padded 3 (nanos / 1000000)
  else if nanos % 1000 = 0 then '.' :: padded 6 (nanos / 1000)
  else '.' :: padded 9 nanos

/-- The text of an instant. -/
def instantText (t : Instant) : String :=
  let date := Date.ofDayNumber (t.second / 86400)
  let clock := (t.second % 86400).toNat
  let second := clock % 60 + t.nanos / 1000000000
  String.ofList <| yearText date.year ++ '-' :: padded 2 date.month ++ '-' :: padded 2 date.day ++
    'T' :: padded 2 (clock / 3600) ++ ':' :: padded 2 (clock / 60 % 60) ++ ':' :: padded 2 second ++
    placesText (t.nanos % 1000000000) ++ ['Z']

/-- A number of one to `width` digits, with the rest. -/
def number? (width : Nat) (cs : List Char) : Option (Nat × List Char) :=
  let digits := (cs.take width).takeWhile isDigit
  if digits.isEmpty then none else some (digitsValue digits, cs.drop digits.length)

/-- A number of one or two digits after blanks. -/
def twoDigits? (cs : List Char) : Option (Nat × List Char) :=
  number? 2 (cs.dropWhile isBlank)

/-- A year after blanks: up to four digits, or any number of digits after a sign. -/
def year? (cs : List Char) : Option (Int × List Char) :=
  match cs.dropWhile isBlank with
  | '-' :: rest => (number? rest.length rest).map fun (n, rest) => (-(n : Int), rest)
  | '+' :: rest => (number? rest.length rest).map fun (n, rest) => ((n : Int), rest)
  | rest => (number? 4 rest).map fun (n, rest) => ((n : Int), rest)

/-- The rest after a separator, which may have blanks before it. -/
def separator? (c : Char) (cs : List Char) : Option (List Char) :=
  match cs.dropWhile isBlank with
  | d :: rest => if d = c then some rest else none
  | [] => none

/-- The nanoseconds after a point; places beyond the ninth are dropped. -/
def places? (cs : List Char) : Option (Nat × List Char) :=
  match cs with
  | '.' :: rest =>
    let digits := rest.takeWhile isDigit
    let kept := digits.take 9
    if digits.isEmpty then none
    else some (digitsValue kept * 10 ^ (9 - kept.length), rest.dropWhile isDigit)
  | _ => some (0, cs)

/-- The seconds by which local time is ahead of UTC. -/
def offset? (cs : List Char) : Option (Int × List Char) :=
  match cs with
  | [] => none
  | c :: rest =>
    if (cs.take 3).map Char.toUpper = ['U', 'T', 'C'] then some (0, cs.drop 3)
    else if c = 'Z' ∨ c = 'z' then some (0, rest)
    else if c ≠ '+' ∧ c ≠ '-' ∧ c ≠ '\u2212' then none
    else
      match rest with
      | h1 :: h2 :: rest =>
        match rest.dropWhile fun c => c == ':' || isBlank c with
        | m1 :: m2 :: rest =>
          if [h1, h2, m1, m2].all isDigit && digitValue m1 ≤ 5 then
            let ahead : Int := digitsValue [h1, h2] * 3600 + digitsValue [m1, m2] * 60
            some (if c = '+' then ahead else -ahead, rest)
          else none
        | _ => none
      | _ => none

/-- The date, time of day and offset that make up a text. -/
structure Parts where
  date : Date
  hour : Nat
  minute : Nat
  second : Nat
  nanos : Nat
  ahead : Int

/-- The rest after what stands between a date and a time of day. -/
def between? (cs : List Char) : Option (List Char) :=
  match cs with
  | c :: rest => if c = 'T' ∨ c = 't' ∨ c = ' ' then some rest else none
  | [] => none

def parts? (cs : List Char) : Option Parts := do
  let (year, cs) ← year? cs
  let cs ← separator? '-' cs
  let (month, cs) ← twoDigits? cs
  let cs ← separator? '-' cs
  let (day, cs) ← twoDigits? cs
  let cs ← between? cs
  let (hour, cs) ← twoDigits? cs
  let cs ← separator? ':' cs
  let (minute, cs) ← twoDigits? cs
  let cs ← separator? ':' cs
  let (second, cs) ← twoDigits? cs
  let (nanos, cs) ← places? cs
  let (ahead, cs) ← offset? (cs.dropWhile isBlank)
  if cs.all isBlank then some { date := ⟨year, month, day⟩, hour, minute, second, nanos, ahead } else none

/-- The years of the calendar. -/
def isCalendarYear (y : Int) : Bool :=
  -262143 ≤ y && y ≤ 262142

/-- Whether there is such a date, and such a time in a day. -/
def Parts.isValid (p : Parts) : Bool :=
  p.date.isValid && isCalendarYear p.date.year && p.hour < 24 && p.minute < 60 && p.second ≤ 60 &&
    p.ahead.natAbs < 86400

/-- The instant that a date, a time of day and an offset stand for. -/
def Parts.instant (p : Parts) : Instant :=
  -- the second 60 is a leap second, which is kept in the nanoseconds of the one before
  let second := if p.second = 60 then 59 else p.second
  let nanos := if p.second = 60 then p.nanos + 1000000000 else p.nanos
  ⟨p.date.dayNumber * 86400 + (p.hour * 3600 + p.minute * 60 + second : Nat) - p.ahead, nanos⟩

/-- The instant that a text stands for. -/
def readInstant? (s : String) : Option Instant :=
  match parts? s.toList with
  | none => none
  | some p =>
    let t := p.instant
    if p.isValid ∧ Instant.minMillis ≤ t.second * 1000 ∧ t.second * 1000 ≤ Instant.maxMillis then some t else none

end ResultCache.Time
