import ResultCache.Operators

/-!
# Instants and spans

An instant is a second of the calendar, counted from 1970, and a number of nanoseconds in it.  Nanoseconds from
`10 ^ 9` on lie in a leap second, which belongs to the second before it.  A span is a length of time in nanoseconds;
between two instants it is zero if the later one is not later (`Instant.elapsed`).
-/

namespace ResultCache

/-- A length of time. -/
structure Span where
  nanos : Nat
deriving DecidableEq

namespace Span

instance : LT Span :=
  ⟨fun a b => a.nanos < b.nanos⟩

instance : LE Span :=
  ⟨fun a b => a.nanos ≤ b.nanos⟩

instance (a b : Span) : Decidable (a < b) :=
  inferInstanceAs (Decidable (a.nanos < b.nanos))

instance (a b : Span) : Decidable (a ≤ b) :=
  inferInstanceAs (Decidable (a.nanos ≤ b.nanos))

theorem lt_def {a b : Span} : a < b ↔ a.nanos < b.nanos :=
  Iff.rfl

theorem le_def {a b : Span} : a ≤ b ↔ a.nanos ≤ b.nanos :=
  Iff.rfl

@[simp] theorem not_lt {a b : Span} : ¬ a < b ↔ b ≤ a :=
  Nat.not_lt

def zero : Span :=
  ⟨0⟩

def ofMillis (n : Nat) : Span :=
  ⟨n * 1000000⟩

def ofSeconds (n : Nat) : Span :=
  ⟨n * 1000000000⟩

/-- The part of a span beyond another one; no time if there is none. -/
def beyond (a b : Span) : Span :=
  ⟨a.nanos - b.nanos⟩

def min (a b : Span) : Span :=
  if a ≤ b then a else b

def max (a b : Span) : Span :=
  if a ≤ b then b else a

/-- All whole milliseconds. -/
def wholeMillis (s : Span) : Nat :=
  s.nanos / 1000000

/-- The whole milliseconds, at most `2 ^ 64 - 1`. -/
def millis (s : Span) : Nat :=
  Nat.min s.wholeMillis (2 ^ 64 - 1)

def wholeSeconds (s : Span) : Nat :=
  s.nanos / 1000000000

/-- The length in seconds: whole seconds and the fraction are rounded apart and then added. -/
def seconds (s : Span) : Float :=
  (UInt64.ofNat s.wholeSeconds).toFloat + (UInt64.ofNat (s.nanos % 1000000000)).toFloat / 1000000000.0

theorem millis_ofMillis {n : Nat} (h : n < 2 ^ 64) : (ofMillis n).millis = n := by
  rw [millis, wholeMillis, ofMillis, Nat.mul_div_cancel n (by decide)]
  exact Nat.min_eq_left (by omega)

theorem millis_lt (s : Span) : s.millis < 2 ^ 64 :=
  Nat.lt_of_le_of_lt (Nat.min_le_right ..) (by decide)

end Span

/-- A point in time. -/
structure Instant where
  second : Int
  nanos : Nat
deriving DecidableEq

namespace Instant

/-- The first millisecond of the calendar. -/
def minMillis : Int :=
  -8334601228800000

/-- The last millisecond of the calendar. -/
def maxMillis : Int :=
  8210266876799999

/-- The start of 1970. -/
def epoch : Instant :=
  ⟨0, 0⟩

/-- The last instant of the calendar. -/
def last : Instant :=
  ⟨8210266876799, 999999999⟩

/-- The instant of a count of milliseconds since 1970, if the calendar has it. -/
def ofMillis? (ms : Int) : Option Instant :=
  if minMillis ≤ ms ∧ ms ≤ maxMillis then some ⟨ms / 1000, (ms % 1000).toNat * 1000000⟩ else none

/-- The instant of a count of milliseconds since 1970; the epoch stands in for what the calendar does not have. -/
def ofMillis (ms : Int) : Instant :=
  (ofMillis? ms).getD epoch

/-- Whole milliseconds since 1970, rounded down. -/
def millis (t : Instant) : Int :=
  t.second * 1000 + (t.nanos / 1000000 : Nat)

/-- The order in time. -/
def le (s t : Instant) : Bool :=
  s.second < t.second || (s.second == t.second && s.nanos ≤ t.nanos)

/-- A leap second counts towards the difference only of instants of different seconds of one day. -/
private def leapBetween (s t : Instant) : Int :=
  let a := s.second % 86400
  let b := t.second % 86400
  if a < b ∧ 1000000000 ≤ s.nanos then 1
  else if b < a ∧ 1000000000 ≤ t.nanos then -1
  else 0

/-- The time from `earlier` to `later`; zero if that is negative. -/
def elapsed (earlier later : Instant) : Span :=
  ⟨((later.second - earlier.second + leapBetween earlier later) * 1000000000 +
    ((later.nanos : Int) - earlier.nanos)).toNat⟩

/-- The instant a span later; the last instant where the calendar ends. -/
def after (t : Instant) (s : Span) : Instant :=
  let nanos := t.nanos + s.nanos
  let u : Instant := ⟨t.second + (nanos / 1000000000 : Nat), nanos % 1000000000⟩
  if u.le last then u else last

/-- No time passes from an instant to itself. -/
@[simp] theorem elapsed_self (t : Instant) : elapsed t t = .zero := by
  simp [elapsed, leapBetween, Span.zero]

/-- A count of milliseconds within the calendar is split into seconds and the rest. -/
theorem ofMillis_eq {a : Int} (ha : minMillis ≤ a ∧ a ≤ maxMillis) :
    ofMillis a = ⟨a / 1000, (a % 1000).toNat * 1000000⟩ := by
  rw [ofMillis, ofMillis?, if_pos ha, Option.getD_some]

/-- Between whole milliseconds the elapsed time is the difference, or zero. -/
theorem elapsed_ofMillis {a b : Int} (ha : minMillis ≤ a ∧ a ≤ maxMillis) (hb : minMillis ≤ b ∧ b ≤ maxMillis) :
    elapsed (ofMillis a) (ofMillis b) = Span.ofMillis (b - a).toNat := by
  rw [ofMillis_eq ha, ofMillis_eq hb, elapsed, leapBetween, Span.ofMillis]
  dsimp only
  rw [if_neg (by omega), if_neg (by omega)]
  congr 1
  omega

/-! ### Counting nanoseconds -/

/-- Nanoseconds since 1970. -/
def count (t : Instant) : Int :=
  t.second * 1000000000 + t.nanos

/-- Time passes evenly after an instant that is in no leap second, or in one that ends a day.  A leap second inside a
day counts at later times of the day only, so that at midnight the time since an instant in it goes back. -/
def AgesEvenly (t : Instant) : Prop :=
  t.nanos < 1000000000 ∨ t.second % 86400 = 86399

instance (t : Instant) : Decidable t.AgesEvenly :=
  inferInstanceAs (Decidable (_ ∨ _))

theorem elapsed_of_agesEvenly {s t : Instant} (hs : s.AgesEvenly) (ht : t.nanos < 1000000000) :
    elapsed s t = ⟨(t.count - s.count).toNat⟩ := by
  have hleap : leapBetween s t = 0 := by
    rw [AgesEvenly] at hs
    rw [leapBetween, if_neg (by omega), if_neg (by omega)]
  rw [elapsed, hleap, count, count]
  congr 1
  omega

theorem le_iff_count_le {s t : Instant} (hs : s.nanos < 1000000000) (ht : t.nanos < 1000000000) :
    s.le t = true ↔ s.count ≤ t.count := by
  simp only [le, count, Bool.or_eq_true, Bool.and_eq_true, decide_eq_true_eq, beq_iff_eq]
  omega

theorem nanos_after_lt (t : Instant) (s : Span) : (t.after s).nanos < 1000000000 := by
  rw [after]
  split
  · exact Nat.mod_lt _ (by decide)
  · decide

/-- The instant a span later is not later than that; it is earlier where the calendar ends. -/
theorem count_after_le (t : Instant) (s : Span) : (t.after s).count ≤ t.count + s.nanos := by
  obtain ⟨u, hu⟩ : ∃ u : Instant,
      u = ⟨t.second + ((t.nanos + s.nanos) / 1000000000 : Nat), (t.nanos + s.nanos) % 1000000000⟩ := ⟨_, rfl⟩
  have hnanos : u.nanos < 1000000000 := by
    rw [hu]
    exact Nat.mod_lt _ (by decide)
  have hcount : u.count = t.count + s.nanos := by
    rw [hu, count, count]
    dsimp only
    omega
  have hafter : t.after s = if u.le last then u else last := by rw [hu, after]
  rw [hafter]
  split
  · omega
  · rename_i hlate
    rw [le_iff_count_le hnanos (by decide)] at hlate
    omega

/-- At an instant, and as long as the one an interval later is not reached, less than the interval has passed. -/
theorem count_lt_of_before_after {s t : Instant} {interval : Span} (ht : t.nanos < 1000000000) (hpos : 0 < interval.nanos)
    (h : t = s ∨ (s.after interval).le t = false) : t.count < s.count + interval.nanos := by
  rcases h with rfl | hbefore
  · omega
  · have hle := count_after_le s interval
    have hnot : ¬(s.after interval).le t = true := Bool.not_eq_true _ ▸ hbefore
    rw [le_iff_count_le (nanos_after_lt ..) ht] at hnot
    omega

end Instant

end ResultCache
