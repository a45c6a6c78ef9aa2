import ResultCache.Json.Basic
import ResultCache.Text.Numeral

/-!
# Values of a wanted kind

Reading a JSON value as a number of a given width, a text, a list of texts and the like.  A whole number is a double
too, but a double is never a whole number.
-/

namespace ResultCache.Json

def asBool? : Json → Option Bool
  | bool b => some b
  | _ => none

def asString? : Json → Option String
  | str s => some s
  | _ => none

/-- A whole number of eight bits without sign. -/
def asUInt8? : Json → Option Nat
  | int n => if 0 ≤ n ∧ n < 256 then some n.toNat else none
  | _ => none

/-- A whole number of 64 bits with sign. -/
def asInt64? : Json → Option Int
  | int n => if -(2 ^ 63) ≤ n ∧ n < 2 ^ 63 then some n else none
  | _ => none

/-- A double; a whole number is rounded to the nearest one. -/
def asDouble? : Json → Option Binary64
  | int n => some (Binary64.ofRatio (n < 0) n.natAbs 1)
  | float x => some x
  | _ => none

/-- A list of texts. -/
def asStrings? : Json → Option (List String)
  | arr items => items.mapM asString?
  | _ => none

/-- A whole number and a text. -/
def asPair? : Json → Option (Int × String)
  | arr [a, b] => do return (← asInt64? a, ← asString? b)
  | _ => none

/-- One of a set of names, alone or as the only field of an object with the value `null`. -/
def asName? {α : Type} (named? : String → Option α) : Json → Option α
  | str s => named? s
  | obj [(s, null)] => named? s
  | _ => none

end ResultCache.Json
