import ResultCache.Text.Numeral
import ResultCache.Text.Pattern
import ResultCache.Time.Instant

/-!
# How long results stay fresh

A policy is a list of classes, each a pattern with a span, and a span for all else.  The first class whose pattern
occurs in the resource decides.  A table of classes is written `pattern=seconds,pattern=seconds`; an item that is
not of this form is left out and does not disturb the others (`readTable_append`).
-/

namespace ResultCache

/-- Classes of resources with the time that their results stay fresh. -/
structure TtlPolicy where
  classes : List (String × Span)
  fallback : Span
deriving DecidableEq

namespace TtlPolicy

/-- The policy without classes. -/
def plain (fallback : Span) : TtlPolicy :=
  ⟨[], fallback⟩

/-- Adds a class after all others. -/
def add (p : TtlPolicy) (pattern : String) (span : Span) : TtlPolicy :=
  { p with classes := p.classes ++ [(pattern, span)] }

/-- The span of the first class whose pattern occurs in the resource. -/
def spanFor (p : TtlPolicy) (resource : String) : Span :=
  match p.classes.find? fun c => Text.contains resource c.1 with
  | some c => c.2
  | none => p.fallback

/-- One item of a table: a pattern that is not blank, the last equals sign, and a number of seconds. -/
def readItem? (item : List Char) : Option (String × Nat) :=
  match Text.splitLast? '=' item with
  | none => none
  | some (pattern, seconds) =>
    match Text.readBounded? (2 ^ 64) (Text.trimChars seconds) with
    | none => none
    | some n =>
      let pattern := Text.trimChars pattern
      if pattern.isEmpty then none else some (String.ofList pattern, n)

/-- The classes of a table with their seconds, in its order. -/
def readTable (raw : List Char) : List (String × Nat) :=
  ((Text.splitOn ',' raw).map Text.trimChars).filterMap readItem?

/-- Two tables with a comma between them are read one after the other. -/
theorem readTable_append (a b : List Char) : readTable (a ++ ',' :: b) = readTable a ++ readTable b := by
  simp [readTable, Text.splitOn_append]

end TtlPolicy

end ResultCache
