import ResultCache.Text.Hex
import ResultCache.Text.Unseen

/-!
# Texts as they are shown

A text is shown between quotes; quotes, backslashes and characters that are not seen on their own are escaped.
-/

namespace ResultCache.Text

/-- A number in hexadecimal digits, without leading zeros; `fuel` bounds their count. -/
private def hexNumber (n : Nat) : Nat → List Char
  | 0 => []
  | fuel + 1 => if n < 16 then [hexDigit n] else hexNumber (n / 16) fuel ++ [hexDigit (n % 16)]

/-- How a character is shown between quotes. -/
def shownChar (c : Char) : List Char :=
  if c = '"' ∨ c = '\\' then ['\\', c]
  else if c = '\n' then ['\\', 'n']
  else if c = '\r' then ['\\', 'r']
  else if c = '\t' then ['\\', 't']
  else if c.toNat = 0 then ['\\', '0']
  else if isUnseen c then
    '\\' :: 'u' :: '{' :: (hexNumber c.toNat 8 ++ ['}'])
  else [c]

/-- A text between quotes. -/
def shown (s : String) : String :=
  String.ofList ('"' :: (s.toList.flatMap shownChar ++ ['"']))

end ResultCache.Text
