import ResultCache.Json.Basic
import ResultCache.Json.NumberText
import ResultCache.Text.Utf8

/-!
# Compact JSON text

The text has no spaces.  In a string only the quote, the backslash and the characters below U+0020 are escaped.
-/

namespace ResultCache.Json

open ResultCache.Text

/-- The characters that stand for one character of a string. -/
def escapeChar (c : Char) : List Char :=
  if c = '"' then ['\\', '"']
  else if c = '\\' then ['\\', '\\']
  else if c.toNat = 8 then ['\\', 'b']
  else if c.toNat = 12 then ['\\', 'f']
  else if c = '\n' then ['\\', 'n']
  else if c = '\r' then ['\\', 'r']
  else if c = '\t' then ['\\', 't']
  else if c.toNat < 32 then ['\\', 'u', '0', '0', hexDigit (c.toNat / 16), hexDigit (c.toNat % 16)]
  else [c]

/-- A string between quotes. -/
def quoted (s : String) : List Char :=
  '"' :: s.toList.flatMap escapeChar ++ ['"']

mutual

/-- The compact text of a value. -/
def render : Json → List Char
  | null => ['n', 'u', 'l', 'l']
  | bool true => ['t', 'r', 'u', 'e']
  | bool false => ['f', 'a', 'l', 's', 'e']
  | int n => decimalInt n
  | float x => floatText x
  | str s => quoted s
  | arr items => '[' :: renderItems items ++ [']']
  | obj fields => '{' :: renderFields fields ++ ['}']

/-- Values with commas between them. -/
def renderItems : List Json → List Char
  | [] => []
  | v :: vs => render v ++ (if vs.isEmpty then [] else ',' :: renderItems vs)

/-- Fields with commas between them. -/
def renderFields : List (String × Json) → List Char
  | [] => []
  | (name, v) :: rest => quoted name ++ ':' :: render v ++ (if rest.isEmpty then [] else ',' :: renderFields rest)

end

def text (v : Json) : String :=
  String.ofList v.render

/-- The bytes of the compact text. -/
def bytes (v : Json) : Bytes :=
  utf8 v.text

def size (v : Json) : Nat :=
  v.bytes.length

end ResultCache.Json
