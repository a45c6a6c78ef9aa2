import ResultCache.Text.Pattern

/-!
# Media types

A media type has the form `type/subtype;name=value;…`, of which the parameters may be left out.  JSON is the subtype
`json` of `application`, alone or after the last plus sign.
-/

namespace ResultCache.Http

/-- The characters of a token. -/
def isTokenChar (c : Char) : Bool :=
  c.isAlphanum || "!#$%&'*+-.^_\x60|~".toList.contains c

/-- The characters between the quotes of a value. -/
def isQuotedChar (c : Char) : Bool :=
  32 ≤ c.toNat && c.toNat < 127 && c != '"'

/-- The rest after the closing quote of a value: blanks, and then the end or a semicolon. -/
private def afterClosing? (cs : List Char) : Option (List Char) :=
  match cs.dropWhile (· == ' ') with
  | [] => some []
  | ';' :: rest => some rest
  | _ => none

/-- The rest after a value in quotes, from the opening quote on.  The value is not empty: a quote in its first place
belongs to it. -/
private def afterOpening? (cs : List Char) : Option (List Char) :=
  match cs with
  | c :: rest =>
    if c == '"' || isQuotedChar c then
      match rest.dropWhile isQuotedChar with
      | '"' :: more => afterClosing? more
      | _ => none
    else none
  | [] => none

/-- The rest after the value of a parameter. -/
private def afterValue? (cs : List Char) : Option (List Char) :=
  match cs with
  | '"' :: rest => afterOpening? rest
  | _ =>
    match cs.takeWhile isTokenChar, cs.dropWhile isTokenChar with
    | _, [] => some []
    | _ :: _, ';' :: rest => some rest
    | _, _ => none

/-- Whether a text is a list of parameters; `fuel` bounds their number. -/
private def areParameters (cs : List Char) : Nat → Bool
  | 0 => false
  | fuel + 1 =>
    let cs := cs.dropWhile (· == ' ')
    cs.isEmpty ||
      match cs.takeWhile isTokenChar, cs.dropWhile isTokenChar with
      | _ :: _, '=' :: rest =>
        match afterValue? rest with
        | some rest => areParameters rest fuel
        | none => false
      | _, _ => false

/-- Whether a media type is JSON. -/
def isJsonType (s : String) : Bool :=
  let cs := s.toList
  let kind := cs.takeWhile isTokenChar
  match cs.dropWhile isTokenChar with
  | '/' :: rest =>
    let subtype := (rest.takeWhile isTokenChar).map Char.toLower
    let parameters := rest.dropWhile isTokenChar
    let wellFormed := match parameters with
      | [] => true
      | ';' :: more => !subtype.isEmpty && areParameters more (more.length + 1)
      | _ => false
    let json := "json".toList
    let isJson := match Text.splitLast? '+' subtype with
      | some (a, b) => if a.isEmpty then false else a == json || b == json
      | none => subtype == json
    wellFormed && kind.map Char.toLower == "application".toList && isJson
  | _ => false

end ResultCache.Http
