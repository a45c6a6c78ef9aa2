import ResultCache.Assoc
import ResultCache.Binary64.Basic

/-!
# JSON values

Whole numbers that fit 64 bits, signed or not, are kept exactly; every other number is a double.  The fields of an
object stand in the order of their names, each name once.
-/

namespace ResultCache

inductive Json where
  | null
  | bool (b : Bool)
  | int (n : Int)
  | float (x : Binary64)
  | str (s : String)
  | arr (items : List Json)
  | obj (fields : List (String × Json))
deriving Inhabited

namespace Json

def isNull : Json → Bool
  | null => true
  | _ => false

/-- The object with the given fields; the last of several with one name counts. -/
def ofFields (fields : List (String × Json)) : Json :=
  obj (fields.foldl (fun acc f => Assoc.insert f.1 f.2 acc) [])

def nat (n : Nat) : Json :=
  int n

/-- How many arrays and objects are open around the innermost value. -/
def depth : Json → Nat
  | arr items => 1 + depthItems items
  | obj fields => 1 + depthFields fields
  | _ => 0
where
  depthItems : List Json → Nat
    | [] => 0
    | v :: vs => max v.depth (depthItems vs)
  depthFields : List (String × Json) → Nat
    | [] => 0
    | (_, v) :: rest => max v.depth (depthFields rest)

end Json

end ResultCache
