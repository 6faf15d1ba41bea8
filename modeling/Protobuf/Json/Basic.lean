import Protobuf.Numeric.Shortest

/-!
# JSON values

A number is either an integer or a double; the two are told apart by how the
number was written. The members of an object stand in the order of their keys,
each key once, so that equal objects are equal lists.
-/

namespace Protobuf

inductive Json.Number where
  | integer (n : Int)
  | double (x : Numeric.Double)
  deriving DecidableEq

inductive Json where
  | null
  | bool (b : Bool)
  | number (n : Json.Number)
  | string (s : String)
  | array (items : List Json)
  | object (members : List (String × Json))
  deriving Inhabited

namespace Json

/-- The text of a number: the canonical numeral, or the shortest decimal of a double. -/
def Number.text : Number → String
  | .integer n => Text.intText n
  | .double x => x.text

def ofInt (n : Int) : Json :=
  .number (.integer n)

def ofNat (n : Nat) : Json :=
  .ofInt n

/-- Put a member at the place of its key; a member with the same key is replaced. -/
def insertMember (key : String) (value : Json) : List (String × Json) → List (String × Json)
  | [] => [(key, value)]
  | (k, v) :: rest =>
    if key < k then (key, value) :: (k, v) :: rest
    else if key = k then (key, value) :: rest
    else (k, v) :: insertMember key value rest

/-- Members in the order of their keys; of two with one key the later one stays. -/
def sortMembers (members : List (String × Json)) : List (String × Json) :=
  members.foldl (fun acc m => insertMember m.1 m.2 acc) []

/-- The object with the given members, in any order. -/
def ofMembers (members : List (String × Json)) : Json :=
  .object (sortMembers members)

def member? (key : String) (members : List (String × Json)) : Option Json :=
  members.lookup key

def isNull : Json → Bool
  | .null => true
  | _ => false

end Json

end Protobuf
