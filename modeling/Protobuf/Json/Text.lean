import Protobuf.Json.Basic
import Protobuf.Numeric.Parse

/-!
# JSON text

Reading and writing JSON. An integer literal that fits 64 bits is an integer;
minus zero and every other number is a double. Writing is compact, with members
in the order of their keys.
-/

namespace Protobuf.Json

def skipBlanks : List Char → List Char
  | ' ' :: cs | '\t' :: cs | '\n' :: cs | '\r' :: cs => skipBlanks cs
  | cs => cs

def hexDigit? (c : Char) : Option Nat :=
  if '0' ≤ c ∧ c ≤ '9' then some (c.toNat - '0'.toNat)
  else if 'a' ≤ c ∧ c ≤ 'f' then some (c.toNat - 'a'.toNat + 10)
  else if 'A' ≤ c ∧ c ≤ 'F' then some (c.toNat - 'A'.toNat + 10)
  else none

/-- Four hexadecimal digits, as one number. -/
def hexUnit? : List Char → Option (Nat × List Char)
  | a :: b :: c :: d :: rest => do
    let a ← hexDigit? a
    let b ← hexDigit? b
    let c ← hexDigit? c
    let d ← hexDigit? d
    return (((a * 16 + b) * 16 + c) * 16 + d, rest)
  | _ => none

/-- The character of an escape, after the backslash. Two escaped surrogates make one
character. -/
def escape? : List Char → Option (Char × List Char)
  | '"' :: rest => some ('"', rest)
  | '\\' :: rest => some ('\\', rest)
  | '/' :: rest => some ('/', rest)
  | 'b' :: rest => some ('\x08', rest)
  | 'f' :: rest => some ('\x0c', rest)
  | 'n' :: rest => some ('\n', rest)
  | 'r' :: rest => some ('\r', rest)
  | 't' :: rest => some ('\t', rest)
  | 'u' :: rest => do
    let (unit, rest) ← hexUnit? rest
    if 0xD800 ≤ unit ∧ unit < 0xDC00 then
      match rest with
      | '\\' :: 'u' :: rest => do
        let (low, rest) ← hexUnit? rest
        if 0xDC00 ≤ low ∧ low < 0xE000 then
          return (Char.ofNat (0x10000 + (unit - 0xD800) * 0x400 + (low - 0xDC00)), rest)
        else none
      | _ => none
    else if 0xDC00 ≤ unit ∧ unit < 0xE000 then none
    else return (Char.ofNat unit, rest)
  | _ => none

/-- The characters of a string up to its closing quote, and the rest. -/
def stringBody? (fuel : Nat) (cs : List Char) : Option (List Char × List Char) :=
  match fuel, cs with
  | _, [] => none
  | 0, _ => none
  | _ + 1, '"' :: rest => some ([], rest)
  | fuel + 1, '\\' :: rest => do
    let (c, rest) ← escape? rest
    let (body, rest) ← stringBody? fuel rest
    return (c :: body, rest)
  | fuel + 1, c :: rest => do
    if c.toNat < 0x20 then none
    let (body, rest) ← stringBody? fuel rest
    return (c :: body, rest)

def isNumberChar (c : Char) : Bool :=
  (Text.digit? c).isSome || c == '-' || c == '+' || c == '.' || c == 'e' || c == 'E'

def literal? (cs : List Char) : Option Number :=
  let asDouble := (Numeric.Double.parse? cs).map Number.double
  if cs = ['-', '0'] then asDouble
  else
    match Text.integer? true cs with
    | some n => if -9223372036854775808 ≤ n ∧ n ≤ 18446744073709551615 then some (.integer n)
      else asDouble
    | none => asDouble

def word? (word : List Char) (cs : List Char) : Option (List Char) :=
  if word.isPrefixOf cs then some (cs.drop word.length) else none

mutual

/-- One value at the front of a text, and the rest. -/
def value? (fuel : Nat) (cs : List Char) : Option (Json × List Char) :=
  match fuel with
  | 0 => none
  | fuel + 1 =>
    match skipBlanks cs with
    | '"' :: rest => do
      let (body, rest) ← stringBody? (rest.length + 1) rest
      return (.string (String.ofList body), rest)
    | '[' :: rest =>
      match skipBlanks rest with
      | ']' :: rest => some (.array [], rest)
      | rest => do
        let (items, rest) ← items? fuel rest
        return (.array items, rest)
    | '\x7b' :: rest =>
      match skipBlanks rest with
      | '\x7d' :: rest => some (.object [], rest)
      | rest => do
        let (members, rest) ← members? fuel rest
        return (.ofMembers members, rest)
    | 'n' :: rest => (word? ['u', 'l', 'l'] rest).map (Json.null, ·)
    | 't' :: rest => (word? ['r', 'u', 'e'] rest).map (Json.bool true, ·)
    | 'f' :: rest => (word? ['a', 'l', 's', 'e'] rest).map (Json.bool false, ·)
    | cs => do
      let (text, rest) := cs.span isNumberChar
      let n ← literal? text
      return (.number n, rest)

/-- The items of an array after its opening bracket. -/
def items? (fuel : Nat) (cs : List Char) : Option (List Json × List Char) :=
  match fuel with
  | 0 => none
  | fuel + 1 => do
    let (item, rest) ← value? fuel cs
    match skipBlanks rest with
    | ',' :: rest => do
      let (items, rest) ← items? fuel rest
      return (item :: items, rest)
    | ']' :: rest => return ([item], rest)
    | _ => none

/-- The members of an object after its opening brace. -/
def members? (fuel : Nat) (cs : List Char) : Option (List (String × Json) × List Char) :=
  match fuel with
  | 0 => none
  | fuel + 1 =>
    match skipBlanks cs with
    | '"' :: rest => do
      let (key, rest) ← stringBody? (rest.length + 1) rest
      match skipBlanks rest with
      | ':' :: rest => do
        let (value, rest) ← value? fuel rest
        match skipBlanks rest with
        | ',' :: rest => do
          let (members, rest) ← members? fuel rest
          return ((String.ofList key, value) :: members, rest)
        | '\x7d' :: rest => return ([(String.ofList key, value)], rest)
        | _ => none
      | _ => none
    | _ => none

end

/-- Read a text that holds one JSON value. -/
def parse? (s : String) : Option Json := do
  let cs := s.toList
  let (value, rest) ← value? (cs.length + 1) cs
  if (skipBlanks rest).isEmpty then return value else none

/-- A character inside a JSON string. -/
def escaped (c : Char) : List Char :=
  if c = '"' then ['\\', '"']
  else if c = '\\' then ['\\', '\\']
  else if c = '\n' then ['\\', 'n']
  else if c = '\r' then ['\\', 'r']
  else if c = '\t' then ['\\', 't']
  else if c = '\x08' then ['\\', 'b']
  else if c = '\x0c' then ['\\', 'f']
  else if c.toNat < 0x20 then
    let ds := Nat.toDigits 16 c.toNat
    ['\\', 'u'] ++ List.replicate (4 - ds.length) '0' ++ ds
  else [c]

def quoted (s : String) : String :=
  String.ofList ('"' :: s.toList.flatMap escaped ++ ['"'])

mutual

/-- The compact text of a value. -/
def render : Json → String
  | .null => "null"
  | .bool b => if b then "true" else "false"
  | .number n => n.text
  | .string s => quoted s
  | .array items => "[" ++ ",".intercalate (renderItems items) ++ "]"
  | .object members => "\x7b" ++ ",".intercalate (renderMembers members) ++ "\x7d"

def renderItems : List Json → List String
  | [] => []
  | item :: items => render item :: renderItems items

def renderMembers : List (String × Json) → List String
  | [] => []
  | (key, value) :: members => (quoted key ++ ":" ++ render value) :: renderMembers members

end

end Protobuf.Json
