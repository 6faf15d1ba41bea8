import Protobuf.Options
import Protobuf.Source.Ident
import Protobuf.Text.Words

/-!
# Names of generated things

How schema names become identifiers, JSON keys, modules and files of the
generated source, and how one module refers to a type in another.
-/

namespace Protobuf.Naming

open Source

/-- An ASCII letter or digit that snake case leaves alone, or an underscore. -/
def isSnakeChar (c : Char) : Bool :=
  ('a' ≤ c && c ≤ 'z') || ('0' ≤ c && c ≤ '9') || c == '_'

def startsWithDigit : List Char → Bool
  | c :: _ => '0' ≤ c && c ≤ '9'
  | [] => false

/-- A name in snake case; one that already is stays as it is, and a digit does not come first. -/
def snakeCase (name : String) : String :=
  let cs := name.toList
  let snake := if cs.all isSnakeChar then cs else Text.snakeWords cs
  String.ofList (if startsWithDigit snake then '_' :: snake else snake)

def asciiUpper (c : Char) : Char :=
  if 'a' ≤ c ∧ c ≤ 'z' then Char.ofNat (c.toNat - 32) else c

/-- The characters of a constant name that go on after the character `previous`. -/
def constantChars (previous : Option Char) : List Char → List Char
  | [] => []
  | c :: cs =>
    let rest := constantChars (some c) cs
    if c = '.' then '_' :: rest
    else
      let afterSmall :=
        match previous with
        | some p => ('a' ≤ p && p ≤ 'z') || ('0' ≤ p && p ≤ '9')
        | none => false
      if 'A' ≤ c && c ≤ 'Z' && afterSmall then '_' :: asciiUpper c :: rest
      else asciiUpper c :: rest

/-- A name in upper case, with an underscore for each dot and before each inner word. -/
def constantCase (name : String) : String :=
  String.ofList (constantChars none name.toList)

def fieldIdent? (name : String) : Option Ident :=
  Ident.escape? (snakeCase name)

/-- The identifier of an enum value or of a member of a union. -/
def variantIdent? (name : String) : Option Ident :=
  let pascal := Text.pascalWords name.toList
  if pascal.isEmpty || startsWithDigit pascal then Ident.ofText? (String.ofList ('_' :: pascal))
  else Ident.escape? (String.ofList pascal)

/-- Camel case: an underscore disappears and the next character is put in upper case. -/
def camelChars (raise : Bool) : List Char → List Char
  | [] => []
  | c :: cs =>
    if c = '_' then camelChars true cs
    else if raise then Text.upperChar c ++ camelChars false cs
    else c :: camelChars false cs

def jsonName (style : NameStyle) (field : String) : String :=
  match style with
  | .verbatim => field
  | .camel => String.ofList (camelChars false field.toList)

/-- A name without one `s` at its end, unless that is all of it. -/
def singular (name : String) : String :=
  match name.toList.reverse with
  | 's' :: c :: cs => String.ofList (c :: cs).reverse
  | _ => name

def withoutEnding? (ending : String) (s : String) : Option String :=
  let cs := s.toList
  let n := cs.length - ending.toList.length
  if cs.drop n = ending.toList then some (String.ofList (cs.take n)) else none

/-- One part of a module path: letters and digits stay, all else becomes an underscore, a digit
does not come first, and a word of the language gets an underscore at its end. -/
def moduleSegment (part : List Char) : String :=
  let isKept (c : Char) : Bool :=
    ('a' ≤ c && c ≤ 'z') || ('A' ≤ c && c ≤ 'Z') || ('0' ≤ c && c ≤ '9')
  let cleaned := part.map fun c => if isKept c then c else '_'
  let cleaned := String.ofList (if startsWithDigit cleaned then '_' :: cleaned else cleaned)
  if keywords.contains cleaned || reserved.contains cleaned then cleaned ++ "_" else cleaned

def moduleSegments (path : String) : List String :=
  let stem := (withoutEnding? ".proto" path).getD path
  ((stem.toList.splitOn '/').filter fun part => !part.isEmpty).map moduleSegment

def outputFileName (path : String) : String :=
  "/".intercalate (moduleSegments path) ++ ".rs"

/-- How a module refers to a type: so many modules up, then down through the named ones. -/
structure RelativePath where
  climbs : Nat
  /-- Modules to descend through. -/
  descends : List String
  name : Ident
  deriving DecidableEq

/-- The parts that two module paths begin with in common. -/
def commonLength : List String → List String → Nat
  | a :: as, b :: bs => if a = b then commonLength as bs + 1 else 0
  | _, _ => 0

/-- The path from one module to a type in another: up to the modules in common, then down. -/
def relativePath (source target : List String) (name : Ident) : RelativePath :=
  let common := commonLength source target
  ⟨source.length - common, target.drop common, name⟩

def unionTypeIdent? (message group : String) : Option Ident :=
  (variantIdent? group).bind fun v => Ident.ofText? (message ++ "_" ++ v.name ++ "Oneof")

end Protobuf.Naming
