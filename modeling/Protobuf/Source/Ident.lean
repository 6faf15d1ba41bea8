import Protobuf.Text.Identifier

/-!
# Identifiers of the generated source

The generated source is Rust. A keyword of it can be used as a raw identifier,
with a few exceptions that take an underscore at the end instead.
-/

namespace Protobuf.Source

/-- Keywords that can be written as raw identifiers. -/
def keywords : List String :=
  ["abstract", "as", "async", "await", "become", "box", "break", "const", "continue", "do", "dyn",
    "else", "enum", "extern", "false", "final", "fn", "for", "gen", "if", "impl", "in", "let",
    "loop", "macro", "match", "mod", "move", "mut", "override", "priv", "pub", "ref", "return",
    "static", "struct", "trait", "true", "try", "type", "typeof", "unsafe", "unsized", "use",
    "virtual", "where", "while", "yield"]

/-- Words that cannot be identifiers, raw or not. -/
def reserved : List String :=
  ["self", "Self", "super", "crate", "_"]

structure Ident where
  /-- Whether it is written with the mark of a raw identifier. -/
  raw : Bool
  /-- The name without that mark. -/
  name : String
  deriving DecidableEq

namespace Ident

def text (i : Ident) : String :=
  if i.raw then "r#" ++ i.name else i.name

/-- The identifier that a text spells, if it spells one. -/
def ofText? (s : String) : Option Ident :=
  match s.toList with
  | 'r' :: '#' :: cs =>
    let name := String.ofList cs
    if Text.isIdentifier cs && !reserved.contains name then some ⟨true, name⟩ else none
  | cs => if Text.isIdentifier cs then some ⟨false, s⟩ else none

def escape? (name : String) : Option Ident :=
  if reserved.contains name then ofText? (name ++ "_")
  else if keywords.contains name then some ⟨true, name⟩
  else ofText? name

/-- Whether the identifier is the lone underscore, which has the form of an identifier and stands
for none. -/
def isWildcard (i : Ident) : Bool :=
  i.text == "_"

end Ident

end Protobuf.Source
