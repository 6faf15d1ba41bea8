import Protobuf.Source.Token

/-!
# Items of the generated source

A generated file is a list of items. An item that declares a type remembers the
identifier of the type.
-/

namespace Protobuf.Emit

open Source

/-- A top-level item. -/
structure Item where
  declares : Option Ident
  code : Code
  deriving DecidableEq

def plainItem (c : Code) : Item := ⟨none, c⟩

def typeItem (i : Ident) (c : Code) : Item := ⟨some i, c⟩

/-- A list of elements as source, one after the other. -/
def each {α : Type} (xs : List α) (f : α → Code) : Code := xs.flatMap f

end Protobuf.Emit
