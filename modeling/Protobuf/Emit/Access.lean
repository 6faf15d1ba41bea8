import Protobuf.Source.Token

/-!
# Reaching values in the generated source

Generated methods reach a value either as a place that holds it or through a
variable that refers to it.
-/

namespace Protobuf.Emit

open Source

/-- How generated source reaches a value. -/
inductive Access where
  | place (c : Code)
  | reference (binding : String)

namespace Access

/-- The value, to call a method of it. -/
def receiver : Access → Code
  | place c => c
  | reference v => word v

def copied : Access → Code
  | place c => c
  | reference v => fill "*$" [word v]

def borrowed : Access → Code
  | place c => fill "&$" [c]
  | reference v => word v

end Access

def selfProperty (i : Ident) : Code :=
  fill "self.$" [name i]

end Protobuf.Emit
