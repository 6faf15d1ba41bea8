import Protobuf.Warning

/-!
# Integers held as text

A 64-bit field can be held as the text of its number. Writing it reads the text:
the empty text is zero, and a text that is no number of the type is reported and
taken for zero.
-/

namespace Protobuf.Wire

/-- The integer of a type that a text denotes, if it denotes one. -/
def decimal? (width : Numeric.Width) (text : String) : Option Int :=
  if text.isEmpty then some 0 else width.parse? (Text.trimChars text.toList)

/-- The integer of a type that a text stands for. -/
def decimalValue (width : Numeric.Width) (text : String) : Int :=
  (decimal? width text).getD 0

/-- The integer of a type that a text stands for, with a report if the text denotes none. -/
def readDecimal (width : Numeric.Width) (text : String) : Logged Int :=
  match decimal? width text with
  | some n => ⟨n, []⟩
  | none => ⟨0, [.malformedDecimal text width]⟩

end Protobuf.Wire
