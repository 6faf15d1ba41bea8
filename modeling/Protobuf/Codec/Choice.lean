import Protobuf.Json.Basic
import Protobuf.Plan.Enum

/-!
# Values of enums

A value of an enum is one of its declared numbers, or stands for every number and
name that is not declared. Which number and which texts that last value has is
decided here, once for all enums.
-/

namespace Protobuf.Codec

/-- A value of an enum. -/
inductive Choice where
  | declared (number : Int32)
  /-- Any number or name that is not declared. -/
  | unrecognized
  deriving DecidableEq

end Protobuf.Codec

namespace Protobuf.Schema.Enum

open Protobuf.Codec

def ofNumber (e : Enum) (n : Int32) : Choice :=
  if e.values.any fun v => v.number == n then .declared n else .unrecognized

def number (e : Enum) : Choice → Int32
  | .declared n => n
  | .unrecognized => Plan.unusedNumber (e.values.map EnumValue.number)

def nameOf? (e : Enum) (n : Int32) : Option String :=
  (e.values.find? fun v => v.number == n).map EnumValue.name

def nameOf (e : Enum) : Choice → String
  | .declared n => (e.nameOf? n).getD "UNRECOGNIZED"
  | .unrecognized => "UNRECOGNIZED"

def jsonText (e : Enum) : Choice → String
  | .declared n => (e.nameOf? n).getD "UNKNOWN"
  | .unrecognized => "UNKNOWN"

/-- The value that a name stands for. If two numbers are declared with the name, the one that was
declared first, with whatever name, is taken. -/
def ofName (e : Enum) (name : String) : Choice :=
  let numbers := e.values.map EnumValue.number
  match numbers.find? fun n => e.values.any fun v => v.number == n && v.name == name with
  | some n => .declared n
  | none => .unrecognized

/-- The value that a JSON value stands for: a name, or a number of 32 bits. -/
def ofJson (e : Enum) : Json → Choice
  | .number (.integer n) =>
    if Numeric.Width.int32.holds n then e.ofNumber (Int32.ofInt n) else .unrecognized
  | .string name => e.ofName name
  | _ => .unrecognized

/-- The value of a field that was not set: number zero, else the first one. -/
def unset (e : Enum) : Choice :=
  if e.values.any fun v => v.number == 0 then .declared 0
  else
    match e.values with
    | v :: _ => .declared v.number
    | [] => .unrecognized

end Protobuf.Schema.Enum
