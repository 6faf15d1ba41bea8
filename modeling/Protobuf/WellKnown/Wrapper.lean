import Protobuf.Wire.Scalar

/-!
# Wrapper messages

A wrapper is a message with a single scalar field of number one. It is always
written when present, and its inner value only when that differs from zero.
Entering a wrapper does not count as nesting.
-/

namespace Protobuf

/-- The nine wrapper messages. -/
inductive Wrapper where
  | double
  | float
  | int64
  | uint64
  | int32
  | uint32
  | bool
  | string
  | bytes
  deriving DecidableEq

namespace Wrapper

def typeName : Wrapper → String
  | double => ".google.protobuf.DoubleValue"
  | float => ".google.protobuf.FloatValue"
  | int64 => ".google.protobuf.Int64Value"
  | uint64 => ".google.protobuf.UInt64Value"
  | int32 => ".google.protobuf.Int32Value"
  | uint32 => ".google.protobuf.UInt32Value"
  | bool => ".google.protobuf.BoolValue"
  | string => ".google.protobuf.StringValue"
  | bytes => ".google.protobuf.BytesValue"

def all : List Wrapper :=
  [double, float, int64, uint64, int32, uint32, bool, string, bytes]

def ofTypeName? (name : String) : Option Wrapper :=
  all.find? fun w => w.typeName == name

/-- The type of the inner value. -/
def scalar : Wrapper → Scalar
  | double => .double
  | float => .float
  | int64 => .int64
  | uint64 => .uint64
  | int32 => .int32
  | uint32 => .uint32
  | bool => .bool
  | string => .string
  | bytes => .bytes

def write (kind : Wrapper) (tag : UInt32) (value : Primitive) (w : Wire.Writer) : Wire.Writer :=
  w.message tag fun w =>
    if value.isZero then w
    else kind.scalar.write value (w.uint32 (UInt32.ofNat (8 + kind.scalar.wireType)))

/-- Read a length and the wrapper of that length. Field one is read as the inner type whatever
its wire type; of several occurrences the last one counts. -/
def read (kind : Wrapper) : Wire.Read Primitive := do
  let length ← Wire.Reader.uint32
  Wire.Reader.frame
    (fun number wireType value =>
      if number = 1 then kind.scalar.read
      else do
        Wire.Reader.skipValue wireType
        return value)
    (some length.toNat) kind.scalar.zero

end Wrapper

end Protobuf
