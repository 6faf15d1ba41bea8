import Protobuf.Numeric.Width
import Protobuf.Wire.Reader
import Protobuf.Wire.Writer

/-!
# Scalar types

The fifteen scalar types of fields, the values that they hold, and how a value is
written and read. Several types hold the same values and differ only on the wire.
-/

namespace Protobuf

/-- A scalar field type. -/
inductive Scalar where
  | double
  | float
  | int32
  | int64
  | uint32
  | uint64
  | sint32
  | sint64
  | fixed32
  | fixed64
  | sfixed32
  | sfixed64
  | bool
  | string
  | bytes
  deriving DecidableEq

/-- A value of a scalar type. -/
inductive Primitive where
  | double (x : Numeric.Double)
  | float (x : Numeric.Single)
  | int32 (n : Int32)
  | int64 (n : Int64)
  | uint32 (n : UInt32)
  | uint64 (n : UInt64)
  | bool (b : Bool)
  | string (s : String)
  | bytes (bs : List UInt8)
  deriving DecidableEq

namespace Scalar

def all : List Scalar :=
  [double, float, int32, int64, uint32, uint64, sint32, sint64, fixed32, fixed64, sfixed32,
    sfixed64, bool, string, bytes]

def wireType : Scalar → Nat
  | double | fixed64 | sfixed64 => 1
  | float | fixed32 | sfixed32 => 5
  | string | bytes => 2
  | int32 | int64 | uint32 | uint64 | sint32 | sint64 | bool => 0

/-- Whether repeated values can share one length-delimited block. -/
def isPackable : Scalar → Bool
  | string | bytes => false
  | _ => true

/-- The 64-bit integers, whose representation is an option. -/
def isLong : Scalar → Bool
  | int64 | uint64 | sint64 | fixed64 | sfixed64 => true
  | _ => false

/-- Whether the type holds natural numbers. -/
def isUnsigned : Scalar → Bool
  | uint32 | uint64 | fixed32 | fixed64 => true
  | _ => false

/-- Whether the type holds floating-point values. -/
def isFloat : Scalar → Bool
  | double | float => true
  | _ => false

/-- The name of the type in schemas, which is also the name of its reading and writing method. -/
def name : Scalar → String
  | double => "double"
  | float => "float"
  | int32 => "int32"
  | int64 => "int64"
  | uint32 => "uint32"
  | uint64 => "uint64"
  | sint32 => "sint32"
  | sint64 => "sint64"
  | fixed32 => "fixed32"
  | fixed64 => "fixed64"
  | sfixed32 => "sfixed32"
  | sfixed64 => "sfixed64"
  | bool => "bool"
  | string => "string"
  | bytes => "bytes"

/-- The integer type of the values, for integer scalars. -/
def width? : Scalar → Option Numeric.Width
  | int32 | sint32 | sfixed32 => some .int32
  | uint32 | fixed32 => some .uint32
  | int64 | sint64 | sfixed64 => some .int64
  | uint64 | fixed64 => some .uint64
  | _ => none

/-- The value of a field that was not set. -/
def zero : Scalar → Primitive
  | double => .double .zero
  | float => .float .zero
  | int32 | sint32 | sfixed32 => .int32 0
  | int64 | sint64 | sfixed64 => .int64 0
  | uint32 | fixed32 => .uint32 0
  | uint64 | fixed64 => .uint64 0
  | bool => .bool false
  | string => .string ""
  | bytes => .bytes []

/-- Whether a value belongs to the type. -/
def holds : Scalar → Primitive → Bool
  | double, .double _ => true
  | float, .float _ => true
  | int32, .int32 _ | sint32, .int32 _ | sfixed32, .int32 _ => true
  | int64, .int64 _ | sint64, .int64 _ | sfixed64, .int64 _ => true
  | uint32, .uint32 _ | fixed32, .uint32 _ => true
  | uint64, .uint64 _ | fixed64, .uint64 _ => true
  | bool, .bool _ => true
  | string, .string _ => true
  | bytes, .bytes _ => true
  | _, _ => false

/-- Read a value of the type. -/
def read : Scalar → Wire.Read Primitive
  | double => return .double (← Wire.Reader.double)
  | float => return .float (← Wire.Reader.float)
  | int32 => return .int32 (← Wire.Reader.int32)
  | int64 => return .int64 (← Wire.Reader.int64)
  | uint32 => return .uint32 (← Wire.Reader.uint32)
  | uint64 => return .uint64 (← Wire.Reader.uint64)
  | sint32 => return .int32 (← Wire.Reader.sint32)
  | sint64 => return .int64 (← Wire.Reader.sint64)
  | fixed32 => return .uint32 (← Wire.Reader.fixed32)
  | fixed64 => return .uint64 (← Wire.Reader.fixed64)
  | sfixed32 => return .int32 (← Wire.Reader.sfixed32)
  | sfixed64 => return .int64 (← Wire.Reader.sfixed64)
  | bool => return .bool (← Wire.Reader.bool)
  | string => return .string (← Wire.Reader.string)
  | bytes => return .bytes (← Wire.Reader.bytes)

/-- Write a value of the type; a value of another type leaves the writer as it is. -/
def write : Scalar → Primitive → Wire.Writer → Wire.Writer
  | double, .double x, w => w.double x
  | float, .float x, w => w.float x
  | int32, .int32 n, w => w.int32 n
  | int64, .int64 n, w => w.int64 n
  | uint32, .uint32 n, w => w.uint32 n
  | uint64, .uint64 n, w => w.uint64 n
  | sint32, .int32 n, w => w.sint32 n
  | sint64, .int64 n, w => w.sint64 n
  | fixed32, .uint32 n, w => w.fixed32 n
  | fixed64, .uint64 n, w => w.fixed64 n
  | sfixed32, .int32 n, w => w.sfixed32 n
  | sfixed64, .int64 n, w => w.sfixed64 n
  | bool, .bool b, w => w.bool b
  | string, .string s, w => w.string s
  | bytes, .bytes bs, w => w.bytes bs
  | _, _, w => w

end Scalar

namespace Primitive

/-- Equality as arithmetic has it for floating-point values, and identity for the others. -/
def numericEq : Primitive → Primitive → Bool
  | .double x, .double y => x.numericEq y
  | .float x, .float y => x.numericEq y
  | p, q => p == q

/-- Whether a value counts as not set: zero of either sign, false, or empty. -/
def isZero : Primitive → Bool
  | .double x => x.isZero
  | .float x => x.isZero
  | .int32 n => n == 0
  | .int64 n => n == 0
  | .uint32 n => n == 0
  | .uint64 n => n == 0
  | .bool b => !b
  | .string s => s.isEmpty
  | .bytes bs => bs.isEmpty

/-- The value of an integer type with a given number. -/
def ofInt : Numeric.Width → Int → Primitive
  | .int32, n => .int32 (Int32.ofInt n)
  | .uint32, n => .uint32 (UInt32.ofInt n)
  | .int64, n => .int64 (Int64.ofInt n)
  | .uint64, n => .uint64 (UInt64.ofInt n)

/-- The number that an integer value is. -/
def toInt? : Primitive → Option Int
  | .int32 n => some n.toInt
  | .int64 n => some n.toInt
  | .uint32 n => some n.toNat
  | .uint64 n => some n.toNat
  | _ => none

end Primitive

end Protobuf
