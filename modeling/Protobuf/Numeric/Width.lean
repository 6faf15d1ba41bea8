import Protobuf.Text.Numeral

/-!
# Fixed-width integers

The four integer types that a field can hold, with their ranges and the names
under which errors speak of them.
-/

namespace Protobuf.Numeric

/-- An integer type of 32 or 64 bits. -/
inductive Width where
  | int32
  | uint32
  | int64
  | uint64
  deriving DecidableEq

namespace Width

def name : Width → String
  | int32 => "int32"
  | uint32 => "uint32"
  | int64 => "int64"
  | uint64 => "uint64"

/-- Whether negative numbers belong to the type. -/
def signed : Width → Bool
  | int32 | int64 => true
  | uint32 | uint64 => false

def least : Width → Int
  | int32 => -2147483648
  | int64 => -9223372036854775808
  | uint32 | uint64 => 0

def greatest : Width → Int
  | int32 => 2147483647
  | uint32 => 4294967295
  | int64 => 9223372036854775807
  | uint64 => 18446744073709551615

/-- Whether a number belongs to the type. -/
def holds (w : Width) (n : Int) : Bool :=
  w.least ≤ n && n ≤ w.greatest

/-- Read a numeral of the type: a sign where the type has one, digits, and a value in range. -/
def parse? (w : Width) (cs : List Char) : Option Int :=
  (Text.integer? w.signed cs).filter w.holds

end Width

end Protobuf.Numeric
