import Protobuf.Json.Basic
import Protobuf.Numeric.Width
import Protobuf.Text.Quoted
import Protobuf.Time.Rfc3339

/-!
# Why a JSON value does not fit a field

Each failure keeps what was found; `message` words it.
-/

namespace Protobuf.Json

/-- What a coercion accepts. -/
inductive Expected where
  | string
  | boolean
  | integer
  | number
  | array
  | object
  | timestamp
  deriving DecidableEq

def Expected.text : Expected → String
  | .string => "a string"
  | .boolean => "a boolean"
  | .integer => "an integer"
  | .number => "a number"
  | .array => "an array"
  | .object => "an object"
  | .timestamp => "a timestamp"

/-- A JSON value as error messages show it: containers by their kind, the others with their
content. -/
inductive Found where
  | null
  | boolean (b : Bool)
  | number (n : Number)
  | string (s : String)
  | array
  | object
  deriving DecidableEq

def Found.ofJson : Json → Found
  | .null => .null
  | .bool b => .boolean b
  | .number n => .number n
  | .string s => .string s
  | .array _ => .array
  | .object _ => .object

def Found.text : Found → String
  | .null => "null"
  | .boolean b => if b then "boolean true" else "boolean false"
  | .number n => "number " ++ n.text
  | .string s => "string " ++ Text.quoted s
  | .array => "array"
  | .object => "object"

/-- Why a timestamp was refused. -/
inductive TimestampFault where
  | text (s : String) (fault : Time.DateFault)
  | parts (seconds nanos : Int)
  deriving DecidableEq

/-- A JSON value that does not fit the field it is assigned to. -/
inductive Error where
  /-- The value is of another kind. -/
  | invalidValue (expected : Expected) (found : Found)
  /-- The number does not belong to the integer type. -/
  | outOfRange (value : Int) (target : Numeric.Width)
  | base64 (text : String)
  | timestamp (fault : TimestampFault)
  /-- The key does not belong to the key type. -/
  | mapKey (key : String)
  deriving DecidableEq

def TimestampFault.message : TimestampFault → String
  | .text s fault => Text.quoted s ++ ": " ++ fault.message
  | .parts seconds nanos =>
    "seconds=" ++ Text.intText seconds ++ " nanos=" ++ Text.intText nanos

/-- The wording of a failure. -/
def Error.message : Error → String
  | .invalidValue expected found => "expected " ++ expected.text ++ ", found " ++ found.text
  | .outOfRange value target =>
    "number " ++ Text.intText value ++ " is out of range for " ++ target.name
  | .base64 text => "invalid base64: " ++ text
  | .timestamp fault => "invalid timestamp: " ++ fault.message
  | .mapKey key => "invalid map key " ++ Text.quoted key

/-- The failure of a value of another kind than expected. -/
def Error.unexpected (expected : Expected) (value : Json) : Error :=
  .invalidValue expected (.ofJson value)

end Protobuf.Json
