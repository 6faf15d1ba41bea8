import Protobuf.Base64
import Protobuf.Json.Error
import Protobuf.Numeric.Parse

/-!
# Coercions between JSON values and field values

Reading is lenient: integers accept numbers and numerals in strings, doubles
accept the words for infinities and not-a-number, bytes accept four spellings of
base64, and a timestamp is a date, a number of seconds or an object with both
parts. An integer outside its type is refused. In a string, one that is written
with a point or an exponent is read as a double first.
-/

namespace Protobuf.Json

def asObject : Json → Except Error (List (String × Json))
  | .object members => .ok members
  | other => .error (.unexpected .object other)

def asArray : Json → Except Error (List Json)
  | .array items => .ok items
  | other => .error (.unexpected .array other)

/-- The value under the first of the names that has one other than null. -/
def field? (members : List (String × Json)) : List String → Option Json
  | [] => none
  | name :: names =>
    match member? name members with
    | some value => if value.isNull then field? members names else some value
    | none => field? members names

def toText : Json → Except Error String
  | .string s => .ok s
  | .number n => .ok n.text
  | .bool b => .ok (if b then "true" else "false")
  | other => .error (.unexpected .string other)

def toBool : Json → Except Error Bool
  | .bool b => .ok b
  | .string s =>
    if s = "true" then .ok true
    else if s = "false" then .ok false
    else .error (.unexpected .boolean (.string s))
  | other => .error (.unexpected .boolean other)

/-- The least and greatest 128-bit integers. -/
def wideLeast : Int := -170141183460469231731687303715884105728

/-- The greatest 128-bit integer. -/
def wideGreatest : Int := 170141183460469231731687303715884105727

/-- The integer that a double without fraction is, held to 128 bits. -/
def wideOfDouble? (x : Numeric.Double) : Option Int :=
  x.integer?.map fun n => max wideLeast (min wideGreatest n)

/-- The integer written by a text: a 128-bit numeral, or a decimal without fraction. -/
def wideOfText? (s : String) : Option Int :=
  let cs := Text.trimChars s.toList
  match (Text.integer? true cs).filter fun n => wideLeast ≤ n && n ≤ wideGreatest with
  | some n => some n
  | none => (Numeric.Double.parse? cs).bind wideOfDouble?

/-- The integer that a value denotes, before its type is looked at. -/
def toWide (value : Json) : Except Error Int :=
  let wide : Option Int :=
    match value with
    | .number (.integer n) => some n
    | .number (.double x) => wideOfDouble? x
    | .string s => wideOfText? s
    | _ => none
  match wide with
  | some n => .ok n
  | none => .error (.unexpected .integer value)

def toInteger (width : Numeric.Width) (value : Json) : Except Error Int := do
  let n ← toWide value
  if width.holds n then .ok n else .error (.outOfRange n width)

def toIntegerText (width : Numeric.Width) (value : Json) : Except Error String :=
  (toInteger width value).map Text.intText

/-- A double: a number, a word for a special value, or a decimal in a string. -/
def toDouble : Json → Except Error Numeric.Double
  | .number (.integer n) => .ok (.ofInt n)
  | .number (.double x) => .ok x
  | .string s =>
    if s = "NaN" then .ok (.nan false)
    else if s = "Infinity" then .ok (.infinity false)
    else if s = "-Infinity" then .ok (.infinity true)
    else
      match Numeric.Double.parse? (Text.trimChars s.toList) with
      | some x => .ok x
      | none => .error (.unexpected .number (.string s))
  | other => .error (.unexpected .number other)

def toSingle (value : Json) : Except Error Numeric.Single :=
  (toDouble value).map Numeric.Double.toSingle

/-- A double as JSON; values that are no JSON number become words. -/
def ofDouble (x : Numeric.Double) : Json :=
  if x.isNaN then .string "NaN"
  else if x.isInfinite then .string (if x.negative then "-Infinity" else "Infinity")
  else .number (.double x)

/-- A single as JSON, by way of the double of the same value. -/
def ofSingle (x : Numeric.Single) : Json :=
  ofDouble x.toDouble

def integerKey (width : Numeric.Width) (key : String) : Except Error Int :=
  match width.parse? key.toList with
  | some n => .ok n
  | none => .error (.mapKey key)

def boolKey (key : String) : Except Error Bool :=
  if key = "true" then .ok true
  else if key = "false" then .ok false
  else .error (.mapKey key)

/-- An integer map key held as text: blanks around it are dropped and it becomes canonical. -/
def decimalKey (width : Numeric.Width) (key : String) : Except Error String :=
  (integerKey width (Text.trim key)).map Text.intText

def toBytes (text : String) : Except Error (List UInt8) :=
  match Base64.decode? text with
  | some bytes => .ok bytes
  | none => .error (.base64 text)

def instantOfParts (seconds nanos : Int) : Except Error Time.Instant :=
  match Time.Instant.ofParts? seconds nanos with
  | some t => .ok t
  | none => .error (.timestamp (.parts seconds nanos))

/-- A part of a timestamp object; zero if it is absent. -/
def timestampPart (width : Numeric.Width) (key : String)
    (members : List (String × Json)) : Except Error Int :=
  match member? key members with
  | some value => toInteger width value
  | none => .ok 0

/-- A timestamp from a date, a number of seconds or an object. -/
def toInstant (value : Json) : Except Error Time.Instant :=
  match value with
  | .string s =>
    match Time.parse s with
    | .ok t => .ok t
    | .error fault => .error (.timestamp (.text s fault))
  | .number n => do
    let seconds ← toInteger .int64 (.number n)
    instantOfParts seconds 0
  | .object members => do
    let seconds ← timestampPart .int64 "seconds" members
    let nanos ← timestampPart .int32 "nanos" members
    instantOfParts seconds nanos
  | other => .error (.unexpected .timestamp other)

end Protobuf.Json
