import Protobuf.Text.Numeral
import Protobuf.Time.Calendar
import Protobuf.Time.Instant

/-!
# Dates as RFC 3339 text

Writing gives universal time with 0, 3, 6 or 9 digits of a second, as few as are
exact. Reading accepts any offset from universal time and any number of digits,
of which nine count; it works on the bytes of the text, and the first fault from
the left is the one reported.
-/

namespace Protobuf.Time

/-- Why a text is no date. -/
inductive DateFault where
  /-- The text ends too early. -/
  | short
  /-- A byte is not one that can stand at its place. -/
  | invalid
  | range
  /-- Something follows the offset. -/
  | long
  deriving DecidableEq

def DateFault.message : DateFault → String
  | .short => "premature end of input"
  | .invalid => "input contains invalid characters"
  | .range => "input is out of range"
  | .long => "trailing input"

def byteDigit? (b : UInt8) : Option Nat :=
  if 48 ≤ b.toNat ∧ b.toNat ≤ 57 then some (b.toNat - 48) else none

def twoDigits? : List UInt8 → Option (Nat × List UInt8)
  | a :: b :: rest => do
    let a ← byteDigit? a
    let b ← byteDigit? b
    return (10 * a + b, rest)
  | _ => none

/-- A byte that must stand here. -/
def expect? (b : Char) : List UInt8 → Option (List UInt8)
  | c :: rest => if c.toNat = b.toNat then some rest else none
  | [] => none

/-- Four digits, two digits and two digits with hyphens between them. -/
def dateDigits? (bytes : List UInt8) : Option (Date × List UInt8) := do
  let (century, rest) ← twoDigits? bytes
  let (year, rest) ← twoDigits? rest
  let rest ← expect? '-' rest
  let (month, rest) ← twoDigits? rest
  let rest ← expect? '-' rest
  let (day, rest) ← twoDigits? rest
  return (⟨century * 100 + year, month, day⟩, rest)

/-- A time of day: hour, minute, second. -/
structure Clock where
  hour : Nat
  minute : Nat
  /-- Second of the minute, up to 60. -/
  second : Nat
  deriving DecidableEq

/-- Three pairs of digits with colons between them. -/
def clockDigits? (bytes : List UInt8) : Option (Clock × List UInt8) := do
  let (hour, rest) ← twoDigits? bytes
  let rest ← expect? ':' rest
  let (minute, rest) ← twoDigits? rest
  let rest ← expect? ':' rest
  let (second, rest) ← twoDigits? rest
  return (⟨hour, minute, second⟩, rest)

/-- The nanoseconds of the digits after the point; digits after the ninth do not count. -/
def fractionNanos (digits : List Nat) : Nat :=
  let kept := digits.take 9
  kept.foldl (fun n d => 10 * n + d) 0 * Nat.pow 10 (9 - kept.length)

/-- The part after the seconds: nothing, or a point and at least one digit. -/
def fraction (bytes : List UInt8) : Except DateFault (Nat × List UInt8) :=
  match bytes with
  | b :: rest =>
    if b.toNat = '.'.toNat then
      let digits := rest.takeWhile fun c => (byteDigit? c).isSome
      if digits.isEmpty then .error (if rest.isEmpty then .short else .invalid)
      else .ok (fractionNanos (digits.filterMap byteDigit?), rest.drop digits.length)
    else .ok (0, bytes)
  | [] => .ok (0, [])

/-- The sign of an offset: plus, hyphen, or the minus sign U+2212, which is three bytes. -/
def offsetSign? : List UInt8 → Option (Bool × List UInt8)
  | 0x2B :: rest => some (false, rest)
  | 0x2D :: rest => some (true, rest)
  | 0xE2 :: 0x88 :: 0x92 :: rest => some (true, rest)
  | _ => none

/-- The minutes of an offset. A tens digit above five is out of range; anything else that is not
two digits is invalid. -/
def offsetMinutes (bytes : List UInt8) : Except DateFault (Nat × List UInt8) :=
  match bytes with
  | a :: b :: rest =>
    match byteDigit? a, byteDigit? b with
    | some tens, some ones => if tens < 6 then .ok (10 * tens + ones, rest) else .error .range
    | _, _ => .error .invalid
  | _ => .error .short

/-- The offset from universal time, in minutes. -/
def offset (bytes : List UInt8) : Except DateFault (Int × List UInt8) :=
  match bytes with
  | [] => .error .short
  | 0x5A :: rest | 0x7A :: rest => .ok (0, rest)
  | _ => do
    let some (negative, rest) := offsetSign? bytes | .error .invalid
    if rest.length < 2 then .error .short
    let some (hours, rest) := twoDigits? rest | .error .invalid
    if rest.isEmpty then .error .short
    let some rest := expect? ':' rest | .error .invalid
    let (minutes, rest) ← offsetMinutes rest
    let total : Int := hours * 60 + minutes
    return (if negative then -total else total, rest)

def isTimeMark (b : UInt8) : Bool :=
  b.toNat = 'T'.toNat || b.toNat = 't'.toNat || b.toNat = ' '.toNat

/-- Read the bytes of an RFC 3339 text. The sixtieth second of a minute is the leap second after
second 59. -/
def parseBytes (bytes : List UInt8) : Except DateFault Instant := do
  if bytes.length < 19 then .error .short
  let some (date, rest) := dateDigits? bytes | .error .invalid
  if !date.isReal then .error .range
  let mark :: rest := rest | .error .invalid
  if !isTimeMark mark then .error .invalid
  let some (clock, rest) := clockDigits? rest | .error .invalid
  let leap := clock.second = 60
  let second := if leap then 59 else clock.second
  let (nanos, rest) ← fraction rest
  if 23 < clock.hour || 59 < clock.minute || 59 < second then .error .range
  let (shift, rest) ← offset rest
  if !rest.isEmpty then .error .long
  if 1440 ≤ shift.natAbs then .error .range
  let localSecond : Int := date.toDays * 86400 + clock.hour * 3600 + clock.minute * 60 + second
  match Instant.ofParts? (localSecond - shift * 60) (nanos + if leap then 1000000000 else 0) with
  | some instant => .ok instant
  | none => .error .range

def parse (s : String) : Except DateFault Instant :=
  parseBytes s.toUTF8.data.toList

/-- A year as text: four digits, with a sign and more digits if needed outside 0 to 9999. -/
def yearChars (year : Int) : List Char :=
  if 0 ≤ year ∧ year ≤ 9999 then Text.padded 4 year.toNat
  else (if year < 0 then '-' else '+') :: Text.padded 4 year.natAbs

/-- The fraction of a second: none, or a point and 3, 6 or 9 digits. -/
def fractionChars (nanos : Nat) : List Char :=
  if nanos = 0 then []
  else if nanos % 1000000 = 0 then '.' :: Text.padded 3 (nanos / 1000000)
  else if nanos % 1000 = 0 then '.' :: Text.padded 6 (nanos / 1000)
  else '.' :: Text.padded 9 nanos

/-- The characters of an instant as RFC 3339 text in universal time. -/
def formatChars (t : Instant) : List Char :=
  let date := Date.ofDays (t.seconds / 86400)
  let clock := (t.seconds % 86400).toNat
  let leap := 1000000000 ≤ t.nanos
  let second := clock % 60 + if leap then 1 else 0
  let nanos := if leap then t.nanos - 1000000000 else t.nanos
  yearChars date.year ++ '-' :: Text.padded 2 date.month ++ '-' :: Text.padded 2 date.day ++
    'T' :: Text.padded 2 (clock / 3600) ++ ':' :: Text.padded 2 (clock / 60 % 60) ++
    ':' :: Text.padded 2 second ++ fractionChars nanos ++ ['Z']

def format (t : Instant) : String :=
  String.ofList (formatChars t)

end Protobuf.Time
