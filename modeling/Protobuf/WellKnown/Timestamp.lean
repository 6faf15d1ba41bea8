import Protobuf.Time.Instant
import Protobuf.Wire.Reader
import Protobuf.Wire.Writer

/-!
# Timestamp messages

On the wire an instant is a message of seconds and nanoseconds. Any two numbers
can be read; those that name no instant stand for the epoch.
-/

namespace Protobuf

/-- The message that carries an instant. -/
structure Timestamp where
  seconds : Int64
  /-- Nanoseconds within the second. -/
  nanos : Int32
  deriving DecidableEq

namespace Timestamp

def typeName : String := ".google.protobuf.Timestamp"

/-- The message with both parts zero. -/
def zero : Timestamp := ⟨0, 0⟩

def ofInstant (t : Time.Instant) : Timestamp :=
  ⟨Int64.ofInt t.seconds, Int32.ofInt t.nanos⟩

/-- The instant of a message, or the epoch if it names none. -/
def toInstant (t : Timestamp) : Time.Instant :=
  (Time.Instant.ofParts? t.seconds.toInt t.nanos.toInt).getD .epoch

def encode (t : Timestamp) (w : Wire.Writer) : Wire.Writer :=
  let w := if t.seconds = 0 then w else (w.uint32 8).int64 t.seconds
  if t.nanos = 0 then w else (w.uint32 16).int32 t.nanos

def field (number wireType : Nat) (t : Timestamp) : Wire.Read Timestamp := do
  match number with
  | 1 => return { t with seconds := ← Wire.Reader.int64 }
  | 2 => return { t with nanos := ← Wire.Reader.int32 }
  | _ =>
    Wire.Reader.skipValue wireType
    return t

def decode (length : Option Nat) : Wire.Read Timestamp :=
  Wire.Reader.frame field length zero

end Timestamp

end Protobuf
