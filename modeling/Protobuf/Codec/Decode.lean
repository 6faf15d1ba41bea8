import Protobuf.Codec.Schema

/-!
# Reading messages

Records are read in the order of the wire. A record of a single value replaces
what was there, one of a repeated field adds to it, and one whose number belongs
to no member is skipped. The wire type of a known field is looked at only to tell
a packed block from a single value.
-/

namespace Protobuf.Codec

open Plan

/-- Key and value of a map entry that was read as a message; `missing` stands for a value that
is not there. -/
def entryOf? (missing : Value) : Message → Option (Primitive × Value)
  | .plain (.scalar key) :: .plain v :: _ => some (key, v)
  | .plain (.scalar key) :: .optional (some v) :: _ => some (key, v)
  | .plain (.scalar key) :: .optional none :: _ => some (key, missing)
  | _ => none

abbrev MessageReader := (name : String) → (length : Option Nat) → Wire.Read Message

namespace Schema

/-- Read a scalar; a number that is held as text becomes its numeral. -/
def readScalar (s : Schema) (t : Scalar) : Wire.Read Primitive := do
  let p ← t.read
  match s.textWidth? t, p.toInt? with
  | some _, some n => return .string (Text.intText n)
  | _, _ => return p

def readValue (s : Schema) (inner : MessageReader) : ValueKind → Wire.Read Value
  | .scalar t => return .scalar (← s.readScalar t)
  | .enum _ e => return .choice (e.ofNumber (← Wire.Reader.int32))
  | .wrapper k => return .scalar (← k.read)
  | .timestamp => return .time (← Wire.Reader.message Timestamp.decode).toInstant
  | .message ref => return .message (← Wire.Reader.message (inner ref.qualifiedName))

def readPacked (s : Schema) (inner : MessageReader) (kind : ValueKind) :
    Wire.Read (List Value) := do
  let stop ← Wire.Reader.packedEnd
  let vs ← Wire.Reader.itemsUntil (s.readValue inner kind) stop (← get).rest.length []
  Wire.Reader.finishFrame stop
  return vs

/-- The value of a map entry that has none. A number held as text is the empty text then. -/
def missingValue (s : Schema) : ValueKind → Value
  | .scalar t => .scalar (if (s.textWidth? t).isSome then .string "" else t.zero)
  | kind => s.zeroValue kind

/-- Read a record of a member into its slot. -/
def readMember (s : Schema) (inner : MessageReader) (number wireType : Nat) (kind : ValueKind) :
    Member → Slot → Wire.Read Slot
  | .field p, slot => do
    match p.layout, slot with
    | .plain, _ => return .plain (← s.readValue inner kind)
    | .optional, _ => return .optional (some (← s.readValue inner kind))
    | .repeated, .repeated vs =>
      if p.isPacked && wireType == 2 then return .repeated (vs ++ (← s.readPacked inner kind))
      else return .repeated (vs ++ [← s.readValue inner kind])
    | .map entry _ value, .map entries =>
      let m ← Wire.Reader.message (inner entry.qualifiedName)
      match entryOf? (s.missingValue value.kind) m with
      | some (k, v) => return .map (putEntry k v entries)
      | none => return .map entries
    | _, slot => return slot
  | .union _, _ => return .union (some (number, ← s.readValue inner kind))

/-- Read a record into the slot of the first member that has its number. -/
def readRecord (s : Schema) (inner : MessageReader) (number wireType : Nat) :
    List Member → List Slot → Wire.Read (List Slot)
  | m :: members, slot :: slots =>
    match m.kind? number with
    | some kind => return (← s.readMember inner number wireType kind m slot) :: slots
    | none => return slot :: (← readRecord s inner number wireType members slots)
  | _, slots => do
    Wire.Reader.skipValue wireType
    return slots

/-- Read a message with messages nested at most `levels` deep. -/
def readWithin (s : Schema) : (levels : Nat) → MessageReader
  | 0, _, _ => fun r => .error (.recursionLimit r.pos Wire.recursionLimit) r
  | levels + 1, name, length =>
    Wire.Reader.frame
      (fun number wireType slots =>
        s.readRecord (s.readWithin levels) number wireType (s.members name) slots)
      length (s.zero name)

/-- Read a message of the type with a qualified name in a frame. The reader refuses to go deeper
than its limit, so one level more than that is never used up. -/
def read (s : Schema) : MessageReader :=
  s.readWithin (Wire.recursionLimit + 1)

/-- The message of the type with a qualified name that some bytes are. -/
def decode (s : Schema) (name : String) (bytes : List UInt8) : Except Wire.DecodeError Message :=
  match s.read name none (Wire.Reader.ofBytes bytes) with
  | .ok m _ => .ok m
  | .error e _ => .error e

end Schema

end Protobuf.Codec
