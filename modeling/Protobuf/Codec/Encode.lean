import Protobuf.Codec.Schema
import Protobuf.Wire.DecimalText

/-!
# Writing messages

Members are written in the order of declaration. A plain field is left out when
it has the value of a field that was not set; values that are present otherwise
are always written, and so are both parts of a map entry.
-/

namespace Protobuf.Codec

open Plan

def tagOf (number wireType : Nat) : UInt32 :=
  UInt32.ofNat (number * 8 + wireType)

namespace Schema

/-- Write a scalar without its tag; a number held as text is read first. -/
def writeScalar (s : Schema) (t : Scalar) (p : Primitive) (w : Wire.Writer) : Wire.Writer :=
  match s.textWidth? t, p with
  | some width, .string text => t.write (.ofInt width (Wire.decimalValue width text)) w
  | some _, _ => w
  | none, p => t.write p w

/-- Write a value without its tag; only scalars and enums are written so. -/
def writeBare (s : Schema) (kind : ValueKind) (v : Value) (w : Wire.Writer) : Wire.Writer :=
  match kind, v with
  | .scalar t, .scalar p => s.writeScalar t p w
  | .enum _ e, .choice c => w.int32 (e.number c)
  | _, _ => w

/-- Whether a plain value is that of a field that was not set. -/
def isUnset (s : Schema) (kind : ValueKind) (v : Value) : Bool :=
  match kind, v with
  | .scalar t, .scalar p =>
    match s.textWidth? t, p with
    | some width, .string text => Wire.decimalValue width text == 0
    | _, p => p.isZero
  | .enum _ e, .choice c => c == e.unset
  | _, _ => false

mutual

/-- Write a value under a field number. -/
def writeValue (s : Schema) (number : Nat) (kind : ValueKind) : Value → Wire.Writer → Wire.Writer
  | .scalar p, w =>
    match kind with
    | .wrapper k => k.write (tagOf number 2) p w
    | .scalar t => s.writeScalar t p (w.uint32 (tagOf number t.wireType))
    | _ => w
  | .choice c, w =>
    match kind with
    | .enum _ e => (w.uint32 (tagOf number 0)).int32 (e.number c)
    | _ => w
  | .time t, w =>
    match kind with
    | .timestamp => w.message (tagOf number 2) (Timestamp.ofInstant t).encode
    | _ => w
  | .message slots, w =>
    match kind with
    | .message ref =>
      w.message (tagOf number 2) (writeSlots s (s.members ref.qualifiedName) slots)
    | _ => w

def writeValues (s : Schema) (number : Nat) (kind : ValueKind) :
    List Value → Wire.Writer → Wire.Writer
  | [], w => w
  | v :: vs, w => writeValues s number kind vs (writeValue s number kind v w)

/-- Write map entries, each as a message with both fields. -/
def writeEntries (s : Schema) (number : Nat) (key value : FieldPlan) :
    List (Primitive × Value) → Wire.Writer → Wire.Writer
  | [], w => w
  | (k, v) :: entries, w =>
    writeEntries s number key value entries <|
      w.message (tagOf number 2) fun w =>
        let w :=
          match key.kind with
          | .scalar t => s.writeScalar t k (w.uint32 (tagOf key.field.number t.wireType))
          | _ => w
        writeValue s value.field.number value.kind v w

def writeSlot (s : Schema) (m : Member) : Slot → Wire.Writer → Wire.Writer
  | .plain v, w =>
    match m with
    | .field p => if s.isUnset p.kind v then w else writeValue s p.field.number p.kind v w
    | .union _ => w
  | .optional none, w => w
  | .optional (some v), w =>
    match m with
    | .field p => writeValue s p.field.number p.kind v w
    | .union _ => w
  | .repeated vs, w =>
    match m with
    | .field p =>
      if p.isPacked then
        if vs.isEmpty then w
        else
          w.message (tagOf p.field.number 2) fun w =>
            vs.foldl (fun w v => s.writeBare p.kind v w) w
      else writeValues s p.field.number p.kind vs w
    | .union _ => w
  | .map entries, w =>
    match m with
    | .field p =>
      match p.layout with
      | .map _ key value => writeEntries s p.field.number key value entries w
      | _ => w
    | .union _ => w
  | .union none, w => w
  | .union (some (number, v)), w =>
    match m.kind? number with
    | some kind => writeValue s number kind v w
    | none => w

def writeSlots (s : Schema) : List Member → List Slot → Wire.Writer → Wire.Writer
  | m :: members, slot :: slots, w => writeSlots s members slots (writeSlot s m slot w)
  | _, _, w => w

end

def write (s : Schema) (name : String) (m : Message) (w : Wire.Writer) : Wire.Writer :=
  s.writeSlots (s.members name) m w

/-- The bytes of a message of the type with a qualified name. -/
def encode (s : Schema) (name : String) (m : Message) : List UInt8 :=
  (s.write name m .empty).finish

end Schema

end Protobuf.Codec
