import Protobuf.Codec.Schema
import Protobuf.Json.Coerce

/-!
# Messages as JSON

Every member is written under its JSON key, except that an unset optional member
is left out where its plan says so and an unset union has no key. The content of
a wrapper is written as a plain scalar, whatever the style of long integers.
-/

namespace Protobuf.Codec

open Plan

def keyText : Primitive → String
  | .string text => text
  | .bool b => if b then "true" else "false"
  | p => Text.intText (p.toInt?.getD 0)

def longToJson (style : LongStyle) (n : Int) : Json :=
  match style with
  | .wide => .string (Text.intText n)
  | _ => .ofInt n

def scalarToJson (style : LongStyle) : Primitive → Json
  | .double x => Json.ofDouble x
  | .float x => Json.ofSingle x
  | .int32 n => .ofInt n.toInt
  | .uint32 n => .ofNat n.toNat
  | .int64 n => longToJson style n.toInt
  | .uint64 n => longToJson style n.toNat
  | .bool b => .bool b
  | .string text => .string text
  | .bytes bs => .string (Base64.encode bs)

namespace Schema

mutual

def valueToJson (s : Schema) (kind : ValueKind) : Value → Json
  | .scalar p =>
    match kind with
    | .wrapper _ => scalarToJson .number p
    | _ => scalarToJson s.options.longs p
  | .choice c =>
    match kind with
    | .enum _ e => .string (e.jsonText c)
    | _ => .null
  | .time t => .string (Time.format t)
  | .message slots =>
    match kind with
    | .message ref => .ofMembers (slotsToJson s (s.members ref.qualifiedName) slots)
    | _ => .null

def valuesToJson (s : Schema) (kind : ValueKind) : List Value → List Json
  | [] => []
  | v :: vs => valueToJson s kind v :: valuesToJson s kind vs

/-- Map entries as the members of an object. -/
def entriesToJson (s : Schema) (kind : ValueKind) :
    List (Primitive × Value) → List (String × Json)
  | [] => []
  | (key, v) :: entries => (keyText key, valueToJson s kind v) :: entriesToJson s kind entries

/-- What a member holds, as members of an object. -/
def slotToJson (s : Schema) (m : Member) : Slot → List (String × Json)
  | .plain v =>
    match m with
    | .field p => [(p.jsonName, valueToJson s p.kind v)]
    | .union _ => []
  | .optional none =>
    match m with
    | .field p => if p.propertyOptional then [] else [(p.jsonName, .null)]
    | .union _ => []
  | .optional (some v) =>
    match m with
    | .field p => [(p.jsonName, valueToJson s p.kind v)]
    | .union _ => []
  | .repeated vs =>
    match m with
    | .field p => [(p.jsonName, .array (valuesToJson s p.kind vs))]
    | .union _ => []
  | .map entries =>
    match m with
    | .field p =>
      match p.layout with
      | .map _ _ value => [(p.jsonName, .ofMembers (entriesToJson s value.kind entries))]
      | _ => []
    | .union _ => []
  | .union none => []
  | .union (some (number, v)) =>
    match m with
    | .field _ => []
    | .union u =>
      match u.variants.find? fun v => v.field.number == number with
      | some variant => [(variant.jsonName, valueToJson s variant.kind v)]
      | none => []

def slotsToJson (s : Schema) : List Member → List Slot → List (String × Json)
  | m :: members, slot :: slots => slotToJson s m slot ++ slotsToJson s members slots
  | _, _ => []

end

def toJson (s : Schema) (name : String) (m : Message) : Json :=
  .ofMembers (s.slotsToJson (s.members name) m)

end Schema

end Protobuf.Codec
