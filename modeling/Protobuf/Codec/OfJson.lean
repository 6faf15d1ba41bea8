import Protobuf.Codec.Schema
import Protobuf.Json.Coerce

/-!
# Messages from JSON

Members are read in the order of declaration, each from the value under its JSON
key or, failing that, under the name that the schema gives it; null counts as
absent. Of a union the first member that is present is taken. The first failure
ends reading.
-/

namespace Protobuf.Json

/-- A value found under a name is smaller than the members that it was found in. -/
theorem sizeOf_lookup_lt {key : String} {value : Json} :
    ∀ {members : List (String × Json)}, members.lookup key = some value →
      sizeOf value < sizeOf members
  | [], h => by simp at h
  | (k, v) :: rest, h => by
    rw [List.lookup_cons] at h
    split at h
    · cases h
      simp
      omega
    · have := sizeOf_lookup_lt h
      simp
      omega

/-- A value found under one of several names is smaller than the members that it was found in. -/
theorem sizeOf_field?_lt {value : Json} {members : List (String × Json)} :
    ∀ {names : List String}, field? members names = some value → sizeOf value < sizeOf members
  | [], h => by simp [field?] at h
  | name :: names, h => by
    rw [field?] at h
    split at h
    · rename_i v hv
      split at h
      · exact sizeOf_field?_lt h
      · cases h
        exact sizeOf_lookup_lt hv
    · exact sizeOf_field?_lt h

end Protobuf.Json

namespace Protobuf.Codec

open Plan

/-- A scalar from JSON, where integers of a type held as text become their numerals. -/
def scalarOfJson (text : Option Numeric.Width) (t : Scalar) (value : Json) :
    Except Json.Error Primitive :=
  match t, text, t.width? with
  | .double, _, _ => (Json.toDouble value).map .double
  | .float, _, _ => (Json.toSingle value).map .float
  | .bool, _, _ => (Json.toBool value).map .bool
  | .string, _, _ => (Json.toText value).map .string
  | .bytes, _, _ => (Json.toText value).bind fun text => (Json.toBytes text).map .bytes
  | _, some width, _ => (Json.toIntegerText width value).map .string
  | _, none, some width => (Json.toInteger width value).map (.ofInt width)
  | t, none, none => .ok t.zero

namespace Schema

/-- A key of a map from the key of a JSON object. -/
def keyOfJson (s : Schema) (t : Scalar) (key : String) : Except Json.Error Primitive :=
  match t, s.textWidth? t, t.width? with
  | .bool, _, _ => (Json.boolKey key).map .bool
  | _, some width, _ => (Json.decimalKey width key).map .string
  | _, none, some width => (Json.integerKey width key).map (.ofInt width)
  | _, none, none => .ok (.string key)

def jsonNames (jsonName fieldName : String) : List String :=
  if jsonName = fieldName then [jsonName] else [jsonName, fieldName]

mutual

def valueOfJson (s : Schema) (kind : ValueKind) (value : Json) : Except Json.Error Value :=
  match kind with
  | .scalar t => (scalarOfJson (s.textWidth? t) t value).map .scalar
  | .enum _ e => .ok (.choice (e.ofJson value))
  | .wrapper k => (scalarOfJson none k.scalar value).map .scalar
  | .timestamp => (Json.toInstant value).map .time
  | .message ref =>
    match value with
    | .object members => do
      return .message (← slotsOfJson s members (s.members ref.qualifiedName))
    | other => .error (.unexpected .object other)
termination_by (sizeOf value, 0, 0)

def valuesOfJson (s : Schema) (kind : ValueKind) (items : List Json) :
    Except Json.Error (List Value) :=
  match items with
  | [] => .ok []
  | item :: items => do
    let v ← valueOfJson s kind item
    let vs ← valuesOfJson s kind items
    return v :: vs
termination_by (sizeOf items, 0, 0)

/-- Map entries from the members of an object, put to those in `entries`. -/
def entriesOfJson (s : Schema) (key value : ValueKind) (members : List (String × Json))
    (entries : List (Primitive × Value)) : Except Json.Error (List (Primitive × Value)) :=
  match members with
  | [] => .ok entries
  | (name, item) :: members =>
    if item.isNull then entriesOfJson s key value members entries
    else do
      let k ←
        match key with
        | .scalar t => s.keyOfJson t name
        | _ => .error (.mapKey name)
      let v ← valueOfJson s value item
      entriesOfJson s key value members (putEntry k v entries)
termination_by (sizeOf members, 0, 0)

def fieldOfJson (s : Schema) (p : FieldPlan) (value : Json) : Except Json.Error Slot :=
  match p.layout with
  | .plain => (valueOfJson s p.kind value).map .plain
  | .optional => (valueOfJson s p.kind value).map fun v => .optional (some v)
  | .repeated =>
    match value with
    | .array items => (valuesOfJson s p.kind items).map .repeated
    | other => .error (.unexpected .array other)
  | .map _ key entry =>
    match value with
    | .object members => (entriesOfJson s key.kind entry.kind members []).map .map
    | other => .error (.unexpected .object other)
termination_by (sizeOf value, 1, 0)

/-- The first member of a union that is present in an object. -/
def unionOfJson (s : Schema) (members : List (String × Json)) (variants : List VariantPlan) :
    Except Json.Error (Option (Nat × Value)) :=
  match variants with
  | [] => .ok none
  | variant :: variants =>
    match h : Json.field? members (jsonNames variant.jsonName variant.field.name) with
    | some value =>
      have := Json.sizeOf_field?_lt h
      (valueOfJson s variant.kind value).map fun v => some (variant.field.number, v)
    | none => unionOfJson s members variants
termination_by (sizeOf members, 0, variants.length)

/-- What a member holds, from the members of an object. -/
def slotOfJson (s : Schema) (members : List (String × Json)) (m : Member) :
    Except Json.Error Slot :=
  match m with
  | .field p =>
    match h : Json.field? members (jsonNames p.jsonName p.field.name) with
    | some value =>
      have := Json.sizeOf_field?_lt h
      fieldOfJson s p value
    | none => .ok (s.zeroSlot (.field p))
  | .union u => (unionOfJson s members u.variants).map .union
termination_by (sizeOf members, 1, 0)

/-- What the members of a message hold, from the members of an object. -/
def slotsOfJson (s : Schema) (members : List (String × Json)) (plans : List Member) :
    Except Json.Error (List Slot) :=
  match plans with
  | [] => .ok []
  | m :: plans => do
    let slot ← slotOfJson s members m
    let slots ← slotsOfJson s members plans
    return slot :: slots
termination_by (sizeOf members, 2, plans.length)

end

def ofJson (s : Schema) (name : String) (value : Json) : Except Json.Error Message := do
  s.slotsOfJson (← Json.asObject value) (s.members name)

end Schema

end Protobuf.Codec
