import Protobuf.Schema.Basic
import Protobuf.Schema.Error

/-!
# Checking descriptors

A descriptor becomes a checked file, or the first fault in the order of reading
is reported: messages from the first to the last, in each one its fields, then
the messages nested in it, then the oneofs that its fields belong to.
-/

namespace Protobuf.Schema

def maxFieldNumber : Int := 536870911

/-- The type with a number; group is a type that is not handled. -/
def fieldType (field : String) (number : Option Int) : Except CompileError FieldType :=
  match number with
  | some 1 => .ok (.scalar .double)
  | some 2 => .ok (.scalar .float)
  | some 3 => .ok (.scalar .int64)
  | some 4 => .ok (.scalar .uint64)
  | some 5 => .ok (.scalar .int32)
  | some 6 => .ok (.scalar .fixed64)
  | some 7 => .ok (.scalar .fixed32)
  | some 8 => .ok (.scalar .bool)
  | some 9 => .ok (.scalar .string)
  | some 10 => .error (.unhandledField field .group)
  | some 11 => .ok .message
  | some 12 => .ok (.scalar .bytes)
  | some 13 => .ok (.scalar .uint32)
  | some 14 => .ok .enum
  | some 15 => .ok (.scalar .sfixed32)
  | some 16 => .ok (.scalar .sfixed64)
  | some 17 => .ok (.scalar .sint32)
  | some 18 => .ok (.scalar .sint64)
  | _ => .error (.unhandledField field .unknownType)

def FieldType.number : FieldType → Int
  | .scalar .double => 1
  | .scalar .float => 2
  | .scalar .int64 => 3
  | .scalar .uint64 => 4
  | .scalar .int32 => 5
  | .scalar .fixed64 => 6
  | .scalar .fixed32 => 7
  | .scalar .bool => 8
  | .scalar .string => 9
  | .message => 11
  | .scalar .bytes => 12
  | .scalar .uint32 => 13
  | .enum => 14
  | .scalar .sfixed32 => 15
  | .scalar .sfixed64 => 16
  | .scalar .sint32 => 17
  | .scalar .sint64 => 18

/-- Every type is found under its number. -/
theorem fieldType_number (field : String) (t : FieldType) :
    fieldType field (some t.number) = .ok t := by
  rcases t with s | _ | _
  · cases s <;> rfl
  · rfl
  · rfl

/-- An index as an unsigned 64-bit number, so that a negative one is out of every range. -/
def oneofIndex (n : Int) : Nat :=
  (n % 18446744073709551616).toNat

/-- Check a field of a message with a qualified name. -/
def checkField (owner : String) (path : SourcePath) (d : Descriptor.Field) :
    Except CompileError Field := do
  let qualified := qualify owner d.name
  if d.number < 1 ∨ maxFieldNumber < d.number then
    throw (.invalidDescriptor (.fieldNumber qualified d.number))
  let type ← fieldType qualified d.type
  let typeName := d.typeName.filter fun n => !n.isEmpty
  if (type = .enum ∨ type = .message) ∧ typeName = none then
    throw (.unhandledField qualified .untyped)
  return {
    name := d.name
    number := d.number.toNat
    type
    label := if d.label = some 3 then .repeated else .optional
    typeName
    oneof := if d.proto3Optional then none else d.oneofIndex.map oneofIndex
    proto3Optional := d.proto3Optional
    path }

/-- Number the elements of a list as places below `parent`, under a field of the descriptor. -/
def numbered {α : Type} (parent : SourcePath) (step : Int) (items : List α) :
    List (SourcePath × α) :=
  items.zipIdx.map fun (a, i) => (parent ++ [step, (i : Int)], a)

def placeEnum (path : SourcePath) (d : Descriptor.Enum) : Enum :=
  { name := d.name
    values := (numbered path 2 d.values).map fun (p, v) => ⟨v.name, v.number, p⟩
    path }

def placeService (path : SourcePath) (d : Descriptor.Service) : Service :=
  { name := d.name
    methods := (numbered path 2 d.methods).map fun (p, m) =>
      ⟨m.name, m.input, m.output, m.clientStreaming, m.serverStreaming, p⟩
    path }

def checkOneofs (owner : String) (count : Nat) : List Field → Except CompileError Unit
  | [] => .ok ()
  | f :: fields =>
    match f.oneof with
    | some index =>
      if index < count then checkOneofs owner count fields
      else .error (.invalidDescriptor (.missingOneof (qualify owner f.name) index))
    | none => checkOneofs owner count fields

def areMapFields : List Field → Bool
  | [key, value] => key.name == "key" && value.name == "value"
  | _ => false

mutual

def checkMessage (scope : String) (path : SourcePath) :
    Descriptor.Message → Except CompileError Message
  | ⟨name, fields, messages, enums, oneofs, mapEntry⟩ => do
    let qualified := qualify scope name
    let fields ← (numbered path 2 fields).mapM fun (p, f) => checkField qualified p f
    let messages ← checkMessages qualified (path ++ [3]) 0 messages
    checkOneofs qualified oneofs.length fields
    return {
      name
      fields
      messages
      enums := (numbered path 4 enums).map fun (p, e) => placeEnum p e
      oneofs := (numbered path 8 oneofs).map fun (p, o) => ⟨o, p⟩
      isMapEntry := mapEntry && areMapFields fields
      path }

def checkMessages (scope : String) (list : SourcePath) (index : Nat) :
    List Descriptor.Message → Except CompileError (List Message)
  | [] => .ok []
  | m :: messages => do
    let m ← checkMessage scope (list ++ [(index : Int)]) m
    let messages ← checkMessages scope list (index + 1) messages
    return m :: messages

end

def dialectOf (name : String) : Dialect :=
  if name = "proto3" then .proto3
  else if name = "editions" then .editions
  else .proto2

def File.check (d : Descriptor.File) : Except CompileError File := do
  if d.name.isEmpty then throw (.invalidDescriptor .namelessFile)
  let messages ← checkMessages (packageScope d.package) [4] 0 d.messages
  return {
    path := d.name
    package := d.package
    dialect := dialectOf d.dialect
    messages
    enums := (numbered [] 5 d.enums).map fun (p, e) => placeEnum p e
    services := (numbered [] 6 d.services).map fun (p, s) => placeService p s
    dependencies := d.dependencies
    comments := .ofLocations d.locations }

end Protobuf.Schema
