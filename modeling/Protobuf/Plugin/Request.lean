import Protobuf.Plugin.Layout
import Protobuf.Schema.Descriptor

/-!
# Requests to the plugin

A schema compiler asks a plugin to generate code by a message that holds the names
of the files to generate, a parameter text, and the descriptors of all files. All
of the message must agree with its layout; of the descriptors only the parts that
generation looks at are kept.
-/

namespace Protobuf.Plugin

structure Request where
  /-- Names of the files to generate. -/
  names : List String
  parameter : String
  files : List Descriptor.File

def Payload.text? : Payload → Option String
  | .block bytes => Wire.utf8Text? bytes
  | _ => none

/-- The bytes that a record carries. -/
def Payload.block? : Payload → Option (List UInt8)
  | .block bytes => some bytes
  | _ => none

/-- The 32-bit number that a record carries. -/
def Payload.int? : Payload → Option Int32
  | .varint n => some (Int32.ofNat n)
  | _ => none

/-- The truth value that a record carries. -/
def Payload.bool? : Payload → Option Bool
  | .varint n => some (n != 0)
  | _ => none

/-- The 32-bit numbers that a record of a repeated field carries, packed or not. -/
def Payload.ints? : Payload → Option (List Int)
  | .varint n => some [(Int32.ofNat n).toInt]
  | .block bytes =>
    (varints? bytes.length bytes).map fun ns => ns.map fun n => (Int32.ofNat n).toInt
  | _ => none

def all? {α : Type} (read : Payload → Option α) (number : Nat) (records : List Record) :
    Option (List α) :=
  (records.filter fun r => r.number == number).mapM fun r => read r.payload

/-- What the last record with a number carries, and nothing if there is none. -/
def last? {α : Type} (read : Payload → Option α) (number : Nat) (records : List Record) :
    Option (Option α) :=
  (all? read number records).map List.getLast?

/-- The text of a field, which is empty if it is missing. -/
def text? (number : Nat) (records : List Record) : Option String :=
  (last? Payload.text? number records).map fun s => s.getD ""

/-- The truth value of a field, which is false if it is missing. -/
def bool? (number : Nat) (records : List Record) : Option Bool :=
  (last? Payload.bool? number records).map fun b => b.getD false

/-- The message of a field; the records of several occurrences are put together. -/
def merged? (number : Nat) (records : List Record) : Option (List Record) := do
  let blocks ← all? Payload.block? number records
  return (← blocks.mapM records?).flatten

def messages? {α : Type} (read : List Record → Option α) (number : Nat)
    (records : List Record) : Option (List α) := do
  let blocks ← all? Payload.block? number records
  blocks.mapM fun bytes => (records? bytes).bind read

def field? (records : List Record) : Option Descriptor.Field := do
  return {
    name := ← text? 1 records
    number := ((← last? Payload.int? 3 records).map Int32.toInt).getD 0
    type := (← last? Payload.int? 5 records).map Int32.toInt
    label := (← last? Payload.int? 4 records).map Int32.toInt
    typeName := ← last? Payload.text? 6 records
    oneofIndex := (← last? Payload.int? 9 records).map Int32.toInt
    proto3Optional := ← bool? 17 records }

def enumValue? (records : List Record) : Option Descriptor.EnumValue := do
  return ⟨← text? 1 records, (← last? Payload.int? 2 records).getD 0⟩

def enum? (records : List Record) : Option Descriptor.Enum := do
  return ⟨← text? 1 records, ← messages? enumValue? 2 records⟩

/-- A message descriptor, with messages nested at most so deep. -/
def message? : (levels : Nat) → List Record → Option Descriptor.Message
  | 0, _ => none
  | levels + 1, records => do
    return {
      name := ← text? 1 records
      fields := ← messages? field? 2 records
      messages := ← messages? (message? levels) 3 records
      enums := ← messages? enum? 4 records
      oneofs := ← messages? (text? 1) 8 records
      mapEntry := ← (merged? 7 records).bind (bool? 7) }

def method? (records : List Record) : Option Descriptor.Method := do
  return {
    name := ← text? 1 records
    input := ← text? 2 records
    output := ← text? 3 records
    clientStreaming := ← bool? 5 records
    serverStreaming := ← bool? 6 records }

def service? (records : List Record) : Option Descriptor.Service := do
  return ⟨← text? 1 records, ← messages? method? 2 records⟩

def location? (records : List Record) : Option Descriptor.Location := do
  return {
    path := (← all? Payload.ints? 1 records).flatten
    leading := ← last? Payload.text? 3 records
    trailing := ← last? Payload.text? 4 records }

/-- The deepest nesting of messages and groups that is followed. -/
def nestingLimit : Nat := 100

def file? (records : List Record) : Option Descriptor.File := do
  return {
    name := ← text? 1 records
    package := ← text? 2 records
    dialect := ← text? 12 records
    dependencies := ← all? Payload.text? 3 records
    messages := ← messages? (message? nestingLimit) 4 records
    enums := ← messages? enum? 5 records
    services := ← messages? service? 6 records
    locations := ← (merged? 9 records).bind (messages? location? 1) }

def Request.decode? (bytes : List UInt8) : Option Request := do
  guard (Part.request.admits nestingLimit bytes)
  let records ← records? bytes
  return {
    names := ← all? Payload.text? 1 records
    parameter := ← text? 2 records
    files := ← messages? file? 15 records }

end Protobuf.Plugin
