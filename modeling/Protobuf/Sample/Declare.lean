import Protobuf.Schema.Check
import Protobuf.WellKnown.Timestamp
import Protobuf.WellKnown.Wrapper

/-!
# Declaring schemas

Short ways to write down descriptors, and the files that declare the well-known
messages.
-/

namespace Protobuf.Sample

open Protobuf.Schema (FieldType)

def field (name : String) (number : Int) (type : FieldType) (typeName : Option String) :
    Descriptor.Field :=
  { name, number, type := some type.number, label := some 1, typeName }

def scalar (t : Scalar) (name : String) (number : Int) : Descriptor.Field :=
  field name number (.scalar t) none

def enum (typeName name : String) (number : Int) : Descriptor.Field :=
  field name number .enum (some typeName)

def message (typeName name : String) (number : Int) : Descriptor.Field :=
  field name number .message (some typeName)

def many (f : Descriptor.Field) : Descriptor.Field :=
  { f with label := some 3 }

def memberOf (oneof : Int) (f : Descriptor.Field) : Descriptor.Field :=
  { f with oneofIndex := some oneof }

/-- The field with tracked presence, under the index of the oneof made up for it. -/
def tracked (oneof : Int) (f : Descriptor.Field) : Descriptor.Field :=
  { f with oneofIndex := some oneof, proto3Optional := true }

def mapEntry (name : String) (key value : String → Int → Descriptor.Field) :
    Descriptor.Message :=
  { name, fields := [key "key" 1, value "value" 2], mapEntry := true }

def timestampFile : Descriptor.File :=
  { name := "google/protobuf/timestamp.proto"
    package := "google.protobuf"
    dialect := "proto3"
    messages := [
      { name := "Timestamp", fields := [scalar .int64 "seconds" 1, scalar .int32 "nanos" 2] }] }

/-- The name of a type without its package. -/
def lastName (qualified : String) : String :=
  String.ofList (qualified.toList.reverse.takeWhile (· ≠ '.')).reverse

def wrapperFile (wrappers : List Wrapper) : Descriptor.File :=
  { name := "google/protobuf/wrappers.proto"
    package := "google.protobuf"
    dialect := "proto3"
    messages := wrappers.map fun w =>
      { name := lastName w.typeName, fields := [scalar w.scalar "value" 1] } }

end Protobuf.Sample
