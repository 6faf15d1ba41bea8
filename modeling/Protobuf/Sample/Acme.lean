import Protobuf.Options
import Protobuf.Sample.Declare

/-!
# The entity schema

Entities with labels and relatives, a service that reads them one by one and in
batches, and shapes with a oneof. It is compiled under four sets of options, which
between them use every style that the options offer.
-/

namespace Protobuf.Sample.Acme

/-- Kinds of entities; two names share a number. -/
def kind : Descriptor.Enum :=
  { name := "Kind"
    values := [⟨"KIND_UNSPECIFIED", 0⟩, ⟨"KIND_PERSON", 1⟩, ⟨"KIND_ROBOT", 2⟩, ⟨"KIND_HUMAN", 1⟩] }

def entity : Descriptor.Message :=
  { name := "Entity"
    fields := [
      scalar .string "id" 1,
      scalar .string "name" 2,
      scalar .int64 "revision" 3,
      many (scalar .int32 "scores" 4),
      message Timestamp.typeName "created_at" 5,
      many (message ".acme.Entity.LabelsEntry" "labels" 6),
      enum ".acme.Kind" "kind" 7,
      message Wrapper.int32.typeName "rank" 8,
      scalar .bytes "avatar" 9,
      message ".acme.Entity" "parent" 10,
      many (message ".acme.Entity" "children" 11),
      scalar .uint64 "views" 12,
      scalar .double "score" 13,
      tracked 0 (scalar .string "nickname" 14)]
    messages := [mapEntry "LabelsEntry" (scalar .string) (scalar .string)]
    oneofs := ["_nickname"] }

/-- Requests and responses of the service. -/
def exchanges : List Descriptor.Message := [
  { name := "BatchEntityRequest", fields := [many (scalar .string "ids" 1)] },
  { name := "BatchEntityResponse", fields := [many (message ".acme.Entity" "entities" 1)] },
  { name := "BatchLabelRequest", fields := [many (scalar .int64 "ids" 1)] },
  { name := "BatchLabelResponse"
    fields := [many (message ".acme.BatchLabelResponse.LabelsEntry" "labels" 1)]
    messages := [mapEntry "LabelsEntry" (scalar .int64) (scalar .string)] },
  { name := "GetThingRequest", fields := [scalar .string "id" 1] }]

def service : Descriptor.Service :=
  { name := "EntityService"
    methods := [
      { name := "BatchEntity", input := ".acme.BatchEntityRequest",
        output := ".acme.BatchEntityResponse" },
      { name := "BatchLabel", input := ".acme.BatchLabelRequest",
        output := ".acme.BatchLabelResponse" },
      { name := "GetThing", input := ".acme.GetThingRequest", output := ".acme.Entity" },
      { name := "Watch", input := ".acme.GetThingRequest", output := ".acme.Entity",
        serverStreaming := true },
      { name := "Upload", input := ".acme.Entity", output := ".acme.BatchEntityResponse",
        clientStreaming := true }] }

def entityFile : Descriptor.File :=
  { name := "acme/entity.proto"
    package := "acme"
    dialect := "proto3"
    dependencies := ["google/protobuf/timestamp.proto", "google/protobuf/wrappers.proto"]
    messages := entity :: exchanges
    enums := [kind]
    services := [service] }

def shapesFile : Descriptor.File :=
  { name := "acme/shapes.proto"
    package := "acme"
    dialect := "proto3"
    dependencies := ["acme/entity.proto"]
    messages := [
      { name := "Shape"
        fields := [
          memberOf 0 (scalar .double "circle" 1),
          memberOf 0 (scalar .string "square" 2),
          memberOf 0 (message ".acme.Entity" "owner" 3),
          enum ".acme.Kind" "tag" 4]
        oneofs := ["kind"] }] }

def files : List Descriptor.File :=
  [timestampFile, wrapperFile [.int32, .string], entityFile, shapesFile]

/-- The sets of options, by the names of their directories. -/
def variants : List (String × Options) := [
  ("plain", .standard),
  ("batching", { context := true, oneofs := .union, optionals := .absent, longs := .wide }),
  ("strings",
    { longs := .decimal, names := .verbatim, target := .node, methods := .declared,
      returns := .stream }),
  ("controllers", (Options.parse "nestJs=true,addGrpcMetadata=true").value)]

end Protobuf.Sample.Acme
