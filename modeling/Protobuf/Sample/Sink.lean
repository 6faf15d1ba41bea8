import Protobuf.Options
import Protobuf.Sample.Declare

/-!
# The kitchen-sink schema

A field of every scalar type in every layout, maps of every key type, oneofs whose
members are scattered, awkward names, large field numbers, and messages that
contain each other.
-/

namespace Protobuf.Sample.Sink

/-- One field of every scalar type, numbered from one, with a name that starts with `start`. -/
def eachScalar (start : String) (wrap : Descriptor.Field → Descriptor.Field) :
    List Descriptor.Field :=
  Scalar.all.zipIdx.map fun (t, i) => wrap (scalar t (start ++ t.name) (i + 1))

/-- An enum with an alias and a negative number. -/
def color : Descriptor.Enum :=
  { name := "Color"
    values := [⟨"RED", 0⟩, ⟨"GREEN", 1⟩, ⟨"BLUE", 5⟩, ⟨"CRIMSON", 0⟩, ⟨"NEG", -3⟩] }

/-- An enum without zero that uses the number and the name kept for what is not declared. -/
def gap : Descriptor.Enum :=
  { name := "Gap"
    values := [⟨"FIRST", 7⟩, ⟨"SECOND", -1⟩, ⟨"THIRD", 2⟩, ⟨"UNRECOGNIZED", 9⟩,
      ⟨"LAST_ALIAS", 2⟩] }

def inner : Descriptor.Message :=
  { name := "Inner"
    fields := [scalar .int32 "n" 1, scalar .string "s" 2, message ".sink.Inner" "next" 3] }

def scalars : Descriptor.Message :=
  { name := "Scalars"
    fields := eachScalar "f_" id ++ [enum ".sink.Color" "color" 16, enum ".sink.Gap" "gap" 17] }

def repeats : Descriptor.Message :=
  { name := "Repeats"
    fields := eachScalar "r_" many ++ [
      many (enum ".sink.Color" "colors" 16),
      many (enum ".sink.Gap" "gaps" 17),
      many (message ".sink.Inner" "inners" 18),
      many (message Timestamp.typeName "times" 19),
      many (message Wrapper.int64.typeName "w_long" 20),
      many (message Wrapper.string.typeName "w_text" 21),
      many (message Wrapper.bytes.typeName "w_bytes" 22)] }

/-- Fields with tracked presence, each under a oneof made up for it. -/
def optionals : Descriptor.Message :=
  let fields := eachScalar "o_" id ++ [
    enum ".sink.Color" "o_color" 16,
    enum ".sink.Gap" "o_gap" 17,
    message ".sink.Inner" "o_inner" 18]
  { name := "Optionals"
    fields := fields.zipIdx.map fun (f, i) => tracked i f
    oneofs := fields.map fun f => "_" ++ f.name }

/-- The maps: names of the field and of the entry message, key, and value. -/
def mapFields :
    List (String × String × Scalar × (String → Int → Descriptor.Field)) := [
  ("by_string", "ByStringEntry", .string, message ".sink.Inner"),
  ("by_int32", "ByInt32Entry", .int32, enum ".sink.Color"),
  ("by_int64", "ByInt64Entry", .int64, scalar .int64),
  ("by_uint32", "ByUint32Entry", .uint32, scalar .double),
  ("by_uint64", "ByUint64Entry", .uint64, scalar .uint64),
  ("by_sint32", "BySint32Entry", .sint32, scalar .sint32),
  ("by_sint64", "BySint64Entry", .sint64, message Timestamp.typeName),
  ("by_fixed32", "ByFixed32Entry", .fixed32, scalar .bytes),
  ("by_fixed64", "ByFixed64Entry", .fixed64, message Wrapper.string.typeName),
  ("by_sfixed32", "BySfixed32Entry", .sfixed32, scalar .float),
  ("by_sfixed64", "BySfixed64Entry", .sfixed64, scalar .bool),
  ("by_bool", "ByBoolEntry", .bool, scalar .string),
  ("to_long", "ToLongEntry", .string, message Wrapper.int64.typeName),
  ("to_gap", "ToGapEntry", .string, enum ".sink.Gap"),
  ("to_fixed", "ToFixedEntry", .string, scalar .fixed64)]

def maps : Descriptor.Message :=
  { name := "Maps"
    fields := mapFields.zipIdx.map fun ((name, entry, _), i) =>
      many (message (".sink.Maps." ++ entry) name (i + 1))
    messages := mapFields.map fun (_, entry, key, value) => mapEntry entry (scalar key) value }

/-- Two oneofs whose members stand between other fields. -/
def choice : Descriptor.Message :=
  { name := "Choice"
    fields := [
      scalar .int32 "before" 1,
      memberOf 0 (scalar .int32 "num" 2),
      memberOf 1 (scalar .bool "on" 3),
      memberOf 0 (scalar .int64 "big_num" 4),
      scalar .string "middle" 5,
      memberOf 0 (scalar .string "text" 6),
      memberOf 0 (scalar .bytes "raw" 7),
      memberOf 0 (enum ".sink.Color" "shade" 8),
      memberOf 0 (enum ".sink.Gap" "hole" 9),
      memberOf 0 (message ".sink.Inner" "inner" 10),
      memberOf 0 (message ".sink.Choice" "again" 11),
      memberOf 0 (message Timestamp.typeName "at" 12),
      memberOf 0 (message Wrapper.uint64.typeName "wrapped" 13),
      memberOf 1 (scalar .float "ratio" 14),
      memberOf 1 (scalar .fixed64 "fixed_one" 15),
      memberOf 0 (scalar .double "type" 16),
      scalar .uint64 "after" 17]
    oneofs := ["pick", "other_pick"] }

def wraps : Descriptor.Message :=
  { name := "Wraps"
    fields := [
      message Wrapper.double.typeName "w_double" 1,
      message Wrapper.float.typeName "w_float" 2,
      message Wrapper.int64.typeName "w_int64" 3,
      message Wrapper.uint64.typeName "w_uint64" 4,
      message Wrapper.int32.typeName "w_int32" 5,
      message Wrapper.uint32.typeName "w_uint32" 6,
      message Wrapper.bool.typeName "w_bool" 7,
      message Wrapper.string.typeName "w_string" 8,
      message Wrapper.bytes.typeName "w_bytes" 9,
      message Timestamp.typeName "at" 10] }

def names : Descriptor.Message :=
  { name := "Names"
    fields := [
      scalar .string "type" 1,
      scalar .int32 "self" 2,
      scalar .bool "camelCase" 3,
      scalar .string "trailing_" 4,
      scalar .string "_leading" 5,
      scalar .string "a__b" 6,
      scalar .string "with_1_digit" 7,
      scalar .int64 "HTTPCode" 8,
      scalar .uint32 "x2y" 9,
      scalar .string "value" 10,
      scalar .string "message" 11,
      scalar .string "object" 12,
      scalar .string "async" 13] }

/-- Field numbers at which tags grow, in no order. -/
def big : Descriptor.Message :=
  { name := "Big"
    fields := [
      scalar .int32 "n15" 15,
      scalar .int32 "n16" 16,
      scalar .string "n2047" 2047,
      scalar .string "n2048" 2048,
      scalar .int64 "top" 536870911,
      scalar .bool "n1" 1] }

/-- A message that contains itself in several ways, and through another one. -/
def node : Descriptor.Message :=
  { name := "Node"
    fields := [
      scalar .string "id" 2,
      message ".sink.Node" "left" 3,
      message ".sink.Peer" "peer" 4,
      many (message ".sink.Node" "list" 5),
      message ".sink.Node.Leaf" "leaf" 6,
      enum ".sink.Node.Grade" "grade" 7,
      many (message ".sink.Node.KidsEntry" "kids" 1)]
    messages := [
      { name := "Leaf", fields := [scalar .sint32 "n" 1] },
      mapEntry "KidsEntry" (scalar .string) (message ".sink.Node")]
    enums := [{ name := "Grade", values := [⟨"LOW", 0⟩, ⟨"HIGH", 1⟩] }] }

def peer : Descriptor.Message :=
  { name := "Peer", fields := [message ".sink.Node" "back" 1, scalar .string "tag" 2] }

def files : List Descriptor.File := [
  timestampFile,
  wrapperFile Wrapper.all,
  { name := "sink.proto"
    package := "sink"
    dialect := "proto3"
    dependencies := ["google/protobuf/timestamp.proto", "google/protobuf/wrappers.proto"]
    messages := [inner, scalars, repeats, optionals, maps, choice, wraps, names,
      { name := "Empty" }, big, node, peer]
    enums := [color, gap] }]

/-- The sets of options, by name. -/
def variants : List (String × Options) := [
  ("plain", .standard),
  ("wide", (Options.parse "forceLong=long,useOptionals=true,oneof=unions").value),
  ("strings", (Options.parse "forceLong=string,snakeToCamel=false,env=node").value),
  ("mixed", (Options.parse "forceLong=string,useOptionals=true,oneof=unions,env=browser").value)]

end Protobuf.Sample.Sink
