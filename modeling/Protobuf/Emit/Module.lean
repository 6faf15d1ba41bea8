import Protobuf.Emit.Client
import Protobuf.Emit.JsonCodec
import Protobuf.Emit.PartialForm
import Protobuf.Emit.WireCodec

/-!
# Generated files

One file is generated for each schema file: a header of comments, the helper
functions that the items use, and the items of enums, messages and services in
the order of declaration.
-/

namespace Protobuf.Emit

open Protobuf.Schema
open Plan
open Source

structure GeneratedFile where
  /-- Name, relative to the output directory. -/
  name : String
  /-- Comments at the top. -/
  header : String
  items : List Item
  deriving DecidableEq

def GeneratedFile.content (f : GeneratedFile) : String :=
  f.header ++ String.join (f.items.map fun i => render i.code ++ "\n")

/-- A computation that can fail and that reports warnings, also on the way to a failure. -/
abbrev Compile := ExceptT CompileError Logged

/-- The items of an enum with a qualified name. -/
def emitEnum (s : Scope) (qualified referencedBy : String) (e : Enum) :
    Except CompileError (List Item) := do
  let entry ← s.registry.resolve qualified referencedBy
  let i ← ident entry.ref.generatedName (Ident.escape? entry.ref.generatedName)
  enumItems s e i

/-- The items of a message with a qualified name, without the types nested in it. -/
def emitOwn (s : Scope) (qualified referencedBy : String) (m : Message) :
    Except CompileError (List Item) := do
  let entry ← s.registry.resolve qualified referencedBy
  let i ← ident entry.ref.generatedName (Ident.escape? entry.ref.generatedName)
  let members ← s.members m qualified
  let declaration ← messageItems s m i members
  let wire ← if s.options.binaryCodec then pure [← wireItem s i members] else pure []
  let json ←
    if s.options.jsonCodec then pure ((← jsonItem s i members) :: (← partialItems s i members))
    else pure []
  return declaration ++ wire ++ json

mutual

/-- The items of a message with a qualified name: its enums, its own and those of the messages
nested in it. -/
def emitMessage (s : Scope) (qualified referencedBy : String) :
    Message → Except CompileError (List Item)
  | ⟨name, fields, messages, enums, oneofs, isMapEntry, path⟩ => do
    let nestedEnums ← enums.mapM fun e => emitEnum s (qualify qualified e.name) qualified e
    let own ←
      emitOwn s qualified referencedBy ⟨name, fields, messages, enums, oneofs, isMapEntry, path⟩
    let nested ← emitMessages s qualified qualified messages
    return nestedEnums.flatten ++ own ++ nested

def emitMessages (s : Scope) (scope referencedBy : String) :
    List Message → Except CompileError (List Item)
  | [] => return []
  | m :: messages => do
    let items ← emitMessage s (qualify scope m.name) referencedBy m
    let rest ← emitMessages s scope referencedBy messages
    return items ++ rest

end

/-- The items of a service. A client needs the binary codec, and none is generated beside
controllers. -/
def emitService (s : Scope) (package : String) (service : Service) : Compile (List Item) := do
  let o := s.options
  let plan ← s.planService package service
  let declaration ←
    if o.controllers then controllerItems s plan
    else pure [surfaceTrait s plan plan.ident .call]
  if !o.client then return declaration
  else if !o.binaryCodec then
    Logged.warn (.clientWithoutCodec plan.fullName)
    return declaration
  else if o.controllers || o.metadata then
    Logged.warn (.clientBesideControllers plan.fullName)
    return declaration
  else return declaration ++ (← clientItems s plan)

def emitServices (s : Scope) (package : String) : List Service → Compile (List Item)
  | [] => return []
  | service :: services => do
    let items ← emitService s package service
    let rest ← emitServices s package services
    return items ++ rest

/-- Functions and types that items use, by name. -/
def helpers : List (String × Item) := [
  ("long_to_string", plainItem <| code <|
    "fn long_to_string<T: ::std::string::ToString>(value: T) -> ::std::string::String " ++
    "⦃ value.to_string() ⦄"),
  ("string_to_long", plainItem <| code
    "fn string_to_long(value: &str) -> i64 ⦃ ::protoforge::int64_from_decimal(value) ⦄"),
  ("string_to_ulong", plainItem <| code
    "fn string_to_ulong(value: &str) -> u64 ⦃ ::protoforge::uint64_from_decimal(value) ⦄"),
  ("bytes_from_base64", plainItem <| code <|
    "fn bytes_from_base64(value: &::protoforge::serde_json::Value,) -> " ++
    "::core::result::Result<::std::vec::Vec<u8>, ::protoforge::JsonError> ⦃ " ++
    "::protoforge::json::decode_base64(&::protoforge::json::to_string(value)?) ⦄"),
  ("base64_from_bytes", plainItem <| code <|
    "fn base64_from_bytes(bytes: &[u8]) -> ::std::string::String " ++
    "⦃ ::protoforge::json::encode_base64(bytes) ⦄"),
  ("to_timestamp", plainItem <| code <|
    "fn to_timestamp(date: &::protoforge::chrono::DateTime<::protoforge::chrono::Utc>,) -> " ++
    "::protoforge::wkt::Timestamp ⦃ ::protoforge::wkt::Timestamp::from_datetime(date) ⦄"),
  ("from_timestamp", plainItem <| code <|
    "fn from_timestamp(timestamp: ::protoforge::wkt::Timestamp,) -> " ++
    "::protoforge::chrono::DateTime<::protoforge::chrono::Utc> ⦃ timestamp.to_datetime() ⦄"),
  ("from_json_timestamp", plainItem <| code <|
    "fn from_json_timestamp(value: &::protoforge::serde_json::Value,) -> " ++
    "::core::result::Result<::protoforge::chrono::DateTime<::protoforge::chrono::Utc>, " ++
    "::protoforge::JsonError,> ⦃ ::protoforge::json::parse_timestamp(value) ⦄"),
  ("DeepPartial", typeItem ⟨false, "DeepPartial"⟩ <| code
    "type DeepPartial<T> = <T as ::protoforge::FromPartial>::Partial;")]

/-- The helpers that some source mentions, marked so that one that is not called is no fault. -/
def usedHelpers (body : Code) : List Item :=
  (helpers.filter fun h => mentions body h.1).map fun h =>
    { h.2 with code := code "#[allow(dead_code)]" ++ h.2.code }

/-- The item that brings the codec methods into scope. -/
def importItem : Item :=
  plainItem (code
    "#[allow(unused_imports)] use ::protoforge::⦃JsonMessage as _, Message as _⦄;")

/-- The place of the line that names the language version. -/
def dialectPath : SourcePath := [12]

def headerLine (line : String) : String :=
  if line.isEmpty then "//"
  else "// " ++ String.ofList (line.toList.dropWhile Text.isBlank)

/-- The header of a file: a mark, where it comes from, and the comment at the line that names
the language version. -/
def header (f : File) : String :=
  let lines :=
    "// @generated by protoforge-build. DO NOT EDIT." ::
    ("// source: " ++ f.path ++ " (" ++ f.dialect.name ++ ")") ::
    (f.comments.lines dialectPath).map headerLine
  String.join (lines.map (· ++ "\n")) ++ "\n"

/-- Generate the file for a schema file. The registry covers all files that it imports. -/
def generateFile (registry : Registry) (o : Options) (f : File) : Compile GeneratedFile := do
  let s : Scope := ⟨registry, o, Naming.moduleSegments f.path, f.comments⟩
  let scope := packageScope f.package
  let enums ← (f.enums.mapM fun e => emitEnum s (qualify scope e.name) f.path e :
    Except CompileError (List (List Item)))
  let messages ← emitMessages s scope f.path f.messages
  let package ←
    if o.controllers && !f.package.isEmpty then pure [← packageItem f.package] else pure []
  let services ← emitServices s f.package f.services
  let body := enums.flatten ++ messages ++ package ++ services
  let source := body.flatMap Item.code
  if hasWildcard source then throw (.malformedSource f.path)
  return {
    name := Naming.outputFileName f.path
    header := header f
    items := importItem :: usedHelpers source ++ body }

end Protobuf.Emit
