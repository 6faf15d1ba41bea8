import Protobuf.Plan.Enum
import Protobuf.Source.Token

/-!
# Types of the generated source

The type that holds each member of a message, its value when nothing was set, and
the properties that callers see.
-/

namespace Protobuf.Plan

open Protobuf.Schema
open Source

inductive GeneratedType where
  | primitive (c : Code)
  | enum (path : Code)
  | message (path : Code) (boxed : Bool)
  | dateTime
  | nullable (t : GeneratedType)
  | sequence (t : GeneratedType)
  | map (key value : GeneratedType)
  | union (i : Ident)

namespace GeneratedType

def toCode : GeneratedType → Code
  | primitive c => c
  | enum path => path
  | message path boxed =>
    if boxed then fill "::std::boxed::Box<$>" [path] else path
  | dateTime => code "::protoforge::chrono::DateTime<::protoforge::chrono::Utc>"
  | nullable t => fill "::core::option::Option<$>" [t.toCode]
  | sequence t => fill "::std::vec::Vec<$>" [t.toCode]
  | map key value => fill "::std::collections::HashMap<$, $>" [key.toCode, value.toCode]
  | union i => fill "::core::option::Option<$>" [name i]

/-- The shape of the type in one word and its parts. -/
def shape : GeneratedType → String
  | primitive _ => "primitive"
  | enum _ => "enum"
  | message _ boxed => if boxed then "boxed" else "message"
  | dateTime => "datetime"
  | nullable t => "nullable(" ++ t.shape ++ ")"
  | sequence t => "sequence(" ++ t.shape ++ ")"
  | map key value => "map(" ++ key.shape ++ "," ++ value.shape ++ ")"
  | union i => "union(" ++ i.text ++ ")"

end GeneratedType

def docs (lines : List String) : Code :=
  lines.flatMap fun line => docLine (docText line)

def pathCode (p : Naming.RelativePath) : Code :=
  (List.replicate p.climbs (code "super::")).flatten ++
    (p.descends.flatMap fun s => [.plain s, .plain "::"]) ++ name p.name

/-- The type that a wrapper's value is held in: integers as they are, and bytes owned. -/
def wrapperType : Wrapper → Code
  | .double => code "f64"
  | .float => code "f32"
  | .int64 => code "i64"
  | .uint64 => code "u64"
  | .int32 => code "i32"
  | .uint32 => code "u32"
  | .bool => code "bool"
  | .string => code "::std::string::String"
  | .bytes => code "::std::vec::Vec<u8>"

def scalarType (o : Options) (s : Scalar) : Code :=
  if s.isLong && o.decimalLongs then code "::std::string::String"
  else
    match s with
    | .double => code "f64"
    | .float => code "f32"
    | .int32 | .sint32 | .sfixed32 => code "i32"
    | .uint32 | .fixed32 => code "u32"
    | .int64 | .sint64 | .sfixed64 => code "i64"
    | .uint64 | .fixed64 => code "u64"
    | .bool => code "bool"
    | .string => code "::std::string::String"
    | .bytes =>
      if o.sharedBytes then code "::protoforge::bytes::Bytes" else code "::std::vec::Vec<u8>"

namespace Scope

def typePath (s : Scope) (ref : TypeRef) : Except CompileError Code := do
  let i ← ident ref.generatedName (Ident.escape? ref.generatedName)
  return pathCode (Naming.relativePath s.module ref.module i)

def partialPath (s : Scope) (ref : TypeRef) : Except CompileError Code := do
  let text := ref.generatedName ++ "Partial"
  let i ← ident text (Ident.ofText? text)
  return pathCode (Naming.relativePath s.module ref.module i)

def valueType (s : Scope) (kind : ValueKind) (boxed : Bool) :
    Except CompileError GeneratedType :=
  match kind with
  | .scalar t => return .primitive (scalarType s.options t)
  | .enum ref _ => return .enum (← s.typePath ref)
  | .wrapper w => return .primitive (wrapperType w)
  | .timestamp => return .dateTime
  | .message ref => return .message (← s.typePath ref) boxed

def fieldType (s : Scope) (p : FieldPlan) : Except CompileError GeneratedType := do
  let value ← s.valueType p.kind p.boxed
  match p.layout with
  | .plain => return value
  | .optional => return .nullable value
  | .repeated => return .sequence value
  | .map _ key value => return .map (← s.valueType key.kind false) (← s.valueType value.kind false)

/-- The value of a plain field that was not set. -/
def defaultValue (s : Scope) (kind : ValueKind) : Except CompileError Code :=
  match kind with
  | .scalar t =>
    if t.isLong && s.options.decimalLongs then
      return fill "::std::string::String::from($)" [quote "0"]
    else
      match t with
      | .bool => return code "false"
      | .double | .float => return [.plain "0.0"]
      | .string | .bytes => return code "::core::default::Default::default()"
      | _ => return code "0"
  | .enum ref e => do
    let path ← s.typePath ref
    let plan ← EnumPlan.ofEnum e
    return fill "$::$" [path, name plan.default]
  | _ => return code "::core::default::Default::default()"

/-- The value of a member that was not set. -/
def memberDefault (s : Scope) : Member → Except CompileError Code
  | .union _ => return code "::core::option::Option::None"
  | .field p =>
    match p.layout with
    | .plain => s.defaultValue p.kind
    | .optional => return code "::core::option::Option::None"
    | .repeated => return code "::std::vec::Vec::new()"
    | .map .. => return code "::std::collections::HashMap::new()"

end Scope

structure Property where
  ident : Ident
  jsonName : String
  type : GeneratedType
  optional : Bool
  docs : List String

namespace Scope

/-- The documentation of a union: that of its members, with empty lines between them. -/
def unionDocs (s : Scope) (u : UnionPlan) : List String :=
  u.variants.foldl (fun docs v => joinLines docs (s.comments.lines v.field.path)) []

def property (s : Scope) : Member → Except CompileError Property
  | .field p => do
    return ⟨p.ident, p.jsonName, ← s.fieldType p, p.propertyOptional,
      s.comments.lines p.field.path⟩
  | .union u => return ⟨u.ident, u.ident.text, .union u.typeIdent, true, s.unionDocs u⟩

def holdsField (field : Field) : Member → Bool
  | .field p => p.field.number == field.number
  | .union u => field.oneof == some u.group

/-- The property that holds a field of a message. -/
def mapField (s : Scope) (field : Field) (message : Message) (owner : String) :
    Except CompileError Property := do
  let members ← s.members message owner
  match members.find? (holdsField field) with
  | some m => s.property m
  | none => throw (.unhandledField (qualify owner field.name) .undeclared)

end Scope

end Protobuf.Plan
