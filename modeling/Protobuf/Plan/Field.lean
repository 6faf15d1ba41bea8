import Protobuf.Plan.Basic

/-!
# Planning the members of a message

Planning follows the types that fields name. A map leads to the plans of its key
and value; entries of maps that hold maps of themselves would lead there for
ever, so planning counts how deeply maps are nested and gives up beyond the number
of registered types.
-/

namespace Protobuf.Plan

open Protobuf.Schema

/-- What planning looks at: all types, the options, and the module that the plan is made for. -/
structure Scope where
  registry : Registry
  options : Options
  /-- The module that refers to types. -/
  module : List String
  comments : Comments

def ident (name : String) (i : Option Source.Ident) : Except CompileError Source.Ident :=
  match i with
  | some i => .ok i
  | none => .error (.badIdentifier name)

namespace Scope

def valueKind (s : Scope) (field : Field) (referencedBy : String) :
    Except CompileError ValueKind :=
  match field.type, field.typeName with
  | .scalar t, _ => .ok (.scalar t)
  | _, none => .error (.unhandledField referencedBy .untyped)
  | type, some name => do
    let entry ← s.registry.resolve name referencedBy
    match type, entry.descriptor with
    | .enum, .enum e => return .enum entry.ref e
    | .message, .message _ =>
      match Wrapper.ofTypeName? name with
      | some w => return .wrapper w
      | none => return if name = Timestamp.typeName then .timestamp else .message entry.ref
    | _, _ => throw (.unhandledField referencedBy (.kindMismatch name))

def mapEntry? (s : Scope) (kind : ValueKind) : Option (TypeRef × Field × Field) :=
  match kind with
  | .message ref =>
    ((s.registry.find? ref.qualifiedName).bind Entry.message?).bind fun m =>
      m.mapFields?.map fun (key, value) => (ref, key, value)
  | _ => none

def isKeyKind : ValueKind → Bool
  | .scalar t => !t.isFloat && t != .bytes
  | _ => false

def singleLayout (field : Field) (kind : ValueKind) : Layout FieldPlan :=
  if field.oneof.isSome || field.proto3Optional then .optional
  else
    match kind with
    | .scalar _ | .enum .. => .plain
    | _ => .optional

/-- Whether a field held in a layout needs a pointer: a single message that can contain its
owner. -/
def needsBox (s : Scope) (owner : String) (kind : ValueKind) (layout : Layout FieldPlan) : Bool :=
  match layout, kind with
  | .plain, .message ref | .optional, .message ref => s.registry.isRecursive owner ref.qualifiedName
  | _, _ => false

/-- Whether JSON leaves out an unset field held in a layout. -/
def leavesOut (s : Scope) (field : Field) (layout : Layout FieldPlan) : Bool :=
  match layout with
  | .optional => s.options.optionals = .absent || field.oneof.isSome || field.proto3Optional
  | _ => false

/-- How the values of a field are held; `plan` plans the fields of a map entry. -/
def fieldLayout (s : Scope) (plan : (owner : String) → Field → Except CompileError FieldPlan)
    (field : Field) (kind : ValueKind) : Except CompileError (Layout FieldPlan) :=
  if field.isRepeated then
    match s.mapEntry? kind with
    | some (entry, key, value) => do
      let key ← plan entry.qualifiedName key
      if !isKeyKind key.kind then throw (.unhandledField entry.qualifiedName .mapKey)
      let value ← plan entry.qualifiedName value
      return .map entry key value
    | none => .ok .repeated
  else .ok (singleLayout field kind)

/-- Plan a field of the message `owner` on its own; `plan` plans the fields of a map entry. -/
def planFieldWith (s : Scope) (plan : (owner : String) → Field → Except CompileError FieldPlan)
    (owner : String) (field : Field) : Except CompileError FieldPlan := do
  let kind ← s.valueKind field (qualify owner field.name)
  let layout ← s.fieldLayout plan field kind
  let i ← ident field.name (Naming.fieldIdent? field.name)
  return {
    field
    ident := i
    jsonName := Naming.jsonName s.options.names field.name
    kind
    layout
    boxed := s.needsBox owner kind layout
    propertyOptional := s.leavesOut field layout }

/-- Plan a field of the message `owner` on its own, with maps nested at most `depth` deep. -/
def planFieldWithin (s : Scope) : (depth : Nat) → (owner : String) → Field →
    Except CompileError FieldPlan
  | 0 => s.planFieldWith fun entry _ => .error (.endlessMap entry)
  | depth + 1 => s.planFieldWith (s.planFieldWithin depth)

def planField (s : Scope) (owner : String) (field : Field) : Except CompileError FieldPlan :=
  s.planFieldWithin (s.registry.size + 1) owner field

/-- Plan a member of a union. -/
def planVariant (s : Scope) (owner : TypeRef) (field : Field) :
    Except CompileError VariantPlan := do
  let plan ← s.planField owner.qualifiedName field
  match plan.layout with
  | .optional =>
    let i ← ident field.name (Naming.variantIdent? field.name)
    return ⟨field, i, plan.jsonName, plan.kind, plan.boxed⟩
  | _ => throw (.unhandledField (qualify owner.qualifiedName field.name) .repeatedMember)

def planUnion (s : Scope) (owner : TypeRef) (message : Message) (group : Nat) (oneof : Oneof) :
    Except CompileError UnionPlan := do
  let variants ← (message.oneofMembers group).mapM (s.planVariant owner)
  let i ← ident oneof.name (Naming.fieldIdent? oneof.name)
  let typeIdent ← ident oneof.name (Naming.unionTypeIdent? owner.generatedName oneof.name)
  return ⟨group, i, typeIdent, variants⟩

def unionOf? (s : Scope) (message : Message) (field : Field) : Option (Nat × Oneof) :=
  match s.options.oneofs, field.oneof with
  | .union, some group => message.oneofs[group]?.map (group, ·)
  | _, _ => none

/-- Plan the fields of a message in turn; a union stands where its first field does. -/
def planMembers (s : Scope) (owner : TypeRef) (message : Message) :
    (placed : List Nat) → List Field → Except CompileError (List Member)
  | _, [] => .ok []
  | placed, field :: fields =>
    match s.unionOf? message field with
    | some (group, oneof) =>
      if placed.contains group then s.planMembers owner message placed fields
      else do
        let union ← s.planUnion owner message group oneof
        let members ← s.planMembers owner message (group :: placed) fields
        return .union union :: members
    | none => do
      let plan ← s.planField owner.qualifiedName field
      let members ← s.planMembers owner message placed fields
      return .field plan :: members

def members (s : Scope) (message : Message) (owner : String) :
    Except CompileError (List Member) := do
  let entry ← s.registry.resolve owner owner
  s.planMembers entry.ref message [] message.fields

end Scope

end Protobuf.Plan
