import Protobuf.Schema.Registry
import Protobuf.WellKnown.Timestamp
import Protobuf.WellKnown.Wrapper

/-!
# Plans of messages

A plan says how the fields of a message are held: what a value is, whether there
is one, none or many, and which fields share a property. Generated source and the
codecs both follow it.
-/

namespace Protobuf.Plan

open Protobuf.Schema

/-- What a single value of a field is. -/
inductive ValueKind where
  | scalar (s : Scalar)
  | enum (ref : TypeRef) (e : Enum)
  | wrapper (w : Wrapper)
  | timestamp
  | message (ref : TypeRef)
  deriving DecidableEq

def ValueKind.wireType : ValueKind → Nat
  | .scalar s => s.wireType
  | .enum .. => 0
  | .wrapper _ | .timestamp | .message _ => 2

/-- Whether repeated values share one block. -/
def ValueKind.isPackable : ValueKind → Bool
  | .scalar s => s.isPackable
  | .enum .. => true
  | _ => false

/-- How the values of a field are held; `α` is the plan of a field. -/
inductive Layout (α : Type) where
  /-- One value, zero if it was not set. -/
  | plain
  | optional
  /-- A list of values. -/
  | repeated
  /-- Values under keys, with the plans of both fields of the entry. -/
  | map (entry : TypeRef) (key value : α)
  deriving DecidableEq

structure FieldPlan where
  field : Field
  ident : Source.Ident
  jsonName : String
  kind : ValueKind
  /-- One value, none or many. -/
  layout : Layout FieldPlan
  /-- Whether the message is held behind a pointer, because it can contain its owner. -/
  boxed : Bool
  /-- Whether JSON leaves the field out when it is not set. -/
  propertyOptional : Bool

/-- Whether the field is written as one block of values. -/
def FieldPlan.isPacked (p : FieldPlan) : Bool :=
  match p.layout with
  | .repeated => p.kind.isPackable
  | _ => false

/-- How one member of a union is held. -/
structure VariantPlan where
  field : Field
  ident : Source.Ident
  jsonName : String
  kind : ValueKind
  /-- Whether the message is held behind a pointer. -/
  boxed : Bool
  deriving DecidableEq

/-- A oneof whose members share one property. -/
structure UnionPlan where
  /-- Index of the oneof. -/
  group : Nat
  ident : Source.Ident
  typeIdent : Source.Ident
  /-- The members, in the order of declaration. -/
  variants : List VariantPlan
  deriving DecidableEq

/-- A property of a message. -/
inductive Member where
  | field (p : FieldPlan)
  | union (u : UnionPlan)

def Member.union? : Member → Option UnionPlan
  | .union u => some u
  | .field _ => none

end Protobuf.Plan
