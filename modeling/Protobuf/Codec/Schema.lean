import Protobuf.Codec.Value
import Protobuf.Schema.Check

/-!
# What codecs know of a schema

A codec follows the plans of messages, which it finds by their qualified names,
and the options. This module also gives the value that every member has before
anything was set.
-/

namespace Protobuf.Codec

open Plan

/-- The options and the members of every message. -/
structure Schema where
  options : Options
  /-- The members of the message with a qualified name. -/
  members : String → List Member

namespace Schema

/-- The number of bits of a scalar that is held as text, if it is. -/
def textWidth? (s : Schema) (t : Scalar) : Option Numeric.Width :=
  if t.isLong && s.options.decimalLongs then t.width? else none

def zeroScalar (s : Schema) (t : Scalar) : Primitive :=
  if (s.textWidth? t).isSome then .string "0" else t.zero

/-- What a member holds if the message is one value of its kind and was not set; messages are
left to the caller. -/
def zeroSimple (s : Schema) : ValueKind → Value
  | .scalar t => .scalar (s.zeroScalar t)
  | .enum _ e => .choice e.unset
  | .wrapper k => .scalar k.scalar.zero
  | .timestamp => .time .epoch
  | .message _ => .message []

/-- What a member holds before it is set. -/
def zeroSlot (s : Schema) : Member → Slot
  | .field p =>
    match p.layout with
    | .plain => .plain (s.zeroSimple p.kind)
    | .optional => .optional none
    | .repeated => .repeated []
    | .map .. => .map []
  | .union _ => .union none

/-- The message with a qualified name in which nothing was set. -/
def zero (s : Schema) (name : String) : Message :=
  (s.members name).map s.zeroSlot

def zeroValue (s : Schema) : ValueKind → Value
  | .message ref => .message (s.zero ref.qualifiedName)
  | kind => s.zeroSimple kind

def planAll (scope : Scope) : Except CompileError (List (String × List Member)) :=
  (scope.registry.entries.filterMap fun e => e.message?.map (e.ref.qualifiedName, ·)).mapM
    fun (name, m) => return (name, ← scope.members m name)

def ofFiles (files : List Descriptor.File) (options : Options) : Except CompileError Schema := do
  let files ← files.mapM Schema.File.check
  let registry := (Schema.Registry.ofFiles files).value
  let plans ← planAll ⟨registry, options, [], .empty⟩
  return ⟨options, fun name => (plans.lookup name).getD []⟩

end Schema

end Protobuf.Codec

namespace Protobuf.Plan

/-- The kind of value that a member holds under a field number, if it has the number. -/
def Member.kind? (m : Member) (number : Nat) : Option ValueKind :=
  match m with
  | .field p => if p.field.number = number then some p.kind else none
  | .union u => (u.variants.find? fun v => v.field.number == number).map VariantPlan.kind

end Protobuf.Plan
