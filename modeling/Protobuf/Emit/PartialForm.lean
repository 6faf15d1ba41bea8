import Protobuf.Emit.Item
import Protobuf.Plan.Types

/-!
# The partial of a message

The partial of a message has every member optional and nested messages as
partials. The generated conversion sets what is given in a default message.
-/

namespace Protobuf.Emit

open Plan
open Source

def partialType (s : Scope) (kind : ValueKind) (boxed : Bool) : Except CompileError Code :=
  match kind with
  | .message ref => do
    let path ← s.partialPath ref
    return if boxed then fill "::std::boxed::Box<$>" [path] else path
  | kind => return (← s.valueType kind false).toCode

/-- The expression that turns a value of a partial into a full one. -/
def completeCode (s : Scope) (kind : ValueKind) (boxed : Bool) : Except CompileError Code :=
  match kind with
  | .message ref => do
    let path ← s.typePath ref
    return if boxed then
        fill "::std::boxed::Box::new(<$ as ::protoforge::FromPartial>::from_partial(*value))" [path]
      else fill "<$ as ::protoforge::FromPartial>::from_partial(value)" [path]
  | _ => return word "value"

def partialFieldType (s : Scope) (p : FieldPlan) : Except CompileError Code := do
  let value ← partialType s p.kind p.boxed
  let type ←
    match p.layout with
    | .plain | .optional => pure value
    | .repeated => pure (fill "::std::vec::Vec<$>" [value])
    | .map _ key v => do
      let key ← s.valueType key.kind false
      let v ← partialType s v.kind false
      pure (fill "::std::collections::HashMap<$, ::core::option::Option<$> >" [key.toCode, v])
  return fill "::core::option::Option<$>" [type]

/-- Statements that set a field from a partial. -/
def mergeField (s : Scope) (p : FieldPlan) : Except CompileError Code := do
  let i := name p.ident
  let body ←
    match p.layout with
    | .plain => pure (fill "message.$ = $;" [i, ← completeCode s p.kind p.boxed])
    | .optional =>
      pure (fill "message.$ = ::core::option::Option::Some($);"
        [i, ← completeCode s p.kind p.boxed])
    | .repeated =>
      match p.kind with
      | .message _ =>
        pure (fill "message.$ = value.into_iter().map(|value| $).collect();"
          [i, ← completeCode s p.kind false])
      | _ => pure (fill "message.$ = value;" [i])
    | .map _ _ v =>
      pure (fill
        ("for (key, value) in value ⦃ if let ::core::option::Option::Some(value) = value ⦃ " ++
          "message.$.insert(key, $); ⦄ ⦄")
        [i, ← completeCode s v.kind false])
  return fill "if let ::core::option::Option::Some(value) = object.$ ⦃ $ ⦄" [i, body]

def partialIdent (i : Ident) : Except CompileError Ident :=
  let text := i.name ++ "Partial"
  ident text (Ident.ofText? text)

def partialField (s : Scope) : Member → Except CompileError Code
  | .field p => return fill "pub $: $," [name p.ident, ← partialFieldType s p]
  | .union u => do
    return fill "pub $: ::core::option::Option<$>,"
      [name u.ident, name (← partialIdent u.typeIdent)]

def partialUnion (s : Scope) (u : UnionPlan) : Except CompileError Item := do
  let i ← partialIdent u.typeIdent
  let variants ← u.variants.mapM fun v => do
    return fill "$($)," [name v.ident, ← partialType s v.kind v.boxed]
  return typeItem i <| fill
    "#[allow(non_camel_case_types)] #[derive(Clone, Debug, PartialEq)] pub enum $ ⦃ $ ⦄"
    [name i, variants.flatten]

/-- Statements that set a member from a partial. -/
def mergeMember (s : Scope) : Member → Except CompileError Code
  | .field p => mergeField s p
  | .union u => do
    let partialType ← partialIdent u.typeIdent
    let arms ← u.variants.mapM fun v => do
      return fill "$::$(value) => $::$($),"
        [name partialType, name v.ident, name u.typeIdent, name v.ident,
          ← completeCode s v.kind v.boxed]
    return fill
      ("if let ::core::option::Option::Some(value) = object.$ ⦃ " ++
        "message.$ = ::core::option::Option::Some(match value ⦃ $ ⦄); ⦄")
      [name u.ident, name u.ident, arms.flatten]

def partialItems (s : Scope) (i : Ident) (members : List Member) :
    Except CompileError (List Item) := do
  let partialName ← partialIdent i
  let fields ← members.mapM (partialField s)
  let merges ← members.mapM (mergeMember s)
  let unions ← (members.filterMap Member.union?).mapM (partialUnion s)
  let struct := fill
    ("#[allow(non_camel_case_types)] #[derive(Clone, Debug, Default, PartialEq)] " ++
      "pub struct $ ⦃ $ ⦄")
    [name partialName, fields.flatten]
  let conversion := fill
    ("impl ::protoforge::FromPartial for $ ⦃ type Partial = $; " ++
      "#[allow(unused_mut, unused_variables)] fn from_partial(object: DeepPartial<Self>) -> Self " ++
      "⦃ let mut message = Self::default(); $ message ⦄ ⦄")
    [name i, name partialName, merges.flatten]
  return typeItem partialName struct :: unions ++ [plainItem conversion]

end Protobuf.Emit
