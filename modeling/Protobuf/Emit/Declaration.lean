import Protobuf.Emit.Item
import Protobuf.Plan.Types

/-!
# Declarations of messages and enums

A message becomes a struct with its default value, and a type for each union. An
enum becomes an enum with a variant for numbers that are not declared, and the
conversions between variants, numbers and names.
-/

namespace Protobuf.Emit

open Protobuf.Schema
open Plan
open Source

/-- The documentation of the element at a place. -/
def docsAt (s : Scope) (path : SourcePath) : Code :=
  docs (s.comments.lines path)

def unionItem (s : Scope) (u : UnionPlan) : Except CompileError Item := do
  let variants ← u.variants.mapM fun v => do
    let type ← s.valueType v.kind v.boxed
    return docsAt s v.field.path ++ fill "$($)," [name v.ident, type.toCode]
  return typeItem u.typeIdent <| fill
    "#[allow(non_camel_case_types)] #[derive(Clone, Debug, PartialEq)] pub enum $ ⦃ $ ⦄"
    [name u.typeIdent, variants.flatten]

def messageItems (s : Scope) (m : Message) (i : Ident) (members : List Member) :
    Except CompileError (List Item) := do
  let properties ← members.mapM s.property
  let fields := each properties fun p =>
    docs p.docs ++ fill "pub $: $," [name p.ident, p.type.toCode]
  let unions ← (members.filterMap Member.union?).mapM (unionItem s)
  let values ← members.mapM s.memberDefault
  let defaults := each (properties.zip values) fun (p, v) => fill "$: $," [name p.ident, v]
  let struct := docsAt s m.path ++ fill
    "#[allow(non_camel_case_types)] #[derive(Clone, Debug, PartialEq)] pub struct $ ⦃ $ ⦄"
    [name i, fields]
  let default := fill
    "impl ::core::default::Default for $ ⦃ fn default() -> Self ⦃ Self ⦃ $ ⦄ ⦄ ⦄"
    [name i, defaults]
  return typeItem i struct :: unions ++ [plainItem default]

def namePattern (names : List String) : Code :=
  ((names.map quote).intersperse (word "|")).flatten

def textArms (plan : EnumPlan) : Code :=
  each plan.textArms fun (i, text) => fill "Self::$ => $," [name i, quote text]

/-- The conversions between the variants of an enum and JSON. -/
def enumJson (plan : EnumPlan) : Code :=
  let names := each plan.nameArms fun (names, i) =>
    fill "$ => Self::$," [namePattern names, name i]
  let texts := textArms plan
  let sentinel := name plan.sentinel
  docLine " Accepts the value name (aliases included) or its number." ++
    fill ("pub fn from_json(value: &::protoforge::serde_json::Value) -> Self ⦃ match value ⦃ " ++
      "::protoforge::serde_json::Value::Number(number) => number.as_i64()" ++
      ".and_then(|n| i32::try_from(n).ok()).map_or(Self::$, Self::from_i32), " ++
      "::protoforge::serde_json::Value::String(name) => match name.as_str() " ++
      "⦃ $ _ => Self::$, ⦄, _ => Self::$, ⦄ ⦄ " ++
      "pub fn to_json(&self) -> &'static str ⦃ match self ⦃ $ Self::$ => $, ⦄ ⦄")
      [sentinel, names, sentinel, sentinel, texts, sentinel, quote "UNKNOWN"]

def enumItems (s : Scope) (e : Enum) (i : Ident) : Except CompileError (List Item) := do
  let plan ← EnumPlan.ofEnum e
  let sentinel := name plan.sentinel
  let variants := each plan.variants fun v =>
    docsAt s v.value.path ++ fill "$ = $," [name v.ident, integer v.value.number.toInt]
  let numbers := each plan.numberArms fun (n, i) =>
    fill "$ => Self::$," [integer n.toInt, name i]
  let texts := textArms plan
  let declaration := docsAt s e.path ++ fill
    ("#[allow(non_camel_case_types)] " ++
      "#[derive(Clone, Copy, Debug, PartialEq, Eq, Hash, PartialOrd, Ord)] #[repr(i32)] " ++
      "pub enum $ ⦃ $ $ = $, ⦄")
    [name i, variants, sentinel, integer plan.sentinelNumber.toInt]
  let methods := fill
    ("impl $ ⦃ pub fn from_i32(value: i32) -> Self ⦃ match value ⦃ $ _ => Self::$, ⦄ ⦄ " ++
      "pub fn as_str_name(&self) -> &'static str ⦃ match self ⦃ $ Self::$ => $, ⦄ ⦄ $ ⦄")
    [name i, numbers, sentinel, texts, sentinel, quote "UNRECOGNIZED",
      if s.options.jsonCodec then enumJson plan else []]
  let default := fill
    "impl ::core::default::Default for $ ⦃ fn default() -> Self ⦃ Self::$ ⦄ ⦄"
    [name i, name plan.default]
  return [typeItem i declaration, plainItem methods, plainItem default]

end Protobuf.Emit
