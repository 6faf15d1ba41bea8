import Protobuf.Emit.Access
import Protobuf.Emit.Item
import Protobuf.Plan.Types

/-!
# The binary codec of a message

The generated codec writes members in the order of declaration and reads records
by field number.
-/

namespace Protobuf.Emit

open Plan
open Source

def tagCode (number wireType : Nat) : Code :=
  natural (number * 8 + wireType)

def heldAsText (s : Scope) (t : Scalar) : Bool :=
  t.isLong && s.options.decimalLongs

/-- The function that reads the text of a long integer. -/
def longFunction (t : Scalar) : Code :=
  word (if t.isUnsigned then "string_to_ulong" else "string_to_long")

/-- Statements that write a value without its tag. Only scalars and enums are written so. -/
def bareWrite (s : Scope) (kind : ValueKind) (value : Access) : Code :=
  match kind with
  | .scalar t =>
    let argument :=
      if t = .string ∨ t = .bytes then value.borrowed
      else if heldAsText s t then fill "$($)" [longFunction t, value.borrowed]
      else value.copied
    fill "writer.$($);" [word t.name, argument]
  | .enum .. => fill "writer.int32($ as i32);" [value.copied]
  | _ => []

/-- A reference to a message, which may be held behind a pointer. -/
def messageReference (boxed : Bool) : Access → Code
  | .reference v => if boxed then fill "&**$" [word v] else word v
  | .place c => if boxed then fill "&*$" [c] else fill "&$" [c]

/-- Statements that write a value with its tag. -/
def taggedWrite (s : Scope) (number : Nat) (kind : ValueKind) (boxed : Bool) (value : Access) :
    Code :=
  let tag := tagCode number kind.wireType
  match kind with
  | .scalar _ | .enum .. => fill "writer.uint32($); $" [tag, bareWrite s kind value]
  | .wrapper _ => fill "::protoforge::wkt::encode_wrapper(writer, $, $);" [tag, value.borrowed]
  | .timestamp => fill "writer.message($, &to_timestamp($));" [tag, value.borrowed]
  | .message _ => fill "writer.message($, $);" [tag, messageReference boxed value]

/-- The condition that a plain field differs from a field that was not set. -/
def isSet (s : Scope) (kind : ValueKind) (place : Code) : Except CompileError Code :=
  match kind with
  | .scalar t =>
    return if t = .string ∨ t = .bytes then fill "!$.is_empty()" [place]
      else if t = .bool then place
      else if t.isFloat then fill "$ != $" [place, word "0.0"]
      else if heldAsText s t then fill "$(&$) != 0" [longFunction t, place]
      else fill "$ != 0" [place]
  | .enum .. => return fill "$ != $" [place, ← s.defaultValue kind]
  | _ => return code "true"

def readCode (s : Scope) (kind : ValueKind) (boxed : Bool) : Except CompileError Code :=
  match kind with
  | .scalar t =>
    return if t = .bytes ∧ s.options.sharedBytes then
        code "::protoforge::bytes::Bytes::from(reader.bytes()?)"
      else if heldAsText s t then fill "reader.$()?.to_string()" [word t.name]
      else fill "reader.$()?" [word t.name]
  | .enum ref _ => return fill "$::from_i32(reader.int32()?)" [← s.typePath ref]
  | .wrapper w => return fill "::protoforge::wkt::decode_wrapper::<$>(reader)?" [wrapperType w]
  | .timestamp =>
    return code "from_timestamp(reader.message::<::protoforge::wkt::Timestamp>()?)"
  | .message ref => do
    let read := fill "reader.message::<$>()?" [← s.typePath ref]
    return if boxed then fill "::std::boxed::Box::new($)" [read] else read

/-- Statements that write a field. -/
def encodeField (s : Scope) (p : FieldPlan) : Except CompileError Code := do
  let number := p.field.number
  let property := selfProperty p.ident
  match p.layout with
  | .plain =>
    return fill "if $ ⦃ $ ⦄"
      [← isSet s p.kind property, taggedWrite s number p.kind p.boxed (.place property)]
  | .optional =>
    return fill "if let ::core::option::Option::Some(value) = &$ ⦃ $ ⦄"
      [property, taggedWrite s number p.kind p.boxed (.reference "value")]
  | .repeated =>
    if p.isPacked then
      return fill
        ("if !$.is_empty() ⦃ writer.uint32($).fork(); for value in &$ ⦃ $ ⦄ " ++
          "writer.ldelim(); ⦄")
        [property, tagCode number 2, property, bareWrite s p.kind (.reference "value")]
    else
      return fill "for value in &$ ⦃ $ ⦄"
        [property, taggedWrite s number p.kind p.boxed (.reference "value")]
  | .map _ key value =>
    return fill
      "for (key, value) in &$ ⦃ writer.uint32($).fork(); $ $ writer.ldelim(); ⦄"
      [property, tagCode number 2,
        taggedWrite s key.field.number key.kind false (.reference "key"),
        taggedWrite s value.field.number value.kind false (.reference "value")]

/-- The arm that reads a record of a field. -/
def decodeField (s : Scope) (p : FieldPlan) : Except CompileError Code := do
  let value ← readCode s p.kind p.boxed
  let number := natural p.field.number
  let i := name p.ident
  match p.layout with
  | .plain => return fill "$ => ⦃ message.$ = $; ⦄" [number, i, value]
  | .optional =>
    return fill "$ => ⦃ message.$ = ::core::option::Option::Some($); ⦄" [number, i, value]
  | .repeated =>
    if p.isPacked then
      return fill
        ("$ => if tag & 7 == 2 ⦃ let packed_end = reader.packed_end()?; " ++
          "while reader.pos() < packed_end ⦃ message.$.push($); ⦄ " ++
          "reader.finish_frame(packed_end)?; ⦄ else ⦃ message.$.push($); ⦄,")
        [number, i, value, i, value]
    else return fill "$ => ⦃ message.$.push($); ⦄" [number, i, value]
  | .map entry _ v =>
    let entryPath ← s.typePath entry
    let stored :=
      match v.layout with
      | .optional =>
        if v.boxed then code "entry.value.map(|value| *value).unwrap_or_default()"
        else code "entry.value.unwrap_or_default()"
      | _ => code "entry.value"
    return fill
      "$ => ⦃ let entry = reader.message::<$>()?; message.$.insert(entry.key, $); ⦄"
      [number, entryPath, i, stored]

/-- Statements that write a member. -/
def encodeMember (s : Scope) : Member → Except CompileError Code
  | .field p => encodeField s p
  | .union u =>
    let cases := each u.variants fun v =>
      fill "::core::option::Option::Some($::$(value)) => ⦃ $ ⦄"
        [name u.typeIdent, name v.ident,
          taggedWrite s v.field.number v.kind v.boxed (.reference "value")]
    return fill "match &$ ⦃ $ ::core::option::Option::None => ⦃ ⦄ ⦄"
      [selfProperty u.ident, cases]

/-- The arms that read records of a member. -/
def decodeMember (s : Scope) : Member → Except CompileError Code
  | .field p => decodeField s p
  | .union u => do
    let arms ← u.variants.mapM fun v => do
      return fill "$ => ⦃ message.$ = ::core::option::Option::Some($::$($)); ⦄"
        [natural v.field.number, name u.ident, name u.typeIdent, name v.ident,
          ← readCode s v.kind v.boxed]
    return arms.flatten

/-- The item that gives a message its binary codec. -/
def wireItem (s : Scope) (i : Ident) (members : List Member) : Except CompileError Item := do
  let writes ← members.mapM (encodeMember s)
  let arms ← members.mapM (decodeMember s)
  return plainItem <| fill
    ("impl ::protoforge::Message for $ ⦃ #[allow(unused_variables)] " ++
      "fn encode(&self, writer: &mut ::protoforge::Writer) ⦃ $ ⦄ " ++
      "#[allow(unused_mut)] fn decode(reader: &mut ::protoforge::Reader<'_>, " ++
      "length: ::core::option::Option<usize>) -> " ++
      "::core::result::Result<Self, ::protoforge::DecodeError> ⦃ " ++
      "let end = reader.frame_end(length)?; let mut message = Self::default(); " ++
      "while reader.pos() < end ⦃ let tag = reader.uint32()?; " ++
      "match tag >> 3 ⦃ $ _ => ⦃ reader.skip_type(tag & 7)?; ⦄ ⦄ ⦄ " ++
      "reader.finish_frame(end)?; ::core::result::Result::Ok(message) ⦄ ⦄")
    [name i, writes.flatten, arms.flatten]

end Protobuf.Emit
