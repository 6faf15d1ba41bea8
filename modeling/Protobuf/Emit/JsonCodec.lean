import Protobuf.Emit.Access
import Protobuf.Emit.Item
import Protobuf.Plan.Types

/-!
# The JSON codec of a message

The generated codec writes every member under its JSON key and reads members in
the order of declaration, under either of their names.
-/

namespace Protobuf.Emit

open Plan
open Source

def scalarJson (longs : LongStyle) (t : Scalar) (value : Access) : Code :=
  let fromValue := fill "::protoforge::serde_json::Value::from($)" [value.copied]
  let cloned := fill "::protoforge::serde_json::Value::String($.clone())" [value.receiver]
  match t with
  | .string => cloned
  | .bytes =>
    fill "::protoforge::serde_json::Value::String(base64_from_bytes($))" [value.borrowed]
  | .bool => fill "::protoforge::serde_json::Value::Bool($)" [value.copied]
  | .double => fill "::protoforge::json::from_f64($)" [value.copied]
  | .float => fill "::protoforge::json::from_f32($)" [value.copied]
  | t =>
    if t.isLong then
      match longs with
      | .decimal => cloned
      | .wide =>
        fill "::protoforge::serde_json::Value::String(long_to_string($))" [value.copied]
      | .number => fromValue
    else fromValue

def valueJson (s : Scope) (kind : ValueKind) (value : Access) : Code :=
  match kind with
  | .scalar t => scalarJson s.options.longs t value
  | .wrapper w => scalarJson .number w.scalar value
  | .enum .. =>
    fill "::protoforge::serde_json::Value::String($.to_json().to_string())" [value.receiver]
  | .timestamp =>
    fill "::protoforge::serde_json::Value::String(::protoforge::json::format_timestamp($))"
      [value.borrowed]
  | .message _ => fill "$.to_json()" [value.receiver]

/-- The expression that reads a scalar from JSON. -/
def scalarParse (decimal sharedBytes : Bool) (t : Scalar) : Code :=
  match t with
  | .string => code "::protoforge::json::to_string(value)?"
  | .bytes =>
    if sharedBytes then code "::protoforge::bytes::Bytes::from(bytes_from_base64(value)?)"
    else code "bytes_from_base64(value)?"
  | .bool => code "::protoforge::json::to_bool(value)?"
  | .double => code "::protoforge::json::to_f64(value)?"
  | .float => code "::protoforge::json::to_f32(value)?"
  | t =>
    let function :=
      match t.isLong, decimal, t.isUnsigned with
      | true, true, true => "to_uint64_string"
      | true, true, false => "to_int64_string"
      | true, false, true => "to_u64"
      | true, false, false => "to_i64"
      | false, _, true => "to_u32"
      | false, _, false => "to_i32"
    fill "::protoforge::json::$(value)?" [word function]

/-- The expression that reads a value from JSON. -/
def valueParse (s : Scope) (kind : ValueKind) (boxed : Bool) : Except CompileError Code :=
  match kind with
  | .scalar t => return scalarParse s.options.decimalLongs s.options.sharedBytes t
  | .wrapper w => return scalarParse false false w.scalar
  | .enum ref _ => return fill "$::from_json(value)" [← s.typePath ref]
  | .timestamp => return code "from_json_timestamp(value)?"
  | .message ref => do
    let parsed := fill "<$ as ::protoforge::JsonMessage>::from_json(value)?" [← s.typePath ref]
    return if boxed then fill "::std::boxed::Box::new($)" [parsed] else parsed

def namesCode (jsonName fieldName : String) : Code :=
  if jsonName = fieldName then fill "&[$]" [quote jsonName]
  else fill "&[$, $]" [quote jsonName, quote fieldName]

/-- Statements that write a field to a JSON object. -/
def fieldJson (s : Scope) (p : FieldPlan) : Code :=
  let key := quote p.jsonName
  let property := selfProperty p.ident
  let value := valueJson s p.kind (.reference "value")
  match p.layout with
  | .plain =>
    fill "object.insert(::std::string::String::from($), $);"
      [key, valueJson s p.kind (.place property)]
  | .optional =>
    if p.propertyOptional then
      fill
        ("if let ::core::option::Option::Some(value) = &$ ⦃ " ++
          "object.insert(::std::string::String::from($), $); ⦄")
        [property, key, value]
    else
      fill
        ("object.insert(::std::string::String::from($), match &$ ⦃ " ++
          "::core::option::Option::Some(value) => $, " ++
          "::core::option::Option::None => ::protoforge::serde_json::Value::Null, ⦄,);")
        [key, property, value]
  | .repeated =>
    fill
      ("object.insert(::std::string::String::from($), " ++
        "::protoforge::serde_json::Value::Array($.iter().map(|value| $).collect()),);")
      [key, property, value]
  | .map _ _ v =>
    fill
      ("object.insert(::std::string::String::from($), " ++
        "::protoforge::serde_json::Value::Object($.iter()" ++
        ".map(|(key, value)| (key.to_string(), $)).collect(),),);")
      [key, property, valueJson s v.kind (.reference "value")]

/-- The expression that reads a map key. -/
def keyParse (s : Scope) (kind : ValueKind) : Except CompileError Code :=
  match kind with
  | .scalar t =>
    if t.isLong && s.options.decimalLongs then
      return fill "::protoforge::json::decimal_key::<$>(key)?"
        [word (if t.isUnsigned then "u64" else "i64")]
    else
      return fill "::protoforge::json::map_key::<$>(key)?" [scalarType s.options t]
  | kind => do
    return fill "::protoforge::json::map_key::<$>(key)?" [(← s.valueType kind false).toCode]

/-- Statements that read a field from a JSON object. -/
def fieldParse (s : Scope) (p : FieldPlan) : Except CompileError Code := do
  let i := name p.ident
  let body ←
    match p.layout with
    | .plain => pure (fill "message.$ = $;" [i, ← valueParse s p.kind p.boxed])
    | .optional =>
      pure (fill "message.$ = ::core::option::Option::Some($);" [i, ← valueParse s p.kind p.boxed])
    | .repeated =>
      pure (fill "for value in ::protoforge::json::array(value)? ⦃ message.$.push($); ⦄"
        [i, ← valueParse s p.kind p.boxed])
    | .map _ key value => do
      let k ← keyParse s key.kind
      let v ← valueParse s value.kind false
      pure (fill
        ("for (key, value) in ::protoforge::json::object(value)? ⦃ " ++
          "if value.is_null() ⦃ continue; ⦄ message.$.insert($, $); ⦄")
        [i, k, v])
  return fill
    "if let ::core::option::Option::Some(value) = ::protoforge::json::field(object, $) ⦃ $ ⦄"
    [namesCode p.jsonName p.field.name, body]

/-- Statements that write a member to a JSON object. -/
def memberJson (s : Scope) : Member → Code
  | .field p => fieldJson s p
  | .union u =>
    let cases := each u.variants fun v =>
      fill
        ("::core::option::Option::Some($::$(value)) => ⦃ " ++
          "object.insert(::std::string::String::from($), $); ⦄")
        [name u.typeIdent, name v.ident, quote v.jsonName,
          valueJson s v.kind (.reference "value")]
    fill "match &$ ⦃ $ ::core::option::Option::None => ⦃ ⦄ ⦄" [selfProperty u.ident, cases]

/-- Statements that read a member from a JSON object; of a union the first member present. -/
def memberParse (s : Scope) : Member → Except CompileError Code
  | .field p => fieldParse s p
  | .union u => do
    let cases ← u.variants.mapM fun v => do
      return fill
        ("if let ::core::option::Option::Some(value) = ::protoforge::json::field(object, $) ⦃ " ++
          "message.$ = ::core::option::Option::Some($::$($)); ⦄")
        [namesCode v.jsonName v.field.name, name u.ident, name u.typeIdent, name v.ident,
          ← valueParse s v.kind v.boxed]
    return (cases.intersperse (code "else")).flatten

/-- The item that gives a message its JSON codec. -/
def jsonItem (s : Scope) (i : Ident) (members : List Member) : Except CompileError Item := do
  let reads ← members.mapM (memberParse s)
  return plainItem <| fill
    ("impl ::protoforge::JsonMessage for $ ⦃ " ++
      "fn to_json(&self) -> ::protoforge::serde_json::Value ⦃ #[allow(unused_mut)] " ++
      "let mut object = ::protoforge::serde_json::Map::new(); $ " ++
      "::protoforge::serde_json::Value::Object(object) ⦄ " ++
      "#[allow(unused_mut)] fn from_json(value: &::protoforge::serde_json::Value,) -> " ++
      "::core::result::Result<Self, ::protoforge::JsonError> ⦃ #[allow(unused_variables)] " ++
      "let object = ::protoforge::json::object(value)?; let mut message = Self::default(); $ " ++
      "::core::result::Result::Ok(message) ⦄ ⦄")
    [name i, each members (memberJson s), reads.flatten]

end Protobuf.Emit
