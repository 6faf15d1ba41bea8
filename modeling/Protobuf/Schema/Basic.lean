import Protobuf.Schema.Comments
import Protobuf.Wire.Scalar

/-!
# Checked schemas

Files whose fields have numbers in range, known types and declared oneofs. Every
element remembers its place in the file, by which its comments are found.
-/

namespace Protobuf.Schema

inductive FieldType where
  | scalar (s : Scalar)
  | enum
  | message
  deriving DecidableEq

def FieldType.wireType : FieldType → Nat
  | .scalar s => s.wireType
  | .enum => 0
  | .message => 2

/-- Whether repeated values can share one block. -/
def FieldType.isPackable : FieldType → Bool
  | .scalar s => s.isPackable
  | .enum => true
  | .message => false

/-- Whether the values are 64-bit integers. -/
def FieldType.isLong : FieldType → Bool
  | .scalar s => s.isLong
  | _ => false

/-- Whether a field holds one value or many. -/
inductive Label where
  | optional
  | repeated
  deriving DecidableEq

/-- The language version of a file. -/
inductive Dialect where
  | proto2
  | proto3
  | editions
  deriving DecidableEq

def Dialect.name : Dialect → String
  | .proto2 => "proto2"
  | .proto3 => "proto3"
  | .editions => "editions"

structure Field where
  name : String
  number : Nat
  type : FieldType
  /-- One value or many. -/
  label : Label
  typeName : Option String
  oneof : Option Nat
  proto3Optional : Bool
  path : SourcePath
  deriving DecidableEq

def Field.isRepeated (f : Field) : Bool :=
  f.label = .repeated

def Field.tag (f : Field) (wireType : Nat) : Nat :=
  f.number * 8 + wireType

structure Oneof where
  name : String
  path : SourcePath
  deriving DecidableEq

structure EnumValue where
  name : String
  number : Int32
  path : SourcePath
  deriving DecidableEq

structure Enum where
  name : String
  /-- Values, in the order of declaration. -/
  values : List EnumValue
  path : SourcePath
  deriving DecidableEq

structure Message where
  name : String
  /-- Fields, in the order of declaration. -/
  fields : List Field
  messages : List Message
  enums : List Enum
  oneofs : List Oneof
  /-- Whether the message is the entry of a map: marked so, with the two fields `key` and
  `value`. -/
  isMapEntry : Bool
  path : SourcePath

def Message.oneofMembers (m : Message) (index : Nat) : List Field :=
  m.fields.filter fun f => f.oneof == some index

/-- Key and value of a map entry. -/
def Message.mapFields? (m : Message) : Option (Field × Field) :=
  match m.isMapEntry, m.fields with
  | true, key :: value :: _ => some (key, value)
  | _, _ => none

structure Method where
  name : String
  input : String
  output : String
  clientStreaming : Bool
  serverStreaming : Bool
  path : SourcePath
  deriving DecidableEq

structure Service where
  name : String
  /-- Methods, in the order of declaration. -/
  methods : List Method
  path : SourcePath
  deriving DecidableEq

structure File where
  path : String
  package : String
  /-- Language version. -/
  dialect : Dialect
  messages : List Message
  enums : List Enum
  services : List Service
  dependencies : List String
  comments : Comments

/-- The text before the names of types declared in a package. -/
def packageScope (package : String) : String :=
  if package.isEmpty then "" else "." ++ package

def qualify (scope name : String) : String :=
  scope ++ "." ++ name

end Protobuf.Schema
