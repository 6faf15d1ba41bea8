import Protobuf.Warning

/-!
# Generation options

How generated code looks and what it consists of. Options are read from a text of
pairs of keys and values; what does not parse is reported and left out.
-/

namespace Protobuf

/-- Names of fields in JSON. -/
inductive NameStyle where
  | verbatim
  | camel
  deriving DecidableEq

/-- How 64-bit integers are held and written to JSON. -/
inductive LongStyle where
  /-- Integers, written as numbers. -/
  | number
  /-- Integers, written as strings. -/
  | wide
  | decimal
  deriving DecidableEq

/-- How an unset message or wrapper appears in JSON. -/
inductive OptionalStyle where
  | nullable
  | absent
  deriving DecidableEq

/-- How the members of a oneof are held. -/
inductive OneofStyle where
  | siblings
  /-- Together in one property, a tagged union. -/
  | union
  deriving DecidableEq

/-- Names of service methods. -/
inductive MethodStyle where
  | declared
  | snake
  deriving DecidableEq

/-- What a call gives. -/
inductive ReturnStyle where
  /-- A future, or a stream where the method streams. -/
  | future
  | stream
  deriving DecidableEq

/-- The kind of system that the code runs on, which decides how bytes are held. -/
inductive Target where
  /-- Shared byte buffers. -/
  | node
  /-- Owned byte vectors. -/
  | browser
  | either
  deriving DecidableEq

structure Options where
  names : NameStyle := .camel
  /-- 64-bit integers. -/
  longs : LongStyle := .number
  /-- Unset messages and wrappers. -/
  optionals : OptionalStyle := .nullable
  oneofs : OneofStyle := .siblings
  binaryCodec : Bool := true
  /-- Whether the JSON codec and the partials are generated. -/
  jsonCodec : Bool := true
  client : Bool := true
  methods : MethodStyle := .snake
  returns : ReturnStyle := .future
  /-- Whether a call context is passed along. -/
  context : Bool := false
  target : Target := .either
  /-- Whether server controllers are generated instead of service traits. -/
  controllers : Bool := false
  /-- Whether every method takes metadata. -/
  metadata : Bool := false
  deriving DecidableEq

namespace Options

/-- The options that hold if nothing is said. -/
def standard : Options := {}

def switch? (value : String) : Option Bool :=
  if value = "true" then some true
  else if value = "false" then some false
  else none

/-- The options after a pair of key and value; none if the value does not parse. A key that is
not known changes nothing. -/
def assign? (o : Options) (key value : String) : Option Options :=
  match key with
  | "snakeToCamel" =>
    (switch? value).map fun b => { o with names := if b then .camel else .verbatim }
  | "forceLong" =>
    match value with
    | "number" | "false" => some { o with longs := .number }
    | "long" | "true" => some { o with longs := .wide }
    | "string" => some { o with longs := .decimal }
    | _ => none
  | "useOptionals" =>
    (switch? value).map fun b => { o with optionals := if b then .absent else .nullable }
  | "oneof" =>
    match value with
    | "properties" => some { o with oneofs := .siblings }
    | "unions" => some { o with oneofs := .union }
    | _ => none
  | "outputEncodeMethods" => (switch? value).map fun b => { o with binaryCodec := b }
  | "outputJsonMethods" => (switch? value).map fun b => { o with jsonCodec := b }
  | "outputClientImpl" => (switch? value).map fun b => { o with client := b }
  | "lowerCaseServiceMethods" =>
    (switch? value).map fun b => { o with methods := if b then .snake else .declared }
  | "returnObservable" =>
    (switch? value).map fun b => { o with returns := if b then .stream else .future }
  | "context" => (switch? value).map fun b => { o with context := b }
  | "env" =>
    match value with
    | "node" => some { o with target := .node }
    | "browser" => some { o with target := .browser }
    | "both" => some { o with target := .either }
    | _ => none
  | "nestJs" => (switch? value).map fun b => { o with controllers := b }
  | "addGrpcMetadata" => (switch? value).map fun b => { o with metadata := b }
  | _ => some o

/-- Characters before the first equals sign and after it; a pair without one is switched on. -/
def splitPair (pair : List Char) : String × String :=
  match pair.dropWhile (· != '=') with
  | [] => (String.ofList pair, "true")
  | _ :: value => (String.ofList (pair.takeWhile (· != '=')), String.ofList value)

def applyPair (o : Options) (pair : List Char) : Logged Options :=
  let (key, value) := splitPair pair
  match o.assign? (Text.trim key) (Text.trim value) with
  | some o => ⟨o, []⟩
  | none => ⟨o, [.ignoredOption key value]⟩

/-- The pairs of a parameter text: the parts between commas, without blanks around them and
without empty ones. -/
def pairs (parameter : String) : List (List Char) :=
  ((parameter.toList.splitOn ',').map Text.trimChars).filter fun p => !p.isEmpty

/-- What options demand of each other: controllers come with snake-case methods and without
clients, and metadata only with controllers. -/
def settle (o : Options) : Logged Options :=
  if o.controllers then ⟨{ o with methods := .snake, client := false }, []⟩
  else if o.metadata then ⟨{ o with metadata := false }, [.metadataWithoutControllers]⟩
  else ⟨o, []⟩

def parse (parameter : String) : Logged Options := do
  let o ← (pairs parameter).foldlM applyPair standard
  o.settle

/-- Whether 64-bit integers are held as texts. -/
def decimalLongs (o : Options) : Bool :=
  o.longs = .decimal

def sharedBytes (o : Options) : Bool :=
  o.target = .node

end Options

end Protobuf
