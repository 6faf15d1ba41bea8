import Protobuf.Naming
import Protobuf.Schema.Basic
import Protobuf.Schema.Error

/-!
# All types of a set of files

Every message and enum, nested ones included, is found by its qualified name. A
name that is declared again replaces the earlier declaration, with a warning.
-/

namespace Protobuf.Schema

/-- Where a type is declared and what it is called in the generated source. -/
structure TypeRef where
  /-- Module of the declaring file. -/
  module : List String
  /-- Package of the declaring file. -/
  package : String
  /-- Names of the type and the messages around it, joined by underscores. -/
  generatedName : String
  /-- Names of package, surrounding messages and type, each after a dot. -/
  qualifiedName : String
  deriving DecidableEq

/-- What a name stands for. -/
inductive TypeDescriptor where
  | message (m : Message)
  | enum (e : Enum)

structure Entry where
  ref : TypeRef
  descriptor : TypeDescriptor

def Entry.message? (e : Entry) : Option Message :=
  match e.descriptor with
  | .message m => some m
  | .enum _ => none

def Entry.enum? (e : Entry) : Option Enum :=
  match e.descriptor with
  | .enum e => some e
  | .message _ => none

/-- The file that types are declared in. -/
structure Origin where
  module : List String
  package : String

/-- The entry of an enum in a scope, with the generated names of the messages around it. -/
def enumEntry (o : Origin) (scope outer : String) (e : Enum) : Entry :=
  ⟨⟨o.module, o.package, outer ++ e.name, qualify scope e.name⟩, .enum e⟩

mutual

/-- The entries of a message: its enums, the messages nested in it, and itself. -/
def messageEntries (o : Origin) (scope outer : String) : Message → List Entry
  | ⟨name, fields, messages, enums, oneofs, isMapEntry, path⟩ =>
    let qualified := qualify scope name
    let generated := outer ++ name
    let inner := generated ++ "_"
    enums.map (enumEntry o qualified inner) ++ messagesEntries o qualified inner messages ++
      [⟨⟨o.module, o.package, generated, qualified⟩,
        .message ⟨name, fields, messages, enums, oneofs, isMapEntry, path⟩⟩]

def messagesEntries (o : Origin) (scope outer : String) : List Message → List Entry
  | [] => []
  | m :: messages => messageEntries o scope outer m ++ messagesEntries o scope outer messages

end

/-- The entries of a file: its enums, then its messages. -/
def File.entries (f : File) : List Entry :=
  let o : Origin := ⟨Naming.moduleSegments f.path, f.package⟩
  let scope := packageScope f.package
  f.enums.map (enumEntry o scope "") ++ messagesEntries o scope "" f.messages

/-- The types of a set of files, each name once. -/
structure Registry where
  entries : List Entry

namespace Registry

def empty : Registry := ⟨[]⟩

def find? (r : Registry) (name : String) : Option Entry :=
  r.entries.find? fun e => e.ref.qualifiedName == name

/-- Put an entry in the place of the one with the same name, or at the end. -/
def put (e : Entry) : List Entry → List Entry
  | [] => [e]
  | d :: entries =>
    if d.ref.qualifiedName = e.ref.qualifiedName then e :: entries else d :: put e entries

/-- Register a type; an earlier declaration of the name is given up. -/
def insert (r : Registry) (e : Entry) : Logged Registry :=
  let registered : Registry := ⟨put e r.entries⟩
  match r.find? e.ref.qualifiedName with
  | some previous => ⟨registered, [.duplicateType e.ref.qualifiedName previous.ref.module]⟩
  | none => ⟨registered, []⟩

def ofFiles (files : List File) : Logged Registry :=
  (files.flatMap File.entries).foldlM insert empty

def size (r : Registry) : Nat :=
  r.entries.length

/-- The entry with a qualified name, which an element of the schema refers to. -/
def resolve (r : Registry) (name referencedBy : String) : Except CompileError Entry :=
  match r.find? name with
  | some e => .ok e
  | none => .error (.unresolvedType name referencedBy)

/-- The types of the singular message fields of a type. -/
def successors (r : Registry) (name : String) : List String :=
  match (r.find? name).bind Entry.message? with
  | some m =>
    (m.fields.filter fun f => f.type == .message && !f.isRepeated).filterMap Field.typeName
  | none => []

/-- Whether a depth-first walk from the names on the stack meets `owner`, having seen the names
in `seen`. A name is expanded once, so the fuel bounds the names put on the stack. -/
def reaches (r : Registry) (owner : String) : (fuel : Nat) → (seen stack : List String) → Bool
  | 0, _, _ => false
  | _ + 1, _, [] => false
  | fuel + 1, seen, name :: stack =>
    if name = owner then true
    else if seen.contains name then reaches r owner fuel seen stack
    else reaches r owner fuel (name :: seen) (r.successors name ++ stack)

/-- A bound on the names that a walk visits: the start, and every singular message field once. -/
def walkBound (r : Registry) : Nat :=
  (r.entries.map fun e => (r.successors e.ref.qualifiedName).length).foldl (· + ·) 2

/-- Whether `target` leads to `owner` through singular message fields, so that a field of type
`target` in `owner` must be held behind a pointer. -/
def isRecursive (r : Registry) (owner target : String) : Bool :=
  r.reaches owner r.walkBound [] [target]

end Registry

end Protobuf.Schema
