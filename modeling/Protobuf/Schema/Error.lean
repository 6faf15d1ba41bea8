import Protobuf.Text.Numeral

/-!
# Why a schema cannot be compiled

Every cause names the element of the schema that it is about.
-/

namespace Protobuf

/-- What is wrong with the shape of a field. -/
inductive ShapeFault where
  /-- The type is missing or unknown. -/
  | unknownType
  | group
  /-- An enum or message field names no type. -/
  | untyped
  /-- The named type is of another kind than the field. -/
  | kindMismatch (typeName : String)
  /-- A map whose keys are not integers, booleans or strings. -/
  | mapKey
  | repeatedMember
  /-- The message does not declare the field. -/
  | undeclared
  deriving DecidableEq

def ShapeFault.message : ShapeFault → String
  | .unknownType => "missing or unknown field type"
  | .group => "groups are not supported"
  | .untyped => "composite field without a type name"
  | .kindMismatch typeName => "`" ++ typeName ++ "` does not match the field's declared kind"
  | .mapKey => "map keys must be integral, bool or string"
  | .repeatedMember => "oneof members cannot be repeated"
  | .undeclared => "field not declared by its message"

/-- What is wrong with a set of descriptors. -/
inductive DescriptorFault where
  | namelessFile
  | fieldNumber (field : String) (number : Int)
  /-- A field belongs to a oneof that is not declared. -/
  | missingOneof (field : String) (index : Nat)
  /-- A file that was asked for is not in the set. -/
  | missingFile (name : String)
  deriving DecidableEq

def DescriptorFault.message : DescriptorFault → String
  | .namelessFile => "file descriptor without a name"
  | .fieldNumber field number =>
    "field `" ++ field ++ "` has out-of-range number " ++ Text.intText number
  | .missingOneof field index =>
    "field `" ++ field ++ "` references missing oneof " ++ Text.natText index
  | .missingFile name => "`" ++ name ++ "` is not in the descriptor set"

/-- Why files cannot be read or written. -/
inductive FileFault where
  /-- No output directory was given, and the environment names none. -/
  | noOutputDirectory
  | noDirectory (directory : String)
  /-- The directory holds no schema file. -/
  | noSchemas (directory : String)
  /-- The file, or the directory that it belongs in, does not exist. -/
  | notFound
  /-- A file is to be written where a directory is. -/
  | isDirectory
  /-- A directory is to be made where a file is. -/
  | isFile
  /-- A path leads through a file. -/
  | notDirectory
  deriving DecidableEq

def FileFault.message : FileFault → String
  | .noOutputDirectory => "OUT_DIR not set: environment variable not found"
  | .noDirectory directory => "Directory not found: " ++ directory
  | .noSchemas directory => "No .proto files found in directory: " ++ directory
  | .notFound => "No such file or directory (os error 2)"
  | .isDirectory => "Is a directory (os error 21)"
  | .isFile => "File exists (os error 17)"
  | .notDirectory => "Not a directory (os error 20)"

/-- Why a schema cannot be compiled. -/
inductive CompileError where
  /-- A type that no file declares. -/
  | unresolvedType (name referencedBy : String)
  /-- A field whose type and label have no representation. -/
  | unhandledField (field : String) (fault : ShapeFault)
  /-- Descriptors that contradict themselves. -/
  | invalidDescriptor (fault : DescriptorFault)
  /-- The source generated for a file is not well formed: a variant is named by a lone
  underscore. -/
  | malformedSource (file : String)
  /-- The request is not a well-formed message. -/
  | undecodable
  /-- Files cannot be read or written. -/
  | files (fault : FileFault)
  /-- A name of the schema cannot be an identifier. -/
  | badIdentifier (name : String)
  /-- Map entries that hold each other in a circle, so that no plan of them is finite. -/
  | endlessMap (entry : String)
  deriving DecidableEq

/-- Whether a cause ends the program; the others are reported to whoever asked. -/
def CompileError.isFatal : CompileError → Bool
  | .badIdentifier _ | .endlessMap _ => true
  | _ => false

def CompileError.message : CompileError → String
  | .unresolvedType name referencedBy =>
    "unresolved type `" ++ name ++ "` referenced by `" ++ referencedBy ++ "`"
  | .unhandledField field fault =>
    "unhandled field shape for `" ++ field ++ "`: " ++ fault.message
  | .invalidDescriptor fault => "invalid descriptor: " ++ fault.message
  | .malformedSource file =>
    "generated code for `" ++ file ++
      "` does not parse: expected identifier, found keyword `_`"
  | .undecodable => "failed to decode descriptor set"
  | .files fault => fault.message
  | .badIdentifier name => "`" ++ name ++ "` is not an identifier"
  | .endlessMap entry => "map entry `" ++ entry ++ "` holds itself"

end Protobuf
