import Protobuf.Build.Disk
import Protobuf.Build.Generation
import Protobuf.Build.ModuleTree

/-!
# Compiling into a directory

A compilation generates files, writes them into the output directory and then
writes the file that declares their modules. Later files replace earlier ones of
the same name.
-/

namespace Protobuf.Build

open Emit

/-- Where the descriptors come from. -/
inductive Input where
  /-- A set of descriptors; files of the well-known types are not generated. -/
  | descriptors (set : List Descriptor.File)
  | directory (path : Path) (set : List Descriptor.File)

structure Compilation where
  input : Input
  options : Options := .standard
  output : Option Path := none
  /-- The output directory that the environment names. -/
  environment : Option Path := none
  /-- Name of the file that declares the modules; none to leave it out. -/
  moduleFile : Option String := some "protos.rs"
  /-- Names of the files to generate; none for all. -/
  only : Option (List String) := none

/-- Whether a file declares well-known types. -/
def isWellKnown (name : String) : Bool :=
  "google/protobuf/".toList.isPrefixOf name.toList

/-- The descriptors of an input and the files to generate if nothing is said. -/
def Input.resolve (d : Disk) : Input → Except FileFault (List Descriptor.File × List String)
  | .descriptors set =>
    .ok (set, (set.map Descriptor.File.name).filter fun name => !isWellKnown name)
  | .directory path set => do
    let files ← d.schemaFiles path
    return (set, files.map pathText)

def writeFiles (output : Path) : List GeneratedFile → Disk → Except FileFault Disk
  | [], d => .ok d
  | f :: files, d => do
    let d ← d.writeDeep (output ++ pathOf f.name) f.content
    writeFiles output files d

/-- Write the file that declares the modules of generated files. -/
def writeModules (base : IncludeBase) (output : Path) (name : String)
    (generated : List GeneratedFile) (d : Disk) : Except FileFault Disk :=
  if base ≠ .environment ∧ !d.isDirectory output then .error .notFound
  else d.writeNamed output name (ModuleTree.render base (generated.map GeneratedFile.name))

/-- A fault of the file system as a reason why compiling failed. -/
def orFault {α : Type} (x : Except FileFault α) : Compile α :=
  match x with
  | .ok a => return a
  | .error fault => throw (.files fault)

/-- The output directory and how files in it are named. -/
def Compilation.place (c : Compilation) : Except FileFault (Path × IncludeBase) :=
  match c.output, c.environment with
  | some path, _ => .ok (path, .directory (pathText path))
  | none, some path => .ok (path, .environment)
  | none, none => .error .noOutputDirectory

/-- Compile: the generated files, and the disk on which they were written. -/
def Compilation.run (c : Compilation) (d : Disk) : Compile (List GeneratedFile × Disk) := do
  let (output, base) ← orFault c.place
  let (set, names) ← orFault (c.input.resolve d)
  let generated ← generate set (c.only.getD names) c.options
  let d ← orFault (writeFiles output generated d)
  match c.moduleFile with
  | none => return (generated, d)
  | some name => return (generated, ← orFault (writeModules base output name generated d))

end Protobuf.Build
