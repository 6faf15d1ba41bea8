import Protobuf.Emit.Module
import Protobuf.Schema.Check

/-!
# Generating from a set of descriptors

All files of the set take part in finding types; a file is generated for each of
the names asked for, in their order.
-/

namespace Protobuf.Build

open Protobuf.Schema
open Emit

def generateNamed (registry : Registry) (o : Options) (files : List File) :
    List String → Compile (List GeneratedFile)
  | [] => return []
  | name :: names => do
    match files.find? fun f => f.path == name with
    | none => throw (.invalidDescriptor (.missingFile name))
    | some f =>
      let generated ← generateFile registry o f
      let rest ← generateNamed registry o files names
      return generated :: rest

def generate (set : List Descriptor.File) (names : List String) (o : Options) :
    Compile (List GeneratedFile) := do
  let files ← (set.mapM File.check : Except CompileError (List File))
  let registry ← (Registry.ofFiles files : Logged Registry)
  generateNamed registry o files names

end Protobuf.Build
