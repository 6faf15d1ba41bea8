import Protobuf.Build.Compilation
import Protobuf.Sample.Acme

/-!
# Building the entity schema

The entity schema is compiled once for each set of options, into a directory of
its own below the output directory.
-/

namespace Protobuf.Sample.Acme

open Build
open Emit

/-- The lines that a build prints: what it has to be run again for. -/
def buildLog : List String := ["cargo:rerun-if-changed=build.rs"]

/-- Compile under the given sets of options: the files generated for each, and the disk. -/
def buildVariants (output : Path) :
    List (String × Options) → Disk → Compile (List (String × List GeneratedFile) × Disk)
  | [], d => return ([], d)
  | (name, options) :: rest, d => do
    let job : Compilation :=
      { input := .descriptors files, options, output := some (output ++ [name]) }
    let (generated, d) ← job.run d
    let (others, d) ← buildVariants output rest d
    return ((name, generated) :: others, d)

/-- Compile under all sets of options. -/
def build (output : Path) (d : Disk) : Compile (List (String × List GeneratedFile) × Disk) :=
  buildVariants output variants d

end Protobuf.Sample.Acme
