import Protobuf.Build.Generation
import Protobuf.Plugin.Request

/-!
# Responses of the plugin

A response holds either the generated files or the wording of the error that
prevented them.
-/

namespace Protobuf.Plugin

open Emit

structure Response where
  error : Option String
  files : List GeneratedFile
  deriving DecidableEq

def supportedFeatures : UInt64 := 1

/-- Answer a request. Errors go into the response, except those that end the program. -/
def respond (r : Request) : Compile Response := ExceptT.mk do
  let options ← Options.parse r.parameter
  let outcome ← (Build.generate r.files r.names options).run
  match outcome with
  | .ok files => return .ok ⟨none, files⟩
  | .error e =>
    if e.isFatal then return .error e
    else
      Logged.warn (.generationFailed e.message)
      return .ok ⟨some e.message, []⟩

def writeText (number : Nat) (text : String) (w : Wire.Writer) : Wire.Writer :=
  (w.uint32 (UInt32.ofNat (8 * number + 2))).string text

def Response.encode (r : Response) : List UInt8 :=
  let w := match r.error with
    | some text => writeText 1 text .empty
    | none => .empty
  let w := (w.uint32 16).uint64 supportedFeatures
  let w := r.files.foldl
    (fun w f => w.message 122 fun w => writeText 15 f.content (writeText 1 f.name w)) w
  w.finish

def respondBytes (bytes : List UInt8) : Compile (List UInt8) :=
  match Request.decode? bytes with
  | some r => return (← respond r).encode
  | none => throw .undecodable

end Protobuf.Plugin
