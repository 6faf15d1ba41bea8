import Protobuf.Numeric.Width
import Protobuf.Text.Quoted

/-!
# Warnings

What is worth telling and does not stop the work. Warnings are values that a
computation returns beside its result, in the order in which they arose.
-/

namespace Protobuf

/-- Something worth telling. -/
inductive Warning where
  /-- A text held in an integer field is no number of its type. -/
  | malformedDecimal (text : String) (width : Numeric.Width)
  | ignoredOption (key value : String)
  /-- Metadata parameters were asked for without server controllers. -/
  | metadataWithoutControllers
  /-- A type name is declared a second time; the module of the earlier declaration. -/
  | duplicateType (name : String) (previous : List String)
  /-- A client was asked for without the binary codec. -/
  | clientWithoutCodec (service : String)
  /-- A client was asked for beside controllers or metadata parameters. -/
  | clientBesideControllers (service : String)
  /-- A request to the plugin failed, with the wording of the error. -/
  | generationFailed (error : String)
  /-- A loader was registered under an identity that holds one of another type. -/
  | loaderReplaced (identity : String)
  deriving DecidableEq

def Warning.line : Warning → String
  | .malformedDecimal text width =>
    "WARN malformed decimal integer, encoding 0 text=" ++ text ++ " integer=" ++ width.name
  | .ignoredOption key value =>
    "WARN ignoring generation option key=" ++ key ++ " value=" ++ value
  | .metadataWithoutControllers => "WARN addGrpcMetadata needs nestJs=true, ignoring"
  | .duplicateType name previous =>
    "WARN type registered twice, keeping the last declaration name=" ++ name ++
      " previous=" ++ Text.quotedList previous
  | .clientWithoutCodec service =>
    "WARN client impl needs the binary codec, skipping service=" ++ service
  | .clientBesideControllers service =>
    "WARN client impl is not generated for controllers or metadata parameters, skipping service=" ++
      service
  | .generationFailed error => "ERROR code generation failed error=" ++ error
  | .loaderReplaced identity =>
    "WARN data loader registered with another type, replacing identifier=" ++ identity

/-- A result with the warnings that arose on the way to it. -/
structure Logged (α : Type) where
  value : α
  warnings : List Warning

namespace Logged

protected def pure {α : Type} (a : α) : Logged α := ⟨a, []⟩

/-- Go on with a result; later warnings come after earlier ones. -/
protected def bind {α β : Type} (x : Logged α) (f : α → Logged β) : Logged β :=
  let y := f x.value
  ⟨y.value, x.warnings ++ y.warnings⟩

instance : Monad Logged where
  pure := Logged.pure
  bind := Logged.bind

def warn (w : Warning) : Logged Unit := ⟨(), [w]⟩

end Logged

end Protobuf
