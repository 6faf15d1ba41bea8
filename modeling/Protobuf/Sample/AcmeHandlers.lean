import Protobuf.Codec.Partial
import Protobuf.Rpc.Client
import Protobuf.Sample.Acme

/-!
# Handlers of the entity service

Answers to every method of the entity service, made from the requests alone.
-/

namespace Protobuf.Sample.Acme

open Protobuf.Codec
open Rpc

/-- The handler that decodes the requests of a method, answers them by `f` and encodes the
answer. -/
def handler (s : Schema) (m : Schema.Method) (f : List Message → Message) : Handler :=
  fun data =>
    match data.mapM (s.decode m.input) with
    | .ok requests => .ok (s.encode m.output (f requests))
    | .error e => .error (.decode e)

def firstValues : Message → List Value
  | .repeated vs :: _ => vs
  | .plain v :: _ => [v]
  | _ => []

/-- The text of a scalar: strings as they are, integers by their numerals. -/
def valueText : Value → String
  | .scalar (.string text) => text
  | .scalar p => (p.toInt?.map Text.intText).getD ""
  | _ => ""

def entityWith (s : Schema) (id : String) (name : Option String) : Message :=
  s.complete ".acme.Entity"
    (.value (.scalar (.string id)) ::
      (name.map fun n => PartialField.value (.scalar (.string n))).toList)

def firstRequest (requests : List Message) : Message :=
  requests.headD []

/-- One entity for each identifier asked for; the last one is left out if `short` is set. -/
def batchEntity (s : Schema) (short : Bool) (requests : List Message) : Message :=
  let entities := (firstValues (firstRequest requests)).map fun id =>
    Value.message (entityWith s (valueText id) none)
  [.repeated (if short then entities.dropLast else entities)]

/-- A label for each identifier asked for, except nine. -/
def batchLabel (requests : List Message) : Message :=
  let ids := (firstValues (firstRequest requests)).filter fun id => valueText id != "9"
  let entries := ids.filterMap fun id =>
    match id with
    | .scalar p => some (p, Value.scalar (.string ("label-" ++ valueText id)))
    | _ => none
  [.map (entries.foldl (fun done (k, v) => putEntry k v done) [])]

/-- The entity with the identifier asked for. -/
def thing (s : Schema) (requests : List Message) : Message :=
  let id := ((firstValues (firstRequest requests)).head?.map valueText).getD ""
  entityWith s id (some ("thing " ++ id))

def uploaded (requests : List Message) : Message :=
  [.repeated (requests.map Value.message)]

def answer (s : Schema) (short : Bool) (method : String) : List Message → Message :=
  if method = "BatchEntity" then batchEntity s short
  else if method = "BatchLabel" then batchLabel
  else if method = "Upload" then uploaded
  else thing s

def methods : List Schema.Method :=
  service.methods.map fun m =>
    ⟨m.name, m.input, m.output, m.clientStreaming, m.serverStreaming, []⟩

def handlers (s : Schema) (short : Bool) (names : List String) : List (String × Handler) :=
  (methods.filter fun m => names.contains m.name).map fun m =>
    (m.name, handler s m (answer s short m.name))

end Protobuf.Sample.Acme
