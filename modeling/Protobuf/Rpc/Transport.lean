import Protobuf.Rpc.Error
import Protobuf.Text.Quoted

/-!
# Transports

A transport carries requests to a service and its responses back. What it does
besides is a change of its state.
-/

namespace Protobuf.Rpc

/-- A response, or why there is none. -/
abbrev Response := Except RpcError (List UInt8)

structure Transport (σ : Type) where
  request : (service method : String) → List UInt8 → σ → Response × σ
  serverStream : (service method : String) → List UInt8 → σ → List Response × σ
  streaming : (service method : String) → List (List UInt8) → σ → List Response × σ

def callName (service method : String) : String :=
  service ++ "/" ++ method

/-- A transport that only knows single requests: a stream of responses has one, and streams of
requests are refused. -/
def Transport.ofRequest {σ : Type}
    (request : (service method : String) → List UInt8 → σ → Response × σ) : Transport σ where
  request := request
  serverStream := fun service method data s =>
    let (r, s) := request service method data s
    ([r], s)
  streaming := fun service method _ s =>
    ([.error (.unimplemented (callName service method ++
      ": streaming requests are not supported by this transport"))], s)

/-- A call that was made: the service, the method, and what was sent. -/
structure Sent where
  service : String
  method : String
  data : List (List UInt8)
  streamed : Bool
  deriving DecidableEq

/-- Responses that are waiting to be given, by method, and the calls made, the last one first. -/
structure Queue where
  replies : List (String × List Response)
  sent : List Sent

namespace Queue

def waiting (q : Queue) (method : String) : List Response :=
  (q.replies.lookup method).getD []

def replace (q : Queue) (method : String) (replies : List Response) : Queue :=
  { q with
    replies := q.replies.map fun (m, rs) => if m = method then (m, replies) else (m, rs) }

def record (q : Queue) (sent : Sent) : Queue :=
  { q with sent := sent :: q.sent }

/-- Answer a request by the first response that waits. -/
def request (service method : String) (data : List UInt8) (q : Queue) : Response × Queue :=
  let q := q.record ⟨service, method, [data], false⟩
  match q.waiting method with
  | [] => (.error (.unimplemented (callName service method)), q)
  | r :: rest => (r, q.replace method rest)

def drain (method : String) (sent : Sent) (q : Queue) : List Response × Queue :=
  (q.waiting method, (q.record sent).replace method [])

/-- The transport that answers from a queue, with single requests only. -/
def unary : Transport Queue := .ofRequest request

/-- The transport that answers from a queue, and streams by all that waits. -/
def streaming : Transport Queue where
  request := request
  serverStream := fun service method data => drain method ⟨service, method, [data], false⟩
  streaming := fun service method data => drain method ⟨service, method, data, true⟩

end Queue

abbrev CallCounts := List (String × Nat)

/-- What answers the requests of a method. -/
abbrev Handler := List (List UInt8) → Response

namespace Handlers

def count (counts : CallCounts) (method : String) : Nat :=
  (counts.lookup method).getD 0

def increment (method : String) : CallCounts → CallCounts
  | [] => [(method, 1)]
  | (m, n) :: counts => if m = method then (m, n + 1) :: counts else (m, n) :: increment method counts

/-- Give requests to the handler of a method; calls without a handler count as well. -/
def dispatch (handlers : List (String × Handler)) (service method : String)
    (data : List (List UInt8)) (counts : CallCounts) : Response × CallCounts :=
  let response := match handlers.lookup method with
    | some handler => handler data
    | none => .error (.unimplemented (callName service method))
  (response, increment method counts)

/-- The transport that answers by handlers. All requests of a stream go to one call. -/
def transport (handlers : List (String × Handler)) : Transport CallCounts :=
  let request := fun service method data => dispatch handlers service method [data]
  { Transport.ofRequest request with
    streaming := fun service method data counts =>
      let (r, counts) := dispatch handlers service method data counts
      ([r], counts) }

def text (service : String) (methods : List String) : String :=
  service ++ "ClientImpl \x7b rpc: ScriptedRpc \x7b methods: " ++ Text.quotedList methods ++
    " \x7d \x7d"

end Handlers

end Protobuf.Rpc
