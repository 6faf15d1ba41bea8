import Protobuf.Codec.OfJson
import Protobuf.Codec.ToJson
import Protobuf.Rpc.Client

/-!
# The interface of a client

A client's functions are known by name: every method under its own name, once more
behind `call_` for a single request that bypasses what is remembered, and for a
method that fetches many items the accessor of one item. Requests are given in
JSON here.
-/

namespace Protobuf.Rpc

open Protobuf.Codec (Message Value)
open Plan (ValueKind)

/-- How a name stands for a method. -/
inductive Access where
  | method
  /-- As the call past everything that is remembered. -/
  | direct
  | item
  deriving DecidableEq

def interfaceName (style : MethodStyle) (name : String) : String :=
  match style with
  | .declared => name
  | .snake => Naming.snakeCase name

def access? (style : MethodStyle) (m : Schema.Method) (name : String) : Option Access :=
  let own := interfaceName style m.name
  if name = own then some .method
  else if name = "call_" ++ own then some .direct
  else
    match Plan.afterStart? "Batch" m.name with
    | some item => if name = interfaceName style ("Get" ++ item) then some .item else none
    | none => none

/-- A function of the interface that is to be called, in a context, with a request. -/
structure Ask where
  context : String
  name : String
  /-- The request: a message, a list of them for a stream, or a key. -/
  request : Json

/-- What an ask gives: why its request is none, or what the method gave. -/
inductive Answer where
  | unknown
  | badRequest (e : Json.Error)
  | called (m : Schema.Method) (state : CallState)

namespace Client

variable {σ : Type}

/-- The method that a name stands for. A method's own name counts before an accessor's. -/
def find? (c : Client σ) (name : String) : Option (Schema.Method × Access) :=
  let found := c.methods.filterMap fun m =>
    (access? c.schema.options.methods m name).map fun a => (m, a)
  match found.find? fun f => f.2 != .item with
  | some f => some f
  | none => found.head?

/-- A key in JSON, of the type that a method takes many of. -/
def keyOfJson (c : Client σ) (m : Schema.Method) (request : Json) : Except Json.Error Primitive :=
  match c.schema.members m.input with
  | [.field p] =>
    match p.kind with
    | .scalar t => Codec.scalarOfJson none t request
    | _ => .ok (.bool false)
  | _ => .ok (.bool false)

/-- The messages of a stream, or the one message. -/
def requestsOfJson (c : Client σ) (m : Schema.Method) (request : Json) :
    Except Json.Error (List Message) :=
  match m.clientStreaming, request with
  | true, .array items => items.mapM (c.schema.ofJson m.input)
  | _, request => return [← c.schema.ofJson m.input request]

def callOf (c : Client σ) (m : Schema.Method) (access : Access) (request : Json) :
    Except Json.Error Call :=
  match access with
  | .item => return .item m (← c.keyOfJson m request)
  | .method => return .method m (← c.requestsOfJson m request)
  | .direct => return .direct m (← c.schema.ofJson m.input request)

/-- What is known of an ask before any call is made: an answer, or a call that is to be made. -/
def prepare (c : Client σ) (ask : Ask) : Answer ⊕ Schema.Method × String × Call :=
  match c.find? ask.name with
  | none => .inl .unknown
  | some (m, access) =>
    match c.callOf m access ask.request with
    | .error e => .inl (.badRequest e)
    | .ok call => .inr (m, ask.context, call)

/-- Put the results of calls into the places they were asked from. -/
def distribute : List (Answer ⊕ Schema.Method × String × Call) → List (String × CallState) →
    List Answer
  | [], _ => []
  | .inl a :: asks, states => a :: distribute asks states
  | .inr (m, _) :: asks, (_, state) :: states => .called m state :: distribute asks states
  | .inr _ :: asks, [] => .unknown :: distribute asks []

/-- Answer several asks together. -/
def answer (c : Client σ) (asks : List Ask) (contexts : Contexts) (s : σ) :
    List Answer × Contexts × σ :=
  let prepared := asks.map c.prepare
  let calls := prepared.filterMap fun p =>
    match p with
    | .inl _ => none
    | .inr (_, call) => some call
  let (states, contexts, s) := c.together calls contexts s
  (distribute prepared states, contexts, s)

def itemKind? (c : Client σ) (m : Schema.Method) : Option ValueKind :=
  match c.schema.members m.output with
  | [.field p] =>
    match p.layout with
    | .map _ _ value => some value.kind
    | _ => some p.kind
  | _ => none

def itemToJson (c : Client σ) (m : Schema.Method) (item : Option Value) : Json :=
  match item, c.itemKind? m with
  | some v, some kind => c.schema.valueToJson kind v
  | _, _ => .null

end Client

end Protobuf.Rpc
