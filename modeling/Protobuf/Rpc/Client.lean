import Protobuf.Codec.Decode
import Protobuf.Codec.Encode
import Protobuf.Plan.Service
import Protobuf.Rpc.Context
import Protobuf.Rpc.Load
import Protobuf.Rpc.Transport

/-!
# Clients

A client of a service calls its methods over a transport. Single requests of
methods named `Get` are remembered per context, and the accessors of batch methods
load one item each through the loader that the context keeps for the method.
Calls made together take turns until all are done.
-/

namespace Protobuf.Rpc

open Protobuf.Codec (Message Value Slot)

structure Client (σ : Type) where
  schema : Codec.Schema
  /-- Name of the service with its package. -/
  service : String
  methods : List Schema.Method
  transport : Transport σ

/-- A response message, or why there is none. -/
abbrev Reply := Except RpcError Message

/-- A loader of items; an item that a map does not hold is missing. -/
abbrev ItemLoader := Loader Primitive (Option Value)

abbrev ItemContext := Context ItemLoader

namespace Client

variable {σ : Type}

def decode (c : Client σ) (m : Schema.Method) (r : Response) : Reply :=
  match r with
  | .error e => .error e
  | .ok bytes =>
    match c.schema.decode m.output bytes with
    | .ok message => .ok message
    | .error e => .error (.decode e)

def encode (c : Client σ) (m : Schema.Method) (request : Message) : List UInt8 :=
  c.schema.encode m.input request

/-- Send bytes as a single request. -/
def send (c : Client σ) (m : Schema.Method) (data : List UInt8) (s : σ) : Reply × σ :=
  let (r, s) := c.transport.request c.service m.name data s
  (c.decode m r, s)

def call (c : Client σ) (m : Schema.Method) (request : Message) (s : σ) : Reply × σ :=
  c.send m (c.encode m request) s

def serverStream (c : Client σ) (m : Schema.Method) (request : Message) (s : σ) :
    List Reply × σ :=
  let (rs, s) := c.transport.serverStream c.service m.name (c.encode m request) s
  (rs.map (c.decode m), s)

/-- Call a method that takes and gives a stream. -/
def duplex (c : Client σ) (m : Schema.Method) (requests : List Message) (s : σ) :
    List Reply × σ :=
  let (rs, s) := c.transport.streaming c.service m.name (requests.map (c.encode m)) s
  (rs.map (c.decode m), s)

/-- Call a method that takes a stream: the first response counts. -/
def upload (c : Client σ) (m : Schema.Method) (requests : List Message) (s : σ) : Reply × σ :=
  let (rs, s) := c.transport.streaming c.service m.name (requests.map (c.encode m)) s
  match rs with
  | r :: _ => (c.decode m r, s)
  | [] =>
    (.error (.transport (callName c.service m.name ++ ": stream closed without a response")), s)

/-- Send several requests in turn, up to the first one that fails. -/
def sendEach (c : Client σ) (m : Schema.Method) :
    List Primitive → σ → Except RpcError (List (Option Value)) × σ
  | [], s => (.ok [], s)
  | key :: keys, s =>
    let data := match key with
      | .bytes bs => bs
      | _ => []
    match c.send m data s with
    | (.error e, s) => (.error e, s)
    | (.ok message, s) =>
      match sendEach c m keys s with
      | (.error e, s) => (.error e, s)
      | (.ok values, s) => (.ok (some (.message message) :: values), s)

/-- The items of a batch response, for the keys of the request. -/
def itemsOf (keys : List Primitive) : Message → List (Option Value)
  | [.repeated vs] => vs.map some
  | [.map entries] => keys.map fun key => List.lookup key entries
  | _ => []

def fetchItems (c : Client σ) (m : Schema.Method) (keys : List Primitive) (s : σ) :
    Except RpcError (List (Option Value)) × σ :=
  let (r, s) := c.call m [.repeated (keys.map Value.scalar)] s
  (r.map (itemsOf keys), s)

/-- The name under which a context keeps the loader of a method. -/
def identity (c : Client σ) (m : Schema.Method) : String :=
  c.service ++ "." ++ m.name

def remembers (c : Client σ) (m : Schema.Method) : Bool :=
  c.schema.options.context && Plan.isUnary m && Plan.isGetName m.name

end Client

/-- What is loaded through a context. -/
inductive Loading where
  | response (data : List UInt8)
  | item (key : Primitive)

def Loading.key : Loading → Primitive
  | .response data => .bytes data
  | .item key => key

inductive Call where
  /-- A single request past everything that is remembered. -/
  | direct (m : Schema.Method) (request : Message)
  | method (m : Schema.Method) (requests : List Message)
  /-- The item with a key, by way of a method that fetches many. -/
  | item (m : Schema.Method) (key : Primitive)

inductive CallResult where
  | one (r : Reply)
  | many (rs : List Reply)
  | item (r : Except RpcError (Option Value))

/-- How far a call has come. -/
inductive CallState where
  | fresh (call : Call)
  | loading (m : Schema.Method) (what : Loading) (phase : Phase Primitive (Option Value))
  | done (result : CallResult)

namespace Client

variable {σ : Type}

/-- A single response in the shape that calls give. -/
def shape (c : Client σ) (r : Reply) : CallResult :=
  match c.schema.options.returns with
  | .future => .one r
  | .stream => .many [r]

def loaded (c : Client σ) (what : Loading) (r : Except RpcError (Option Value)) : CallResult :=
  match what with
  | .item _ => .item r
  | .response _ =>
    match r with
    | .ok (some (.message m)) => c.shape (.ok m)
    | .ok _ => c.shape (.error .canceled)
    | .error e => c.shape (.error e)

def fetch (c : Client σ) (m : Schema.Method) (what : Loading) (keys : List Primitive) (s : σ) :
    Fetch (Option Value) × σ :=
  let (r, s) := match what with
    | .item _ => c.fetchItems m keys s
    | .response _ => c.sendEach m keys s
  (.after 0 r, s)

def loadTurn (c : Client σ) (m : Schema.Method) (what : Loading)
    (phase : Phase Primitive (Option Value)) (context : ItemContext) (s : σ) :
    CallState × ItemContext × σ :=
  let type := match what with
    | .item _ => "item"
    | .response _ => "response"
  let (loader, context) := (context.get (c.identity m) type .empty).value
  let (t, loader, s) := loader.turn (c.fetch m what) what.key phase s
  let context := context.set (c.identity m) type loader
  match t with
  | .pending phase => (.loading m what phase, context, s)
  | .done r => (.done (c.loaded what r), context, s)

/-- The first turn of a call of a method. -/
def beginMethod (c : Client σ) (m : Schema.Method) (requests : List Message)
    (context : ItemContext) (s : σ) : CallState × ItemContext × σ :=
  let request := requests.headD (c.schema.zero m.input)
  match m.clientStreaming, m.serverStreaming with
  | true, true =>
    let (rs, s) := c.duplex m requests s
    (.done (.many rs), context, s)
  | true, false =>
    let (r, s) := c.upload m requests s
    (.done (c.shape r), context, s)
  | false, true =>
    let (rs, s) := c.serverStream m request s
    (.done (.many rs), context, s)
  | false, false =>
    if c.remembers m then c.loadTurn m (.response (c.encode m request)) .fresh context s
    else
      let (r, s) := c.call m request s
      (.done (c.shape r), context, s)

def turn (c : Client σ) (state : CallState) (context : ItemContext) (s : σ) :
    CallState × ItemContext × σ :=
  match state with
  | .done result => (.done result, context, s)
  | .loading m what phase => c.loadTurn m what phase context s
  | .fresh (.item m key) => c.loadTurn m (.item key) .fresh context s
  | .fresh (.method m requests) => c.beginMethod m requests context s
  | .fresh (.direct m request) =>
    let (r, s) := c.call m request s
    (.done (.one r), context, s)

abbrev Contexts := List (String × ItemContext)

def setContext (name : String) (context : ItemContext) (contexts : Contexts) : Contexts :=
  contexts.map fun (n, c) => if n = name then (n, context) else (n, c)

/-- Give each call a turn, in its context. -/
def round (c : Client σ) : List (String × CallState) → Contexts → σ →
    List (String × CallState) × Contexts × σ
  | [], contexts, s => ([], contexts, s)
  | (name, state) :: calls, contexts, s =>
    let context := (contexts.lookup name).getD .empty
    let (state, context, s) := c.turn state context s
    let (calls, contexts, s) := round c calls (setContext name context contexts) s
    ((name, state) :: calls, contexts, s)

def isDone : CallState → Bool
  | .done _ => true
  | _ => false

/-- Give calls rounds of turns until all are done, at most so many. -/
def rounds (c : Client σ) : (fuel : Nat) → List (String × CallState) → Contexts → σ →
    List (String × CallState) × Contexts × σ
  | 0, calls, contexts, s => (calls, contexts, s)
  | fuel + 1, calls, contexts, s =>
    if calls.all fun call => isDone call.2 then (calls, contexts, s)
    else
      let (calls, contexts, s) := c.round calls contexts s
      rounds c fuel calls contexts s

/-- Make calls together, each in the context with a name. A batch is fetched in the turn after the
one it was opened in, so every call is done after one round more than there are calls. -/
def together (c : Client σ) (calls : List (String × Call)) (contexts : Contexts) (s : σ) :
    List (String × CallState) × Contexts × σ :=
  c.rounds (calls.length + 1) (calls.map fun (name, call) => (name, .fresh call)) contexts s

end Client

end Protobuf.Rpc
