import Protobuf.Rpc.Load

/-!
# Several loads on one loader

Loads that are alive at the same time, given their turns one after the other. The
key lists of all batches that were fetched are kept in order.
-/

namespace Protobuf.Rpc

structure LiveLoad (K V : Type) where
  id : String
  key : K
  /-- How it fetches the batch with a given number, if it opens one. -/
  fetch : (number : Nat) → List K → Fetch V
  /-- How far it has come. -/
  phase : Phase K V

/-- A loader with the loads that are alive. -/
structure Session (K V : Type) where
  loader : Loader K V
  /-- The loads, in the order in which they began. -/
  loads : List (LiveLoad K V)
  /-- The batches fetched so far, the last one first. -/
  batches : List (List K)

namespace Session

variable {K V : Type} [DecidableEq K]

/-- A new loader without loads. -/
def empty : Session K V := ⟨.empty, [], []⟩

def begin (s : Session K V) (id : String) (key : K) (fetch : Nat → List K → Fetch V) :
    Session K V :=
  { s with loads := s.loads ++ [⟨id, key, fetch, .fresh⟩] }

def step (load : LiveLoad K V) (l : Loader K V) (batches : List (List K)) :
    Turn K V × Loader K V × List (List K) :=
  l.turn (fun keys batches => (load.fetch (batches.length + 1) keys, keys :: batches))
    load.key load.phase batches

/-- The loads before and after the first one with a name, and that one. -/
def split (id : String) :
    List (LiveLoad K V) → Option (List (LiveLoad K V) × LiveLoad K V × List (LiveLoad K V))
  | [] => none
  | load :: loads =>
    if load.id = id then some ([], load, loads)
    else (split id loads).map fun (before, found, after) => (load :: before, found, after)

/-- What happened to a load that was given a turn. -/
inductive Poll (V : Type) where
  | gone
  | pending
  | done (outcome : Except RpcError V)

/-- Give the load with a name a turn. -/
def poll (s : Session K V) (id : String) : Poll V × Session K V :=
  match split id s.loads with
  | none => (.gone, s)
  | some (before, load, after) =>
    match step load s.loader s.batches with
    | (.pending phase, l, batches) =>
      (.pending, ⟨l, before ++ { load with phase } :: after, batches⟩)
    | (.done outcome, l, batches) => (.done outcome, ⟨l, before ++ after, batches⟩)

def drop (s : Session K V) (id : String) : Session K V :=
  match split id s.loads with
  | none => s
  | some (before, load, after) =>
    { s with loader := s.loader.drop load.phase, loads := before ++ after }

def clear (s : Session K V) (key : K) : Session K V :=
  { s with loader := s.loader.clear key }

/-- What a round of turns led to. -/
structure Round (K V : Type) where
  /-- The loads that are done, in the order in which they became so. -/
  done : List (String × Except RpcError V)
  left : List (LiveLoad K V)
  loader : Loader K V
  /-- The batches fetched so far. -/
  batches : List (List K)

/-- Give each of some loads a turn. -/
def round : List (LiveLoad K V) → Loader K V → List (List K) → Round K V
  | [], l, batches => ⟨[], [], l, batches⟩
  | load :: loads, l, batches =>
    match step load l batches with
    | (.pending phase, l, batches) =>
      let r := round loads l batches
      { r with left := { load with phase } :: r.left }
    | (.done outcome, l, batches) =>
      let r := round loads l batches
      { r with done := (load.id, outcome) :: r.done }

/-- Give all loads so many rounds of turns. -/
def settle : (rounds : Nat) → Session K V → List (String × Except RpcError V) × Session K V
  | 0, s => ([], s)
  | rounds + 1, s =>
    let r := round s.loads s.loader s.batches
    let (done, s) := settle rounds ⟨r.loader, r.left, r.batches⟩
    (r.done ++ done, s)

end Session

end Protobuf.Rpc
