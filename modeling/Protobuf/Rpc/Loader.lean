import Protobuf.Rpc.Error

/-!
# Loaders

A loader collects keys into batches and remembers the result of every key. The
first load of a turn opens a batch; loads of other keys join it until the opener
takes the batch to fetch it, and loads of a key that was registered before share
its result. A result is settled once: with a value or an error, or by being given
up together with its batch.

The functions here are the atomic steps of a loader. A batch that fails or is
given up removes its keys from the cache.
-/

namespace Protobuf.Rpc

abbrev Registration (K : Type) := K × Nat

structure Loader (K V : Type) where
  /-- The results that keys share. -/
  cache : List (Registration K)
  /-- The keys of the batch that is being collected, in the order of registration. -/
  pending : List (Registration K)
  /-- Whether a batch is being collected. -/
  isOpen : Bool
  /-- The results that are settled; one that was given up has no value. -/
  results : List (Nat × Option (Except RpcError V))
  next : Nat

namespace Loader

variable {K V : Type} [DecidableEq K]

def empty : Loader K V := ⟨[], [], false, [], 0⟩

structure Registered (K V : Type) where
  result : Nat
  opens : Bool
  loader : Loader K V

/-- Register a key: it shares the result that is cached, or joins the batch that is being
collected, or opens one. -/
def register (l : Loader K V) (key : K) : Registered K V :=
  match l.cache.lookup key with
  | some result => ⟨result, false, l⟩
  | none =>
    ⟨l.next, !l.isOpen,
      { l with
        cache := (key, l.next) :: l.cache
        pending := l.pending ++ [(key, l.next)]
        isOpen := true
        next := l.next + 1 }⟩

/-- Take the batch that is being collected. -/
def takePending (l : Loader K V) : List (Registration K) × Loader K V :=
  (l.pending, { l with pending := [], isOpen := false })

def evict (l : Loader K V) (keys : List K) : Loader K V :=
  { l with cache := l.cache.filter fun entry => !keys.contains entry.1 }

/-- What a batch gave, if the number of values is that of the keys. -/
def checkLength (batch : List (Registration K)) (outcome : Except RpcError (List V)) :
    Except RpcError (List V) :=
  match outcome with
  | .ok values =>
    if values.length = batch.length then .ok values
    else .error (.batchMismatch batch.length values.length)
  | .error e => .error e

/-- Settle the results of a batch by what it gave. -/
def settle (l : Loader K V) (batch : List (Registration K))
    (outcome : Except RpcError (List V)) : Loader K V :=
  match checkLength batch outcome with
  | .ok values =>
    let settled := (batch.zip values).map fun (r, v) => (r.2, some (.ok v))
    { l with results := settled ++ l.results }
  | .error e =>
    let settled := batch.map fun r => (r.2, some (.error e))
    { l.evict (batch.map Prod.fst) with results := settled ++ l.results }

def abandon (l : Loader K V) (batch : List (Registration K)) : Loader K V :=
  { l.evict (batch.map Prod.fst) with
    results := (batch.map fun r => (r.2, none)) ++ l.results }

/-- Give up the batch that is being collected. -/
def abandonPending (l : Loader K V) : Loader K V :=
  let (batch, l) := l.takePending
  l.abandon batch

/-- Forget a result of a key, unless the key has another one by now. -/
def forget (l : Loader K V) (key : K) (result : Nat) : Loader K V :=
  if l.cache.lookup key = some result then l.evict [key] else l

def clear (l : Loader K V) (key : K) : Loader K V :=
  l.evict [key]

end Loader

end Protobuf.Rpc
