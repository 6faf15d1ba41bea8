import Protobuf.Rpc.Loader

/-!
# Loads

A load is a computation that proceeds in turns. In its first turn it registers its
key. The load that opened a batch lets one turn pass, so that others can join, and
then fetches the batch; the others wait until their result is settled. A load whose
batch was given up registers again in the same turn.
-/

namespace Protobuf.Rpc

inductive Fetch (V : Type) where
  /-- It lets so many turns pass and is done in the next one. -/
  | after (turns : Nat) (outcome : Except RpcError (List V))
  | never

/-- How far a load has come. -/
inductive Phase (K V : Type) where
  /-- Nothing was done. -/
  | fresh
  /-- It opened a batch and lets others join. -/
  | collecting (result : Nat)
  | fetching (result : Nat) (batch : List (Registration K)) (fetch : Fetch V)
  | waiting (result : Nat)

inductive Turn (K V : Type) where
  | pending (phase : Phase K V)
  | done (outcome : Except RpcError V)

namespace Loader

variable {K V : Type} [DecidableEq K]

/-- Register a key and go on with its result. A result that was given up is forgotten and the key
registered again; every time the cache becomes smaller, which bounds the fuel. -/
def enter : (fuel : Nat) → Loader K V → K → Turn K V × Loader K V
  | 0, l, _ => (.done (.error .canceled), l)
  | fuel + 1, l, key =>
    let ⟨result, opens, l⟩ := l.register key
    if opens then (.pending (.collecting result), l)
    else
      match l.results.lookup result with
      | none => (.pending (.waiting result), l)
      | some (some outcome) => (.done outcome, l)
      | some none => enter fuel (l.forget key result) key

def start (l : Loader K V) (key : K) : Turn K V × Loader K V :=
  enter (l.cache.length + 1) l key

def wake (l : Loader K V) (key : K) (result : Nat) : Turn K V × Loader K V :=
  match l.results.lookup result with
  | none => (.pending (.waiting result), l)
  | some (some outcome) => (.done outcome, l)
  | some none => (l.forget key result).start key

/-- Go on fetching a batch; when it is done, its results are settled. -/
def proceed (l : Loader K V) (result : Nat) (batch : List (Registration K)) (fetch : Fetch V) :
    Turn K V × Loader K V :=
  match fetch with
  | .after 0 outcome =>
    let l := l.settle batch outcome
    match l.results.lookup result with
    | some (some outcome) => (.done outcome, l)
    | _ => (.done (.error .canceled), l)
  | .after (turns + 1) outcome => (.pending (.fetching result batch (.after turns outcome)), l)
  | .never => (.pending (.fetching result batch .never), l)

/-- One turn of a load of a key. Fetching a batch acts on the state `s`. -/
def turn {σ : Type} (fetch : List K → σ → Fetch V × σ) (key : K) (phase : Phase K V)
    (l : Loader K V) (s : σ) : Turn K V × Loader K V × σ :=
  match phase with
  | .fresh =>
    let (t, l) := l.start key
    (t, l, s)
  | .collecting result =>
    let (batch, l) := l.takePending
    let (f, s) := fetch (batch.map Prod.fst) s
    let (t, l) := l.proceed result batch f
    (t, l, s)
  | .fetching result batch f =>
    let (t, l) := l.proceed result batch f
    (t, l, s)
  | .waiting result =>
    let (t, l) := l.wake key result
    (t, l, s)

def drop (l : Loader K V) : Phase K V → Loader K V
  | .fresh | .waiting _ => l
  | .collecting _ => l.abandonPending
  | .fetching _ batch _ => l.abandon batch

end Loader

end Protobuf.Rpc
