import Protobuf.Proofs.Rpc.Delivery
import Protobuf.Proofs.Schema.Registry
import Protobuf.Rpc.Client

/-!
# Batches of requests

Calls that are remembered load their responses through a loader that the context keeps
for their method. A batch of such loads sends the requests one after the other, up to
the first one that fails. Over a transport that answers a request always in the same
way, what a batch gives depends on its requests only.
-/

namespace Protobuf.Rpc

open List

open Protobuf.Codec (Message Value)

/-- The response is a function of the request. -/
def Transport.IsRepeatable {σ : Type} (t : Transport σ) : Prop :=
  ∀ service method data s s',
    (t.request service method data s).1 = (t.request service method data s').1

/-! ## Contexts of loaders -/

namespace Context

variable {α : Type}

lemma lookup_put (identity other : String) (kept : Kept α) (loaders : List (String × Kept α)) :
    (put identity kept loaders).lookup other =
      if other = identity then some kept else loaders.lookup other := by
  have hcons {i : String} {k : Kept α} {rest : List (String × Kept α)} :
      ((i, k) :: rest).lookup other = if other = i then some k else rest.lookup other := by
    by_cases h : other = i
    · simp [h]
    · simp [lookup_cons, beq_eq_false_iff_ne.mpr h, h]
  induction loaders with
  | nil => exact hcons
  | cons entry loaders ih =>
    obtain ⟨i, k⟩ := entry
    unfold put
    split_ifs with hi h h
    · rw [hcons, if_pos h]
    · rw [hcons, hcons, hi, if_neg h, if_neg h]
    · rw [hcons, ih, if_pos h, if_neg (by rw [h]; exact fun heq => hi heq.symm)]
    · rw [hcons, hcons, ih, if_neg h]

end Context

def ItemContext.loader (context : ItemContext) (identity : String) : ItemLoader :=
  ((context.loaders.lookup identity).map Kept.value).getD .empty

def ItemContext.KeepsResponses (context : ItemContext) : Prop :=
  ∀ identity kept, context.loaders.lookup identity = some kept → kept.type = "response"

namespace ItemContext

variable {context : ItemContext}

lemma loader_set (context : ItemContext) (identity type other : String) (l : ItemLoader) :
    loader (context.set identity type l) other =
      if other = identity then l else context.loader other := by
  unfold loader Context.set
  rw [Context.lookup_put]
  split_ifs <;> rfl

lemma KeepsResponses.set (h : context.KeepsResponses) (identity : String) (l : ItemLoader) :
    KeepsResponses (context.set identity "response" l) := by
  intro other kept hkept
  unfold Context.set at hkept
  rw [Context.lookup_put] at hkept
  split_ifs at hkept
  · cases hkept
    rfl
  · exact h other kept hkept

/-- Asking for a loader of responses gives the one that is kept. -/
lemma KeepsResponses.get (h : context.KeepsResponses) (identity : String) :
    ∃ context' : ItemContext,
      (context.get identity "response" .empty).value = (context.loader identity, context') ∧
      context'.KeepsResponses ∧ ∀ other, context'.loader other = context.loader other := by
  cases hlookup : context.loaders.lookup identity with
  | none =>
    have hempty : context.loader identity = .empty := by simp [loader, hlookup]
    refine ⟨context.set identity "response" .empty, ?_, h.set identity .empty, fun other => ?_⟩
    · simp only [Context.get, hlookup, hempty]
      rfl
    · rw [loader_set]
      split_ifs with hother
      · rw [hother, hempty]
      · rfl
  | some kept =>
    have hvalue : context.loader identity = kept.value := by simp [loader, hlookup]
    refine ⟨context, ?_, h, fun _ => rfl⟩
    simp only [Context.get, hlookup, h identity kept hlookup, if_true, hvalue]
    rfl

end ItemContext

/-! ## Turns of loads -/

lemma Answers.mem {K V : Type} {keys : List K} {outcome : Except RpcError (List V)} {key : K}
    {r : Except RpcError V} (h : Answers keys outcome key r) : key ∈ keys := by
  cases h with
  | value _ _ hkey => exact mem_of_getElem? hkey
  | failure _ hkey | mismatch _ _ hkey => exact hkey

namespace Loader

variable {K V : Type} [DecidableEq K]

/-- A turn depends on a fetch only through what it gives. -/
lemma turn_congr {σ τ : Type} {f : List K → σ → Fetch V × σ} {g : List K → τ → Fetch V × τ}
    {s : σ} {t : τ} (h : ∀ keys, (f keys s).1 = (g keys t).1) (l : Loader K V) (key : K)
    (phase : Phase K V) :
    (l.turn f key phase s).1 = (l.turn g key phase t).1 ∧
      (l.turn f key phase s).2.1 = (l.turn g key phase t).2.1 := by
  cases phase with
  | collecting result => simp only [turn, h, and_self]
  | _ => exact ⟨rfl, rfl⟩

end Loader

namespace Client

variable {σ : Type} {c : Client σ} {m : Schema.Method} {context : ItemContext}

/-- Methods of a service are told apart by the names of their loaders. -/
lemma identity_ne (hnames : (c.methods.map (·.name)).Nodup) {m m' : Schema.Method}
    (hm : m ∈ c.methods) (hm' : m' ∈ c.methods) (hne : m ≠ m') : c.identity m ≠ c.identity m' := by
  intro heq
  have hname : m.name = m'.name := (String.append_right_inj _).mp heq
  exact hne (inj_on_of_nodup_map hnames hm hm' hname)

/-- The state of a call after a turn of its load. -/
def afterTurn (c : Client σ) (m : Schema.Method) (data : List UInt8) :
    Turn Primitive (Option Value) → CallState
  | .pending phase => .loading m (.response data) phase
  | .done r => .done (c.loaded (.response data) r)

/-- A turn of a call changes the loader of its method, and no other one. -/
lemma exists_loadTurn (h : context.KeepsResponses) {data : List UInt8}
    {phase : Phase Primitive (Option Value)} {t : Turn Primitive (Option Value)} {l : ItemLoader}
    {s s' : σ} (hturn : (context.loader (c.identity m)).turn (c.fetch m (.response data))
      (.bytes data) phase s = (t, l, s')) :
    ∃ context' : ItemContext,
      c.loadTurn m (.response data) phase context s = (c.afterTurn m data t, context', s') ∧
      context'.KeepsResponses ∧ context'.loader (c.identity m) = l ∧
      ∀ other, other ≠ c.identity m → context'.loader other = context.loader other := by
  obtain ⟨context₁, hget, hkeeps, hloader⟩ := h.get (c.identity m)
  refine ⟨context₁.set (c.identity m) "response" l, ?_, hkeeps.set _ _, ?_, ?_⟩
  · simp only [loadTurn, hget, Loading.key, hturn]
    cases t <;> rfl
  · rw [ItemContext.loader_set, if_pos rfl]
  · intro other hother
    rw [ItemContext.loader_set, if_neg hother, hloader]

lemma turn_fresh (h : c.remembers m) (request : Message) (s : σ) :
    c.turn (.fresh (.method m [request])) context s =
      c.loadTurn m (.response (c.encode m request)) .fresh context s := by
  have hunary : m.clientStreaming = false ∧ m.serverStreaming = false := by
    simp only [remembers, Plan.isUnary, Bool.and_eq_true, Bool.not_eq_true'] at h
    exact h.1.2
  simp only [turn, beginMethod, hunary.1, hunary.2, h, if_true, headD_cons]

/-! ## What a batch gives -/

def requestOf : Primitive → List UInt8
  | .bytes data => data
  | _ => []

/-- A batch sends the request of its first key, and goes on with the others if that succeeds. -/
lemma sendEach_cons_fst (key : Primitive) (keys : List Primitive) (s : σ) :
    (c.sendEach m (key :: keys) s).1 = (do
      let message ← (c.send m (requestOf key) s).1
      let values ← (c.sendEach m keys (c.send m (requestOf key) s).2).1
      return some (.message message) :: values) := by
  cases key
  all_goals
    simp only [sendEach, requestOf]
    rcases c.send m _ s with ⟨_ | message, t⟩
    · rfl
    · dsimp only
      rcases c.sendEach m keys t with ⟨_ | values, u⟩ <;> rfl

/-- What a call is given whose request is sent in the batch with some keys: the first failure of
the batch, or the response to its own request if there is none. -/
def batchReply (c : Client σ) (m : Schema.Method) (keys : List Primitive) (data : List UInt8)
    (s : σ) : Reply := do
  let _ ← keys.mapM fun key => (c.send m (requestOf key) s).1
  (c.send m data s).1

/-- If all other requests of the batch succeed, it is given what its own request gives. -/
lemma batchReply_of_others {keys : List Primitive} {data : List UInt8} {s : σ}
    (h : ∀ key ∈ keys, requestOf key ≠ data →
      ∃ message, (c.send m (requestOf key) s).1 = .ok message) :
    c.batchReply m keys data s = (c.send m data s).1 := by
  -- The first failure of the batch can only be that of the request itself.
  have hfirst : (∃ messages,
        (keys.mapM fun key => (c.send m (requestOf key) s).1) = .ok messages) ∨
      ∃ e, (keys.mapM fun key => (c.send m (requestOf key) s).1) = .error e ∧
        (c.send m data s).1 = .error e := by
    induction keys with
    | nil => exact .inl ⟨[], rfl⟩
    | cons key keys ih =>
      have hrest := ih fun key hkey => h key (mem_cons_of_mem _ hkey)
      have hkey := h key mem_cons_self
      rw [mapM_cons]
      cases hreply : (c.send m (requestOf key) s).1 with
      | ok message =>
        obtain ⟨messages, hrest⟩ | ⟨e, hrest, hown⟩ := hrest
        · exact .inl ⟨message :: messages, by rw [hrest]; rfl⟩
        · exact .inr ⟨e, by rw [hrest]; rfl, hown⟩
      | error e =>
        refine .inr ⟨e, rfl, ?_⟩
        by_cases hown : requestOf key = data
        · rw [← hown, hreply]
        · obtain ⟨message, hok⟩ := hkey hown
          rw [hreply] at hok
          cases hok
  obtain ⟨messages, hall⟩ | ⟨e, hall, hown⟩ := hfirst
  · rw [batchReply, hall]
    rfl
  · rw [batchReply, hall, hown]
    rfl

section

variable (hrepeat : c.transport.IsRepeatable)

include hrepeat

lemma send_fst_eq (m : Schema.Method) (data : List UInt8) (s s' : σ) :
    (c.send m data s).1 = (c.send m data s').1 := by
  change c.decode m (c.transport.request c.service m.name data s).1 = _
  rw [hrepeat _ _ _ s s']
  rfl

lemma sendEach_fst_eq (m : Schema.Method) (keys : List Primitive) (s s' : σ) :
    (c.sendEach m keys s).1 = (keys.mapM fun key => (c.send m (requestOf key) s').1).map
      (map fun message => some (.message message)) := by
  induction keys generalizing s with
  | nil => rfl
  | cons key keys ih =>
    rw [mapM_cons, ← send_fst_eq hrepeat m (requestOf key) s s']
    rw [sendEach_cons_fst]
    rcases c.send m (requestOf key) s with ⟨_ | message, t⟩
    · rfl
    · dsimp only
      rw [ih t]
      cases keys.mapM fun key => (c.send m (requestOf key) s').1 <;> rfl

lemma fetch_fst_eq (m : Schema.Method) (data : List UInt8) (keys : List Primitive) (s s' : σ) :
    (c.fetch m (.response data) keys s).1 = .after 0 (c.sendEach m keys s').1 := by
  change Fetch.after 0 (c.sendEach m keys s).1 = _
  rw [sendEach_fst_eq hrepeat m keys s s', sendEach_fst_eq hrepeat m keys s' s']

lemma loaded_of_answers {keys : List Primitive} {data : List UInt8}
    {r : Except RpcError (Option Value)} {s : σ} (s' : σ)
    (h : Answers keys (c.sendEach m keys s).1 (.bytes data) r) :
    c.loaded (.response data) r = c.shape (c.batchReply m keys data s') := by
  rw [sendEach_fst_eq hrepeat m keys s s'] at h
  cases hall : keys.mapM fun key => (c.send m (requestOf key) s').1 with
  | error e =>
    rw [hall] at h
    rw [batchReply, hall]
    cases h with
    | value houtcome | mismatch houtcome => cases houtcome
    | failure houtcome =>
      cases houtcome
      rfl
  | ok messages =>
    have hmap : messages.map Except.ok = keys.map fun key => (c.send m (requestOf key) s').1 :=
      map_eq_of_mapM (fun _ _ hd => hd.symm) hall
    rw [hall] at h
    rw [batchReply, hall]
    cases h with
    | failure houtcome => cases houtcome
    | mismatch houtcome hlength =>
      cases houtcome
      have hsame := congrArg length hmap
      simp only [length_map] at hsame hlength
      exact absurd hsame hlength
    | @value values i v houtcome _ hkey hvalue =>
      cases houtcome
      have hat := congrArg (fun replies => replies[i]?) hmap
      simp only [getElem?_map, hkey, Option.map_some] at hat hvalue
      cases hmessage : messages[i]? with
      | none =>
        rw [hmessage] at hat
        cases hat
      | some message =>
        rw [hmessage] at hat hvalue
        cases hvalue
        have hown : (c.send m data s').1 = .ok message := (Option.some.inj hat).symm
        change _ = c.shape (c.send m data s').1
        rw [hown]
        rfl

end

end Client

end Protobuf.Rpc
