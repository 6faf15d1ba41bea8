import Protobuf.Proofs.Rpc.Batches
import Protobuf.Proofs.Rpc.Prompt

/-!
# Calls that are remembered

Calls of methods whose responses are remembered, made in one context. They begin at any
time and take their turns in any order. The calls of one method that are not done are
the loads of one loader, so `Accounted` holds of them; `Inv` adds what the calls that
are done were given. Every call is done after three rounds, with what the batch gave in
which its request was sent.
-/

namespace Protobuf.Rpc

open List

open Protobuf.Codec (Message Value)

variable {σ : Type}

def CallState.phase? : CallState → Option (Phase Primitive (Option Value))
  | .fresh _ => some .fresh
  | .loading _ _ phase => some phase
  | .done _ => none

def CallState.turnsLeft : CallState → Nat
  | .fresh _ => 3
  | .loading _ _ phase => phase.turnsLeft
  | .done _ => 0

/-- A call with one request, and how far it has come. -/
structure GetCall where
  method : Schema.Method
  request : Message
  state : CallState

namespace GetCall

def data (call : GetCall) (c : Client σ) : List UInt8 :=
  c.encode call.method call.request

/-- The load of a call that is in a phase. What a batch gives does not depend on the state of the
transport, so that is fixed. -/
def load (call : GetCall) (c : Client σ) (s : σ) (phase : Phase Primitive (Option Value)) :
    LiveLoad Primitive (Option Value) :=
  ⟨"", .bytes (call.data c), fun _ keys => .after 0 (c.sendEach call.method keys s).1, phase⟩

/-- The state of a call that began and was given turns, where batches gave the outcomes
`fetched`. -/
inductive Sound (c : Client σ) (fetched : List (BatchCall Primitive (Option Value))) :
    GetCall → Prop
  | fresh {m : Schema.Method} {request : Message} :
      Sound c fetched ⟨m, request, .fresh (.method m [request])⟩
  | loading {m : Schema.Method} {request : Message} {phase : Phase Primitive (Option Value)}
      (hheld : phase.held = []) :
      Sound c fetched ⟨m, request, .loading m (.response (c.encode m request)) phase⟩
  | done {m : Schema.Method} {request : Message} {outcome : Except RpcError (Option Value)}
      (hdelivered : Delivered fetched (.bytes (c.encode m request)) outcome) :
      Sound c fetched
        ⟨m, request, .done (c.loaded (.response (c.encode m request)) outcome)⟩

lemma Sound.held {c : Client σ} {fetched : List (BatchCall Primitive (Option Value))}
    {call : GetCall} (h : call.Sound c fetched) {phase : Phase Primitive (Option Value)}
    (hphase : call.state.phase? = some phase) : phase.held = [] := by
  cases h with
  | fresh =>
    cases hphase
    rfl
  | loading hheld =>
    cases hphase
    exact hheld
  | done => cases hphase

lemma Sound.mono {c : Client σ} {fetched fetched' : List (BatchCall Primitive (Option Value))}
    {call : GetCall} (h : call.Sound c fetched) (hsub : fetched ⊆ fetched') :
    call.Sound c fetched' := by
  cases h with
  | fresh => exact .fresh
  | loading hheld => exact .loading hheld
  | done hdelivered => exact .done (hdelivered.mono hsub)

end GetCall

/-- Calls in one context, with the state of the transport, and the batches that were sent, the last
one first. -/
structure Exchange (σ : Type) where
  context : ItemContext
  calls : List GetCall
  wire : σ
  batches : List (Schema.Method × List Primitive)

namespace Exchange

def start (s : σ) : Exchange σ := ⟨.empty, [], s, []⟩

def begin (e : Exchange σ) (m : Schema.Method) (request : Message) : Exchange σ :=
  { e with calls := e.calls ++ [⟨m, request, .fresh (.method m [request])⟩] }

/-- The batch that a call sends in its next turn, if it has collected one. -/
def sending (e : Exchange σ) (c : Client σ) : CallState → List (Schema.Method × List Primitive)
  | .loading m _ (.collecting _) =>
    [(m, (e.context.loader (c.identity m)).pending.map Prod.fst)]
  | _ => []

/-- Give a call between others a turn. -/
def turn (e : Exchange σ) (c : Client σ) (before : List GetCall) (call : GetCall)
    (after : List GetCall) : Exchange σ :=
  let (state, context, wire) := c.turn call.state e.context e.wire
  ⟨context, before ++ { call with state } :: after, wire, e.sending c call.state ++ e.batches⟩

inductive Step (c : Client σ) : Exchange σ → Exchange σ → Prop
  | begin (e : Exchange σ) {m : Schema.Method} (request : Message) :
      m ∈ c.methods → c.remembers m = true → Step c e (e.begin m request)
  | turn (e : Exchange σ) {before after : List GetCall} {call : GetCall} :
      e.calls = before ++ call :: after → Step c e (e.turn c before call after)

inductive Reachable (c : Client σ) : Exchange σ → Prop
  | start (s : σ) : Reachable c (.start s)
  | next {e e' : Exchange σ} : Reachable c e → Step c e e' → Reachable c e'

/-! ## What every step preserves -/

def loadsOf (c : Client σ) (s : σ) (m : Schema.Method) (calls : List GetCall) :
    List (LiveLoad Primitive (Option Value)) :=
  (calls.filter (·.method = m)).filterMap fun call => call.state.phase?.map (call.load c s)

/-- The batches of a method that were sent, with what they gave. -/
def fetched (e : Exchange σ) (c : Client σ) (s : σ) (m : Schema.Method) :
    List (BatchCall Primitive (Option Value)) :=
  (e.batches.filter (·.1 = m)).map fun batch => (batch.2, some (c.sendEach m batch.2 s).1)

def Requested (e : Exchange σ) (c : Client σ) (m : Schema.Method) (key : Primitive) : Prop :=
  ∃ call ∈ e.calls, call.method = m ∧ key = .bytes (call.data c)

/-- The loader of a method agrees with its calls. -/
structure Served (c : Client σ) (s : σ) (e : Exchange σ) (m : Schema.Method) : Prop where
  results : (e.context.loader (c.identity m)).KeepsResults
  accounted :
    Accounted (e.context.loader (c.identity m)) (loadsOf c s m e.calls) [] 0 (e.fetched c s m)
  pending : ∀ x ∈ (e.context.loader (c.identity m)).pending, e.Requested c m x.1

/-- What every step preserves. -/
structure Inv (c : Client σ) (s : σ) (e : Exchange σ) : Prop where
  keeps : e.context.KeepsResponses
  remembered : ∀ call ∈ e.calls, call.method ∈ c.methods ∧ c.remembers call.method = true
  sound : ∀ call ∈ e.calls, call.Sound c (e.fetched c s call.method)
  served : ∀ m ∈ c.methods, Served c s e m
  batches : ∀ batch ∈ e.batches, ∀ key ∈ batch.2, e.Requested c batch.1 key

section Loads

variable {c : Client σ} {s : σ} {m : Schema.Method} {before after : List GetCall}

lemma loadsOf_append (calls calls' : List GetCall) :
    loadsOf c s m (calls ++ calls') = loadsOf c s m calls ++ loadsOf c s m calls' := by
  simp [loadsOf]

variable (call : GetCall)

lemma loadsOf_of_ne (h : call.method ≠ m) :
    loadsOf c s m (before ++ call :: after) = loadsOf c s m (before ++ after) := by
  simp [loadsOf, h]

lemma loadsOf_of_phase (hm : call.method = m) {phase : Phase Primitive (Option Value)}
    (h : call.state.phase? = some phase) :
    loadsOf c s m (before ++ call :: after) =
      loadsOf c s m before ++ call.load c s phase :: loadsOf c s m after := by
  simp [loadsOf, hm, h]

lemma loadsOf_of_done (h : call.state.phase? = none) :
    loadsOf c s m (before ++ call :: after) = loadsOf c s m (before ++ after) := by
  by_cases hm : call.method = m
  · simp [loadsOf, hm, h]
  · exact loadsOf_of_ne call hm

lemma mem_loadsOf {calls : List GetCall} {load : LiveLoad Primitive (Option Value)}
    (h : load ∈ loadsOf c s m calls) :
    ∃ call ∈ calls, call.method = m ∧ ∃ phase, call.state.phase? = some phase ∧
      load = call.load c s phase := by
  obtain ⟨call, hcall, hload⟩ := mem_filterMap.mp h
  obtain ⟨hcall, hm⟩ := mem_filter.mp hcall
  obtain ⟨phase, hphase, rfl⟩ := Option.map_eq_some_iff.mp hload
  exact ⟨call, hcall, of_decide_eq_true hm, phase, hphase, rfl⟩

end Loads

section Turn

variable {c : Client σ} {s : σ} {e : Exchange σ} {before after : List GetCall} {call : GetCall}

lemma turn_of_done (hcalls : e.calls = before ++ call :: after)
    (hdone : call.state.phase? = none) : e.turn c before call after = e := by
  obtain ⟨m, request, state⟩ := call
  cases state with
  | fresh | loading => cases hdone
  | done r =>
    obtain ⟨context, calls, wire, batches⟩ := e
    obtain rfl : calls = before ++ ⟨m, request, .done r⟩ :: after := hcalls
    rfl

variable {phase : Phase Primitive (Option Value)}
  {calls : List (BatchCall Primitive (Option Value))}

lemma turn_eq_loadTurn {fetched : List (BatchCall Primitive (Option Value))}
    (hsound : call.Sound c fetched) (hremembers : c.remembers call.method)
    (hphase : call.state.phase? = some phase) (context : ItemContext) (s : σ) :
    c.turn call.state context s =
      c.loadTurn call.method (.response (call.data c)) phase context s := by
  cases hsound with
  | fresh =>
    cases hphase
    exact Client.turn_fresh hremembers _ s
  | loading hheld =>
    cases hphase
    rfl
  | done hdelivered => cases hphase

lemma fetched_turn (hsound : call.Sound c calls) (hphase : call.state.phase? = some phase) :
    (e.turn c before call after).fetched c s call.method =
      (call.load c s phase).call (e.context.loader (c.identity call.method)) [] ++
        e.fetched c s call.method := by
  cases hsound with
  | fresh =>
    cases hphase
    rfl
  | @loading m request phase' hheld =>
    cases hphase
    cases phase <;>
      simp [fetched, turn, sending, LiveLoad.call, GetCall.load, Phase.isCollecting,
        Fetch.outcome?]
  | done hdelivered => cases hphase

lemma fetched_turn_of_ne (hsound : call.Sound c calls) {m : Schema.Method}
    (hne : call.method ≠ m) : (e.turn c before call after).fetched c s m = e.fetched c s m := by
  cases hsound with
  | fresh | done => rfl
  | @loading m' request phase hheld =>
    have hother : m' ≠ m := hne
    cases phase <;> simp [fetched, turn, sending, hother]

/-- A turn of the load of a call is a step of that load alone: what a batch gives does not depend on
the state of the transport. -/
lemma exists_loadTurn_eq_step (hrepeat : c.transport.IsRepeatable)
    (hkeeps : e.context.KeepsResponses) (s : σ) (call : GetCall)
    (phase : Phase Primitive (Option Value)) :
    let step := Session.step (call.load c s phase)
      (e.context.loader (c.identity call.method)) []
    ∃ (context : ItemContext) (wire : σ),
      c.loadTurn call.method (.response (call.data c)) phase e.context e.wire =
        (c.afterTurn call.method (call.data c) step.1, context, wire) ∧
      context.KeepsResponses ∧ context.loader (c.identity call.method) = step.2.1 ∧
      ∀ identity, identity ≠ c.identity call.method →
        context.loader identity = e.context.loader identity := by
  intro step
  have hsame := Loader.turn_congr
    (g := fun keys batches =>
      ((call.load c s phase).fetch (batches.length + 1) keys, keys :: batches)) (t := [])
    (fun keys => Client.fetch_fst_eq hrepeat call.method (call.data c) keys e.wire s)
    (e.context.loader (c.identity call.method)) (.bytes (call.data c)) phase
  rcases hturn : (e.context.loader (c.identity call.method)).turn
    (c.fetch call.method (.response (call.data c))) (.bytes (call.data c)) phase e.wire
    with ⟨t, l, wire⟩
  rw [hturn] at hsame
  obtain ⟨rfl, rfl⟩ : t = step.1 ∧ l = step.2.1 := hsame
  obtain ⟨context, hloadTurn, hframe⟩ := Client.exists_loadTurn hkeeps hturn
  exact ⟨context, wire, hloadTurn, hframe⟩

/-- What a turn of a call that is not done leads to. -/
structure Turned (c : Client σ) (s : σ) (e : Exchange σ) (before : List GetCall) (call : GetCall)
    (after : List GetCall) (phase : Phase Primitive (Option Value))
    (t : Turn Primitive (Option Value)) (e' : Exchange σ) : Prop where
  calls : e'.calls =
    before ++ { call with state := c.afterTurn call.method (call.data c) t } :: after
  keeps : e'.context.KeepsResponses
  loader : PromptTurn (e.context.loader (c.identity call.method)) (.bytes (call.data c)) phase t
    (e'.context.loader (c.identity call.method))
  others : ∀ identity, identity ≠ c.identity call.method →
    e'.context.loader identity = e.context.loader identity
  ok : t.Ok (e'.context.loader (c.identity call.method))
    (loadsOf c s call.method (before ++ after)) (e'.fetched c s call.method) (.bytes (call.data c))

lemma Inv.turned (hrepeat : c.transport.IsRepeatable) (hinv : e.Inv c s)
    (hcalls : e.calls = before ++ call :: after) (hphase : call.state.phase? = some phase) :
    ∃ t, Turned c s e before call after phase t (e.turn c before call after) := by
  have hmem : call ∈ e.calls := by simp [hcalls]
  obtain ⟨hmethod, hremembers⟩ := hinv.remembered call hmem
  have hsound := hinv.sound call hmem
  have hserved := hinv.served call.method hmethod
  -- The load is one of those of its method, and can be set aside.
  have haccounted := hserved.accounted
  rw [hcalls, loadsOf_of_phase call rfl hphase] at haccounted
  obtain ⟨hothers, hok⟩ := Accounted.focus_iff.mp haccounted
  have hprompt : (call.load c s phase).IsPrompt := fun _ keys => ⟨_, rfl⟩
  have hturned := (call.load c s phase).promptTurn [] hprompt hserved.results
    (hsound.held hphase) hothers.loader hok
  have hstep := (hothers.step [] hok).1
  have hfetched : (e.turn c before call after).fetched c s call.method =
      (call.load c s phase).call (e.context.loader (c.identity call.method)) [] ++
        e.fetched c s call.method := fetched_turn hsound hphase
  rw [← hfetched, ← loadsOf_append] at hstep
  obtain ⟨context, wire, hloadTurn, hkeeps, hloader, hframe⟩ :=
    exists_loadTurn_eq_step hrepeat hinv.keeps s call phase
  rw [← hloader] at hstep hturned
  have hturn : c.turn call.state e.context e.wire = _ :=
    (turn_eq_loadTurn hsound hremembers hphase _ _).trans hloadTurn
  have hcontext : (e.turn c before call after).context = context :=
    congrArg (fun turn => turn.2.1) hturn
  have hstate := congrArg Prod.fst hturn
  rw [← hcontext] at hstep hturned hkeeps hframe
  exact ⟨_, congrArg (fun state => before ++ { call with state } :: after) hstate, hkeeps, hturned,
    hframe, hstep⟩

lemma fetched_subset_turn (m : Schema.Method) :
    e.fetched c s m ⊆ (e.turn c before call after).fetched c s m := by
  simp only [fetched, turn, filter_append, map_append]
  exact subset_append_right _ _

lemma eq_of_mem_sending (hsound : call.Sound c calls) {batch : Schema.Method × List Primitive}
    (h : batch ∈ e.sending c call.state) :
    batch = (call.method,
      (e.context.loader (c.identity call.method)).pending.map Prod.fst) := by
  cases hsound with
  | fresh | done => cases h
  | @loading m request phase hheld =>
    cases phase with
    | collecting result => exact mem_singleton.mp h
    | fresh | fetching | waiting => cases h

section Turned

variable {e' : Exchange σ} {phase : Phase Primitive (Option Value)}
  {t : Turn Primitive (Option Value)} (h : Turned c s e before call after phase t e')

include h

lemma Turned.requested (hcalls : e.calls = before ++ call :: after) {m : Schema.Method}
    {key : Primitive} (hkey : e.Requested c m key) : e'.Requested c m key := by
  obtain ⟨other, hother, hm, hdata⟩ := hkey
  rw [hcalls] at hother
  rcases mem_append.mp hother with hother | hother
  · exact ⟨other, by simp [h.calls, hother], hm, hdata⟩
  · rcases mem_cons.mp hother with rfl | hother
    · refine ⟨{ other with state := c.afterTurn other.method (other.data c) t }, ?_, hm, hdata⟩
      rw [h.calls]
      exact mem_append_right _ mem_cons_self
    · exact ⟨other, by simp [h.calls, hother], hm, hdata⟩

lemma Turned.accounted :
    Accounted (e'.context.loader (c.identity call.method)) (loadsOf c s call.method e'.calls) [] 0
      (e'.fetched c s call.method) := by
  have hok := h.ok
  rw [h.calls]
  cases t with
  | pending phase' =>
    rw [loadsOf_append] at hok
    rw [loadsOf_of_phase
      { call with state := c.afterTurn call.method (call.data c) (.pending phase') } rfl rfl]
    exact Accounted.focus_iff.mpr hok
  | done outcome =>
    rw [loadsOf_of_done
      { call with state := c.afterTurn call.method (call.data c) (.done outcome) } rfl]
    exact hok.1

lemma Turned.sound :
    GetCall.Sound c (e'.fetched c s call.method)
      { call with state := c.afterTurn call.method (call.data c) t } := by
  cases t with
  | pending phase' => exact .loading h.loader.held
  | done outcome => exact .done h.ok.2

/-- After a turn of a call, the loader of its method agrees with the calls again. -/
lemma Turned.served (hcalls : e.calls = before ++ call :: after)
    (hserved : Served c s e call.method) : Served c s e' call.method where
  results := h.loader.keepsResults hserved.results
  accounted := h.accounted
  pending x hx := by
    rcases h.loader.pending x hx with hx | hx
    · exact h.requested hcalls (hserved.pending x hx)
    · exact h.requested hcalls ⟨call, by simp [hcalls], rfl, hx⟩

/-- A turn of a call does not concern the other methods. -/
lemma Turned.served_of_ne (hcalls : e.calls = before ++ call :: after) {m : Schema.Method}
    (hne : call.method ≠ m) (hidentity : c.identity m ≠ c.identity call.method)
    (hfetched : e'.fetched c s m = e.fetched c s m) (hserved : Served c s e m) :
    Served c s e' m := by
  have hloader := h.others _ hidentity
  refine ⟨?_, ?_, ?_⟩
  · rw [hloader]
    exact hserved.results
  · have haccounted := hserved.accounted
    rw [hcalls, loadsOf_of_ne call hne] at haccounted
    rw [hloader, hfetched, h.calls,
      loadsOf_of_ne { call with state := c.afterTurn call.method (call.data c) t } hne]
    exact haccounted
  · intro x hx
    rw [hloader] at hx
    exact h.requested hcalls (hserved.pending x hx)

end Turned

lemma Inv.turn (hrepeat : c.transport.IsRepeatable) (hnames : (c.methods.map (·.name)).Nodup)
    (hinv : e.Inv c s) (hcalls : e.calls = before ++ call :: after) :
    (e.turn c before call after).Inv c s := by
  cases hphase : call.state.phase? with
  | none =>
    rw [turn_of_done hcalls hphase]
    exact hinv
  | some phase =>
    obtain ⟨t, h⟩ := hinv.turned hrepeat hcalls hphase
    have hmem : call ∈ e.calls := by simp [hcalls]
    have hmethod := (hinv.remembered call hmem).1
    have hmem' : ∀ other ∈ (e.turn c before call after).calls, other ∈ e.calls ∨
        other = { call with state := c.afterTurn call.method (call.data c) t } := by
      intro other hother
      rw [h.calls] at hother
      rw [hcalls]
      simp only [mem_append, mem_cons] at hother ⊢
      tauto
    refine ⟨h.keeps, ?_, ?_, ?_, ?_⟩
    · intro other hother
      rcases hmem' other hother with hother | rfl
      · exact hinv.remembered other hother
      · exact hinv.remembered call hmem
    · intro other hother
      rcases hmem' other hother with hother | rfl
      · exact (hinv.sound other hother).mono (fetched_subset_turn _)
      · exact h.sound
    · intro m hm
      by_cases heq : call.method = m
      · subst heq
        exact h.served hcalls (hinv.served _ hm)
      · exact h.served_of_ne hcalls heq (Client.identity_ne hnames hm hmethod (Ne.symm heq))
          (fetched_turn_of_ne (hinv.sound call hmem) heq) (hinv.served m hm)
    · intro batch hbatch key hkey
      rcases mem_append.mp hbatch with hbatch | hbatch
      · obtain rfl := eq_of_mem_sending (hinv.sound call hmem) hbatch
        obtain ⟨x, hx, rfl⟩ := mem_map.mp hkey
        exact h.requested hcalls ((hinv.served _ hmethod).pending x hx)
      · exact h.requested hcalls (hinv.batches batch hbatch key hkey)

lemma Inv.begin (hinv : e.Inv c s) {m : Schema.Method} (request : Message)
    (hm : m ∈ c.methods) (hremembers : c.remembers m) : (e.begin m request).Inv c s := by
  have hrequested {m' : Schema.Method} {key : Primitive} (hkey : e.Requested c m' key) :
      (e.begin m request).Requested c m' key := by
    obtain ⟨call, hcall, hkey⟩ := hkey
    exact ⟨call, mem_append_left _ hcall, hkey⟩
  refine ⟨hinv.keeps, ?_, ?_, ?_, ?_⟩
  · intro call hcall
    rcases mem_append.mp hcall with hcall | hcall
    · exact hinv.remembered call hcall
    · rw [mem_singleton.mp hcall]
      exact ⟨hm, hremembers⟩
  · intro call hcall
    rcases mem_append.mp hcall with hcall | hcall
    · exact hinv.sound call hcall
    · rw [mem_singleton.mp hcall]
      exact .fresh
  · intro m' hm'
    have hserved := hinv.served m' hm'
    refine ⟨hserved.results, ?_, fun x hx => hrequested (hserved.pending x hx)⟩
    have haccounted := hserved.accounted
    by_cases heq : m = m'
    · have hloads : loadsOf c s m' (e.begin m request).calls =
          loadsOf c s m' e.calls ++ GetCall.load ⟨m, request, _⟩ c s .fresh :: loadsOf c s m' [] :=
        loadsOf_of_phase _ heq rfl
      rw [hloads]
      refine Accounted.focus_iff.mpr ⟨?_, trivial⟩
      rw [← loadsOf_append, append_nil]
      exact haccounted
    · have hloads : loadsOf c s m' (e.begin m request).calls = loadsOf c s m' (e.calls ++ []) :=
        loadsOf_of_ne _ heq
      rw [hloads, append_nil]
      exact haccounted
  · exact fun batch hbatch key hkey => hrequested (hinv.batches batch hbatch key hkey)

lemma Inv.start (c : Client σ) (s s' : σ) : (start s').Inv c s := by
  refine ⟨?_, ?_, ?_, ?_, ?_⟩
  · intro identity kept hkept
    cases hkept
  · intro call hcall
    cases hcall
  · intro call hcall
    cases hcall
  · intro m hm
    refine ⟨?_, ⟨Loader.Inv.empty, rfl, by simp [loadsOf, Exchange.start]⟩, ?_⟩
    · intro x hx
      cases hx
    · intro x hx
      cases hx
  · intro batch hbatch
    cases hbatch

lemma Reachable.inv (hrepeat : c.transport.IsRepeatable)
    (hnames : (c.methods.map (·.name)).Nodup) (h : Reachable c e) (s : σ) : e.Inv c s := by
  induction h with
  | start s' => exact .start c s s'
  | next _ hstep ih =>
    cases hstep with
    | begin request hm hremembers => exact ih.begin request hm hremembers
    | turn hcalls => exact ih.turn hrepeat hnames hcalls

end Turn

end Exchange

end Protobuf.Rpc
