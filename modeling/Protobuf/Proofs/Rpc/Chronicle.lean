import Protobuf.Proofs.Rpc.Delivery

/-!
# Sessions step by step

A session as a run of atomic steps: at every moment any load that is alive may take a
turn or be dropped, a load may begin, and a key may be cleared. The chronicle of a run
keeps a log of what happened, and `Turned` says once what a turn can do.
-/

open Protobuf.Rpc.Loader

namespace Protobuf.Rpc

open List

variable {K V : Type}

/-- What the log of a run notes. -/
inductive Event (K V : Type) where
  /-- A key was registered that no result was cached for. -/
  | registered (r : Registration K)
  /-- The batch that was being collected was taken, and a call made to fetch it. -/
  | dispatched (batch : List (Registration K))
  /-- The batch that was being collected was given up. -/
  | discarded
  | returned (key : K) (outcome : Except RpcError V)
  | cleared (key : K)

/-- The registrations of the batch that is being collected, in their order, by a log whose last
event stands first: those made since a batch was last taken or given up. -/
def collected : List (Event K V) → List (Registration K)
  | [] => []
  | .registered r :: log => collected log ++ [r]
  | .dispatched _ :: _ | .discarded :: _ => []
  | .returned .. :: log | .cleared _ :: log => collected log

/-- The batches that a log says were fetched, the last one first. -/
def dispatches (log : List (Event K V)) : List (List (Registration K)) :=
  log.filterMap fun
    | .dispatched batch => some batch
    | _ => none

/-- A history with the log of what happened, the last event first. -/
structure Chronicle (K V : Type) extends History K V where
  log : List (Event K V)

namespace LiveLoad

/-- The batch that a load opened and has not released: it is being collected, or the load has
taken it. -/
def batch (load : LiveLoad K V) (l : Loader K V) : List (Registration K) :=
  if load.phase.isCollecting then l.pending else load.phase.held

/-- The load has no batch to collect or to fetch. -/
def Idle (load : LiveLoad K V) : Prop :=
  load.phase.isCollecting = false ∧ load.phase.held = []

lemma Idle.batch_eq {load : LiveLoad K V} (h : load.Idle) (l : Loader K V) : load.batch l = [] := by
  rw [batch, h.1, h.2]
  rfl

def taken (load : LiveLoad K V) (l : Loader K V) : Loader K V :=
  if load.phase.isCollecting then l.takePending.2 else l

/-- The call that the load makes in its next turn, as an event. -/
def dispatch (load : LiveLoad K V) (l : Loader K V) : List (Event K V) :=
  if load.phase.isCollecting then [.dispatched l.pending] else []

variable [DecidableEq K]

/-- What a turn of the load adds to the log, the last event first. What was registered in the turn
is what is pending under a number that had not been given out. -/
def events (load : LiveLoad K V) (l : Loader K V) (batches : List (List K)) :
    List (Event K V) :=
  let (turn, l', _) := Session.step load l batches
  (match turn with
    | .done outcome => [.returned load.key outcome]
    | .pending _ => []) ++
    load.dispatch l ++ (l'.pending.filter fun r => l.next ≤ r.2).map .registered

end LiveLoad

namespace Chronicle

variable [DecidableEq K]

omit [DecidableEq K] in
/-- Before anything happened. -/
def start : Chronicle K V := ⟨⟨.empty, [], []⟩, []⟩

def turn (c : Chronicle K V) (before : List (LiveLoad K V)) (load : LiveLoad K V)
    (after : List (LiveLoad K V)) : Chronicle K V :=
  { toHistory := (c.toHistory.turn before load after).2
    log := load.events c.session.loader c.session.batches ++ c.log }

def drop (c : Chronicle K V) (before : List (LiveLoad K V)) (load : LiveLoad K V)
    (after : List (LiveLoad K V)) : Chronicle K V :=
  { c with
    session := ⟨c.session.loader.drop load.phase, before ++ after, c.session.batches⟩
    log := (if load.phase.isCollecting then [.discarded] else []) ++ c.log }

inductive Step : Chronicle K V → Chronicle K V → Prop
  | begin (c : Chronicle K V) (id : String) (key : K) (fetch : Nat → List K → Fetch V) :
      Step c { c with session := c.session.begin id key fetch }
  | turn (c : Chronicle K V) {before after : List (LiveLoad K V)} {load : LiveLoad K V} :
      c.session.loads = before ++ load :: after → Step c (c.turn before load after)
  | drop (c : Chronicle K V) {before after : List (LiveLoad K V)} {load : LiveLoad K V} :
      c.session.loads = before ++ load :: after → Step c (c.drop before load after)
  | clear (c : Chronicle K V) (key : K) :
      Step c { c with session := c.session.clear key, log := .cleared key :: c.log }

/-- Some steps lead here from the start. -/
inductive Reachable : Chronicle K V → Prop
  | start : Reachable start
  | next {c c' : Chronicle K V} : Reachable c → Step c c' → Reachable c'

end Chronicle

/-! ## Actions are made of steps -/

namespace Chronicle.Reachable

variable [DecidableEq K] {c : Chronicle K V}

/-- A log that is longer by events of which none is a clear. -/
private def Extends (c c' : Chronicle K V) : Prop :=
  ∀ key, .cleared key ∈ c'.log → .cleared key ∈ c.log

omit [DecidableEq K] in
private lemma not_cleared_mem_append {events log : List (Event K V)} {key : K}
    (hevents : ∀ key, .cleared key ∉ events) (h : .cleared key ∈ events ++ log) :
    .cleared key ∈ log :=
  (mem_append.mp h).resolve_left (hevents key)

lemma cleared_not_mem_events (load : LiveLoad K V) (l : Loader K V) (batches : List (List K))
    (key : K) : .cleared key ∉ load.events l batches := by
  unfold LiveLoad.events LiveLoad.dispatch
  rcases Session.step load l batches with ⟨phase | outcome, l', batches'⟩ <;>
    split_ifs <;> simp

private lemma round (hc : Reachable c) {before loads : List (LiveLoad K V)}
    (hloads : c.session.loads = before ++ loads) :
    ∃ c', Reachable c' ∧ c'.toHistory = c.toHistory.round before loads ∧ Extends c c' := by
  induction loads generalizing c before with
  | nil => exact ⟨c, hc, rfl, fun _ h => h⟩
  | cons load after ih =>
    have hturn : Reachable (c.turn before load after) := hc.next (.turn c hloads)
    have hleft : (c.turn before load after).session.loads =
        before ++ (c.toHistory.turn before load after).1 ++ after := by
      simp only [turn, History.turn]
      split <;> simp
    obtain ⟨c', hreach, heq, hlog⟩ := ih hturn hleft
    exact ⟨c', hreach, heq, fun key h =>
      not_cleared_mem_append (cleared_not_mem_events load _ _) (hlog key h)⟩

private lemma settle (hc : Reachable c) (rounds : Nat) :
    ∃ c', Reachable c' ∧ c'.toHistory = History.settle rounds c.toHistory ∧ Extends c c' := by
  induction rounds generalizing c with
  | zero => exact ⟨c, hc, rfl, fun _ h => h⟩
  | succ rounds ih =>
    obtain ⟨c₁, hreach₁, heq₁, hlog₁⟩ := hc.round (nil_append c.session.loads).symm
    obtain ⟨c₂, hreach₂, heq₂, hlog₂⟩ := ih hreach₁
    exact ⟨c₂, hreach₂, heq₂.trans (congrArg _ heq₁), fun key h => hlog₁ key (hlog₂ key h)⟩

private lemma act (hc : Reachable c) (action : Action K V) :
    ∃ c', Reachable c' ∧ c'.toHistory = c.toHistory.act action ∧
      ∀ key, .cleared key ∈ c'.log → .cleared key ∈ c.log ∨ action = .clear key := by
  cases action with
  | begin id key fetch => exact ⟨_, hc.next (.begin c id key fetch), rfl, fun _ h => .inl h⟩
  | clear key =>
    refine ⟨_, hc.next (.clear c key), rfl, fun other h => ?_⟩
    rcases mem_cons.mp h with heq | h
    · cases heq
      exact .inr rfl
    · exact .inl h
  | settle rounds =>
    obtain ⟨c', hreach, heq, hlog⟩ := hc.settle rounds
    exact ⟨c', hreach, heq, fun key h => .inl (hlog key h)⟩
  | poll id =>
    simp only [History.act]
    split
    · exact ⟨c, hc, rfl, fun _ h => .inl h⟩
    · next before load after hsplit =>
      exact ⟨_, hc.next (.turn c (History.split_eq_some hsplit).2), rfl, fun key h =>
        .inl (not_cleared_mem_append (cleared_not_mem_events load _ _) h)⟩
  | drop id =>
    simp only [History.act, Session.act, Session.drop]
    split
    · exact ⟨c, hc, rfl, fun _ h => .inl h⟩
    · next before load after hsplit =>
      refine ⟨_, hc.next (.drop c (History.split_eq_some hsplit).2), rfl, fun key h => .inl ?_⟩
      refine not_cleared_mem_append (fun key => ?_) h
      split_ifs <;> simp

/-- Whatever actions lead to is reached by steps, and only an action that clears a key notes
so. -/
lemma exists_of_actions (actions : List (Action K V)) :
    ∃ c : Chronicle K V, Reachable c ∧ c.toHistory = History.run actions ∧
      c.session = (Session.run actions).2 ∧
      ∀ key, .cleared key ∈ c.log → .clear key ∈ actions := by
  suffices h : ∃ c : Chronicle K V, Reachable c ∧ c.toHistory = History.run actions ∧
      ∀ key, .cleared key ∈ c.log → .clear key ∈ actions by
    obtain ⟨c, hc, heq, hlog⟩ := h
    refine ⟨c, hc, heq, ?_, hlog⟩
    rw [History.run_eq, heq]
  induction actions using reverseRecOn with
  | nil => exact ⟨Chronicle.start, .start, rfl, by simp [Chronicle.start]⟩
  | append_singleton actions action ih =>
    obtain ⟨c, hc, heq, hlog⟩ := ih
    obtain ⟨c', hc', heq', hlog'⟩ := hc.act action
    refine ⟨c', hc', ?_, fun key h => ?_⟩
    · rw [heq', heq]
      simp [History.run]
    · rcases hlog' key h with h | rfl
      · exact mem_append_left _ (hlog key h)
      · simp

end Chronicle.Reachable

/-! ## What a turn can do -/

variable [DecidableEq K]

/-- What a turn of a load leads to, what it leaves of the loader, and what it adds to the log. -/
inductive Turned (l : Loader K V) (load : LiveLoad K V) :
    Turn K V → Loader K V → List (Event K V) → Prop
  /-- It registers its key, for which nothing is cached, and collects a batch or waits. -/
  | registers {phase : Phase K V} (hidle : load.Idle)
      (hnew : load.key ∉ l.cache.map Prod.fst)
      (hphase : phase = .collecting l.next ∨ phase = .waiting l.next) :
      Turned l load (.pending phase)
        { l with
          cache := (load.key, l.next) :: l.cache
          pending := l.pending ++ [(load.key, l.next)]
          isOpen := true
          next := l.next + 1 }
        [.registered (load.key, l.next)]
  | waits {result : Nat} (hidle : load.Idle)
      (hresult : load.phase = .waiting result ∨ (load.key, result) ∈ l.cache) :
      Turned l load (.pending (.waiting result)) l []
  | returns {result : Nat} {outcome : Except RpcError V} (hidle : load.Idle)
      (hresult : load.phase = .waiting result ∨ (load.key, result) ∈ l.cache)
      (houtcome : l.results.lookup result = some (some outcome)) :
      Turned l load (.done outcome) l [.returned load.key outcome]
  | fetches {result : Nat} {fetch : Fetch V} :
      Turned l load (.pending (.fetching result (load.batch l) fetch)) (load.taken l)
        (load.dispatch l)
  /-- It is done with fetching its batch. -/
  | settles {result : Nat} {outcome : Except RpcError (List V)} {own : Except RpcError V}
      (hmem : (load.key, result) ∈ load.batch l)
      (hown : ((load.taken l).settle (load.batch l) outcome).results.lookup result =
        some (some own)) :
      Turned l load (.done own) ((load.taken l).settle (load.batch l) outcome)
        (.returned load.key own :: load.dispatch l)

namespace Loader

variable {l : Loader K V} {held : List (Registration K)} {calls : List (BatchCall K V)} {key : K}

lemma start_of_cached (h : Inv l held calls) {result : Nat}
    (hcached : l.cache.lookup key = some result) :
    l.start key = (.pending (.waiting result), l) ∨
      ∃ outcome, l.results.lookup result = some (some outcome) ∧
        l.start key = (.done outcome, l) := by
  have hregister := register_of_lookup_eq_some hcached
  have hmem := register_cached l key
  rw [hregister] at hmem
  simp only [start, enter, hregister, Bool.false_eq_true, if_false]
  cases hlookup : l.results.lookup result with
  | none => exact .inl rfl
  | some settled =>
    obtain ⟨v, rfl⟩ := h.sound _ hmem settled hlookup
    exact .inr ⟨_, rfl, rfl⟩

/-- A load whose key has none registers it, and opens a batch or joins the open one. -/
lemma start_of_not_cached (h : Inv l held calls) (hcached : l.cache.lookup key = none) :
    ∃ phase, (phase = .collecting l.next ∨ phase = .waiting l.next) ∧
      l.start key = (.pending phase,
        { l with
          cache := (key, l.next) :: l.cache
          pending := l.pending ++ [(key, l.next)]
          isOpen := true
          next := l.next + 1 }) := by
  have hregister := register_of_lookup_eq_none hcached
  have hunused := h.unused l.next le_rfl
  cases hopen : l.isOpen with
  | false =>
    refine ⟨_, .inl rfl, ?_⟩
    simp [start, enter, hregister, hopen]
  | true =>
    refine ⟨_, .inr rfl, ?_⟩
    simp [start, enter, hregister, hopen, hunused]

end Loader

section

variable {l : Loader K V} {load : LiveLoad K V} {loads : List (LiveLoad K V)}
  {held : List (Registration K)} {calls : List (BatchCall K V)}

omit [DecidableEq K] in
private lemma filter_next_le_pending (h : l.Inv held calls) :
    (l.pending.filter fun r => l.next ≤ r.2) = [] := by
  rw [filter_eq_nil_iff]
  intro r hr
  have hlt := h.lt_next r (mem_append_left _ hr)
  simpa using hlt

/-- Starting a load that has opened no batch, at first or again. -/
private lemma turned_of_start (h : l.Inv held calls) (hidle : load.Idle)
    (hdispatch : load.dispatch l = []) {batches : List (List K)}
    (hstep : Session.step load l batches = ((l.start load.key).1, (l.start load.key).2, batches)) :
    Turned l load (l.start load.key).1 (l.start load.key).2 (load.events l batches) := by
  cases hcached : l.cache.lookup load.key with
  | some result =>
    have hmem := register_cached l load.key
    rw [register_of_lookup_eq_some hcached] at hmem
    obtain heq | ⟨outcome, houtcome, heq⟩ := start_of_cached h hcached
    · simp only [LiveLoad.events, hstep, heq, hdispatch, filter_next_le_pending h]
      exact .waits hidle (.inr hmem)
    · simp only [LiveLoad.events, hstep, heq, hdispatch, filter_next_le_pending h]
      exact .returns hidle (.inr hmem) houtcome
  | none =>
    obtain ⟨phase, hphase, heq⟩ := start_of_not_cached h hcached
    have hnew : load.key ∉ l.cache.map Prod.fst := by
      intro hmem
      obtain ⟨entry, hentry, hkey⟩ := mem_map.mp hmem
      have hne := lookup_eq_none_iff.mp hcached entry hentry
      simp [hkey] at hne
    simp only [LiveLoad.events, hstep, heq, hdispatch, filter_append,
      filter_next_le_pending h, nil_append]
    simpa using Turned.registers hidle hnew hphase

/-- A load that has taken its batch goes on fetching it. -/
private lemma turned_of_proceed
    (hnext : ((load.taken l).pending.filter fun r => l.next ≤ r.2) = [])
    {result : Nat} (hmem : (load.key, result) ∈ load.batch l) {fetch : Fetch V}
    {batches batches' : List (List K)}
    (hstep : Session.step load l batches =
      (((load.taken l).proceed result (load.batch l) fetch).1,
        ((load.taken l).proceed result (load.batch l) fetch).2, batches')) :
    Turned l load ((load.taken l).proceed result (load.batch l) fetch).1
      ((load.taken l).proceed result (load.batch l) fetch).2 (load.events l batches) := by
  obtain ⟨rest, heq, -⟩ | ⟨outcome, own, -, heq, hown⟩ :=
    (load.taken l).proceed_cases hmem fetch
  · simp only [LiveLoad.events, hstep, heq, hnext]
    simpa using Turned.fetches
  · have hpending : ((load.taken l).settle (load.batch l) outcome).pending =
        (load.taken l).pending := by rw [settle_eq]
    simp only [LiveLoad.events, hstep, heq, hpending, hnext]
    simpa using Turned.settles hmem hown

/-- Every turn is of one of five kinds. -/
lemma LiveLoad.turned (batches : List (List K))
    (h : Accounted l loads load.phase.held load.phase.isCollecting.toNat calls)
    (hphase : load.phase.Ok l (load.phase.held ++ heldBy loads) calls load.key) :
    Turned l load (Session.step load l batches).1 (Session.step load l batches).2.1
      (load.events l batches) := by
  obtain ⟨id, key, fetch, phase⟩ := load
  have hpending := filter_next_le_pending h.loader
  cases phase with
  | fresh => exact turned_of_start h.loader ⟨rfl, rfl⟩ rfl rfl
  | waiting result =>
    have hstep : Session.step ⟨id, key, fetch, .waiting result⟩ l batches =
        ((l.wake key result).1, (l.wake key result).2, batches) := rfl
    rw [hstep]
    cases hlookup : l.results.lookup result with
    | none =>
      have heq : l.wake key result = (.pending (.waiting result), l) := by
        simp only [wake, hlookup]
      rw [heq] at hstep ⊢
      simp only [LiveLoad.events, hstep, hpending]
      exact .waits ⟨rfl, rfl⟩ (.inl rfl)
    | some settled =>
      cases settled with
      | some outcome =>
        have heq : l.wake key result = (.done outcome, l) := by
          simp only [wake, hlookup]
        rw [heq] at hstep ⊢
        simp only [LiveLoad.events, hstep, hpending]
        exact .returns ⟨rfl, rfl⟩ (.inl rfl) hlookup
      | none =>
        have heq : l.wake key result = l.start key := by
          simp only [wake, hlookup, forget_of_given_up h.loader hlookup]
        rw [heq] at hstep ⊢
        exact turned_of_start h.loader ⟨rfl, rfl⟩ rfl hstep
  | fetching result batch f => exact turned_of_proceed hpending hphase.1 rfl
  | collecting result =>
    have hnone : (LiveLoad.taken ⟨id, key, fetch, .collecting result⟩ l).pending = [] := rfl
    exact turned_of_proceed (by rw [hnone]; rfl) hphase rfl

end

end Protobuf.Rpc
