import Protobuf.Proofs.Rpc.Exchange
import Protobuf.Sample.Declare

/-!
# What remembered calls are given

Three rounds of turns are enough for all calls of an exchange. A call is given what its
batch gave it: the response to its own request if the other requests of the batch
succeed, and the first failure of the batch if one fails.
-/

namespace Protobuf.Rpc

open List

open Protobuf.Codec (Message Value)

variable {σ : Type}

namespace CallState

lemma turnsLeft_of_phase {state : CallState} {phase : Phase Primitive (Option Value)}
    (h : state.phase? = some phase) : state.turnsLeft = phase.turnsLeft := by
  cases state with
  | fresh | loading =>
    cases h
    rfl
  | done => cases h

lemma turnsLeft_eq_zero_iff {state : CallState} : state.turnsLeft = 0 ↔ ∃ r, state = .done r := by
  cases state with
  | fresh | done => simp [turnsLeft]
  | loading m what phase => cases phase <;> simp [turnsLeft, Phase.turnsLeft]

lemma isDone_iff {state : CallState} : Client.isDone state ↔ ∃ r, state = .done r := by
  cases state <;> simp [Client.isDone]

lemma turnsLeft_le (state : CallState) : state.turnsLeft ≤ 3 := by
  cases state with
  | fresh | done => simp [turnsLeft]
  | loading m what phase => cases phase <;> simp [turnsLeft, Phase.turnsLeft]

lemma turnsLeft_afterTurn (c : Client σ) (m : Schema.Method) (data : List UInt8)
    (t : Turn Primitive (Option Value)) : (c.afterTurn m data t).turnsLeft = t.turnsLeft := by
  cases t <;> rfl

end CallState

def GetCall.asked (call : GetCall) : Schema.Method × Message :=
  (call.method, call.request)

/-- A round of calls in one context begins with a turn of the first one. -/
lemma Client.round_cons {c : Client σ} {name : String} {state : CallState}
    {context : ItemContext} {s s' : σ} {calls calls' : List (String × CallState)}
    {contexts : Contexts}
    (h : c.round calls [(name, (c.turn state context s).2.1)] (c.turn state context s).2.2 =
      (calls', contexts, s')) :
    c.round ((name, state) :: calls) [(name, context)] s =
      ((name, (c.turn state context s).1) :: calls', contexts, s') := by
  have hlookup : (lookup name [(name, context)]).getD .empty = context := by simp
  have hset : setContext name (c.turn state context s).2.1 [(name, context)] =
      [(name, (c.turn state context s).2.1)] := by simp [setContext]
  simp only [round, hlookup, hset, h]

namespace Exchange

variable {c : Client σ} {s : σ} {e : Exchange σ} {before after : List GetCall} {call : GetCall}

def states (name : String) (calls : List GetCall) : List (String × CallState) :=
  calls.map fun call => (name, call.state)

/-! ## Rounds -/

/-- If no call of the exchange is about to send a batch, then what a call waits for is there. -/
lemma Inv.lookup_ne_none (hinv : e.Inv c s) (hcall : call ∈ e.calls)
    (hle : ∀ other ∈ e.calls, other.state.turnsLeft ≤ 1) {result : Nat}
    (hphase : call.state.phase? = some (.waiting result)) :
    (e.context.loader (c.identity call.method)).results.lookup result ≠ none := by
  have hmethod := (hinv.remembered call hcall).1
  have hload : call.load c s (.waiting result) ∈ loadsOf c s call.method e.calls := by
    obtain ⟨before, after, hcalls⟩ := append_of_mem hcall
    rw [hcalls, loadsOf_of_phase call rfl hphase]
    exact mem_append_right _ mem_cons_self
  refine (hinv.served call.method hmethod).accounted.lookup_ne_none ?_ ?_ hload rfl
  · intro load hload
    obtain ⟨other, hother, -, phase, hphase, rfl⟩ := mem_loadsOf hload
    exact (hinv.sound other hother).held hphase
  · intro load hload
    obtain ⟨other, hother, -, phase, hphase, rfl⟩ := mem_loadsOf hload
    have hone := hle other hother
    rw [CallState.turnsLeft_of_phase hphase] at hone
    cases phase with
    | collecting result =>
      simp only [Phase.turnsLeft] at hone
      omega
    | fresh | fetching | waiting => rfl

/-- A turn brings a call closer to its end if no call is further from it than that. -/
lemma Inv.turnsLeft_turn_le (hrepeat : c.transport.IsRepeatable) (hinv : e.Inv c s)
    (hcalls : e.calls = before ++ call :: after) {n : Nat}
    (hle : ∀ other ∈ e.calls, other.state.turnsLeft ≤ n + 1) :
    (c.turn call.state e.context e.wire).1.turnsLeft ≤ n := by
  have hcall : call ∈ e.calls := by simp [hcalls]
  cases hphase : call.state.phase? with
  | none =>
    cases hdone : call.state with
    | fresh | loading =>
      rw [hdone] at hphase
      cases hphase
    | done r => exact Nat.zero_le n
  | some phase =>
    obtain ⟨t, h⟩ := hinv.turned hrepeat hcalls hphase
    have hstate := congrArg GetCall.state (cons.inj (append_cancel_left h.calls)).1
    change (c.turn call.state e.context e.wire).1 = _ at hstate
    rw [hstate, CallState.turnsLeft_afterTurn]
    have hown := hle call hcall
    rw [CallState.turnsLeft_of_phase hphase] at hown
    refine h.loader.turnsLeft_le hown ?_
    rintro rfl result rfl
    exact hinv.lookup_ne_none hcall hle hphase

section Rounds

variable (hrepeat : c.transport.IsRepeatable) (hnames : (c.methods.map (·.name)).Nodup)

include hrepeat hnames

/-- A round gives one call after the other a turn, and brings all of them closer to their end. -/
lemma Reachable.exists_round (name : String) {n : Nat} (h : Reachable c e)
    (hcalls : e.calls = before ++ after)
    (hbefore : ∀ call ∈ before, call.state.turnsLeft ≤ n)
    (hafter : ∀ call ∈ after, call.state.turnsLeft ≤ n + 1) :
    ∃ (e' : Exchange σ) (after' : List GetCall), Reachable c e' ∧ e'.calls = before ++ after' ∧
      after'.map GetCall.asked = after.map GetCall.asked ∧
      c.round (states name after) [(name, e.context)] e.wire =
        (states name after', [(name, e'.context)], e'.wire) ∧
      ∀ call ∈ e'.calls, call.state.turnsLeft ≤ n := by
  induction after generalizing e before with
  | nil =>
    refine ⟨e, [], h, hcalls, rfl, rfl, ?_⟩
    rw [hcalls, append_nil]
    exact hbefore
  | cons call after ih =>
    have hle : ∀ other ∈ e.calls, other.state.turnsLeft ≤ n + 1 := by
      intro other hother
      rw [hcalls] at hother
      rcases mem_append.mp hother with hother | hother
      · exact (hbefore other hother).trans (Nat.le_succ n)
      · exact hafter other hother
    have hturned := (h.inv hrepeat hnames e.wire).turnsLeft_turn_le hrepeat hcalls hle
    set next : GetCall := { call with state := (c.turn call.state e.context e.wire).1 }
    have hstep : Reachable c (e.turn c before call after) := h.next (.turn e hcalls)
    have hsplit : (e.turn c before call after).calls = (before ++ [next]) ++ after :=
      (append_cons before next after)
    have hbefore' : ∀ other ∈ before ++ [next], other.state.turnsLeft ≤ n := by
      intro other hother
      rcases mem_append.mp hother with hother | hother
      · exact hbefore other hother
      · rw [mem_singleton.mp hother]
        exact hturned
    obtain ⟨e', after', hreach, hcalls', hasked, hround, hdone⟩ := ih hstep hsplit hbefore'
      fun other hother => hafter other (mem_cons_of_mem _ hother)
    refine ⟨e', next :: after', hreach, ?_, ?_, Client.round_cons hround, hdone⟩
    · rw [hcalls', append_assoc, singleton_append]
    · rw [map_cons, map_cons, hasked]
      rfl

/-- If there are enough rounds then all calls are done after them. -/
lemma Reachable.exists_rounds (name : String) (h : Reachable c e) {rounds : Nat}
    (hle : ∀ call ∈ e.calls, call.state.turnsLeft ≤ rounds) :
    ∃ e' : Exchange σ, Reachable c e' ∧
      e'.calls.map GetCall.asked = e.calls.map GetCall.asked ∧
      c.rounds rounds (states name e.calls) [(name, e.context)] e.wire =
        (states name e'.calls, [(name, e'.context)], e'.wire) ∧
      ∀ call ∈ e'.calls, ∃ r, call.state = .done r := by
  induction rounds generalizing e with
  | zero =>
    refine ⟨e, h, rfl, rfl, fun call hcall => ?_⟩
    exact CallState.turnsLeft_eq_zero_iff.mp (Nat.le_zero.mp (hle call hcall))
  | succ rounds ih =>
    unfold Client.rounds
    split_ifs with hall
    · refine ⟨e, h, rfl, rfl, fun call hcall => ?_⟩
      exact CallState.isDone_iff.mp
        (all_eq_true.mp hall (name, call.state) (mem_map_of_mem hcall))
    · obtain ⟨e₁, calls, hreach, hcalls, hasked, hround, hle₁⟩ :=
        h.exists_round hrepeat hnames name (nil_append e.calls).symm (by simp) hle
      obtain rfl : e₁.calls = calls := hcalls
      obtain ⟨e₂, hreach₂, hasked₂, hrounds, hdone⟩ := ih hreach hle₁
      refine ⟨e₂, hreach₂, hasked₂.trans hasked, ?_, hdone⟩
      rw [hround]
      exact hrounds

end Rounds

/-! ## Results -/

/-- A call that is done was given what a batch gave that its request was sent in. -/
lemma Inv.exists_batch (hrepeat : c.transport.IsRepeatable) (hinv : e.Inv c s)
    (hcall : call ∈ e.calls) {r : CallResult} (hdone : call.state = .done r) :
    ∃ keys, (call.method, keys) ∈ e.batches ∧ .bytes (call.data c) ∈ keys ∧
      ∀ s', r = c.shape (c.batchReply call.method keys (call.data c) s') := by
  have hsound := hinv.sound call hcall
  cases hsound with
  | fresh | loading => cases hdone
  | @done m request outcome hdelivered =>
    cases hdone
    obtain ⟨keys, given, hfetched, hanswers⟩ := hdelivered
    obtain ⟨⟨m', keys'⟩, hfiltered, heq⟩ := mem_map.mp hfetched
    obtain ⟨hbatch, hm⟩ := mem_filter.mp hfiltered
    obtain rfl : m' = m := of_decide_eq_true hm
    cases heq
    exact ⟨keys', hbatch, hanswers.mem, fun s' => Client.loaded_of_answers hrepeat s' hanswers⟩

private def thingFile : Descriptor.File :=
  { name := "thing.proto"
    package := "thing"
    dialect := "proto3"
    messages := [{ name := "Thing", fields := [Sample.scalar .uint32 "number" 1] }] }

private def thingSchema : Codec.Schema :=
  match Codec.Schema.ofFiles [thingFile] { context := true } with
  | .ok s => s
  | .error _ => ⟨{}, fun _ => []⟩

private def thing (number : UInt32) : Message :=
  [.plain (.scalar (.uint32 number))]

private def getThing : Schema.Method :=
  ⟨"GetThing", ".thing.Thing", ".thing.Thing", false, false, []⟩

/-- A client over a transport that gives back every request but that of the seventh thing. -/
private def things : Client Unit :=
  ⟨thingSchema, "thing.Things", [getThing], .ofRequest fun _ _ data s =>
    (if data = [8, 7] then .error (.transport "down") else .ok data, s)⟩

private lemma things_isRepeatable : things.transport.IsRepeatable :=
  fun _ _ _ _ _ => rfl

private lemma things_names : (things.methods.map (·.name)).Nodup := by
  decide

/-- Whatever calls are made in a context, and whatever the order of their turns, a call that is
done was given what its request was given in a batch: the first failure of the batch, and what a
direct call gives if the other requests of the batch succeed. All requests of the batch are those
of calls of the same method. Three rounds are enough for all calls to be done. -/
theorem Reachable.answered_by_batch (hrepeat : c.transport.IsRepeatable)
    (hnames : (c.methods.map (·.name)).Nodup) (h : Reachable c e) :
    (∀ call ∈ e.calls, ∀ r, call.state = .done r → ∃ keys,
      (call.method, keys) ∈ e.batches ∧ .bytes (call.data c) ∈ keys ∧
      (∀ key ∈ keys, e.Requested c call.method key) ∧ ∀ s,
        r = c.shape (c.batchReply call.method keys (call.data c) s) ∧
        ((∀ other ∈ e.calls, other.method = call.method → .bytes (other.data c) ∈ keys →
            other.data c ≠ call.data c →
            ∃ message, (c.call other.method other.request s).1 = .ok message) →
          r = c.shape (c.call call.method call.request s).1)) ∧
    ∀ name rounds, 3 ≤ rounds → ∃ e' : Exchange σ, Reachable c e' ∧
      e'.calls.map GetCall.asked = e.calls.map GetCall.asked ∧
      c.rounds rounds (states name e.calls) [(name, e.context)] e.wire =
        (states name e'.calls, [(name, e'.context)], e'.wire) ∧
      ∀ call ∈ e'.calls, ∃ r, call.state = .done r := by
  have hinv := h.inv hrepeat hnames e.wire
  constructor
  · intro call hcall r hdone
    obtain ⟨keys, hbatch, hown, hreply⟩ := hinv.exists_batch hrepeat hcall hdone
    refine ⟨keys, hbatch, hown, hinv.batches _ hbatch, fun s => ⟨hreply s, fun hothers => ?_⟩⟩
    rw [hreply s, Client.batchReply_of_others]
    · rfl
    · intro key hkey hne
      obtain ⟨other, hother, hm, rfl⟩ := hinv.batches _ hbatch key hkey
      obtain ⟨message, hmessage⟩ := hothers other hother hm hkey hne
      have hmethod : call.method = other.method := hm.symm
      rw [hmethod]
      exact ⟨message, hmessage⟩
  · intro name rounds hrounds
    exact h.exists_rounds hrepeat hnames name fun call _ => call.state.turnsLeft_le.trans hrounds

/-- Two calls are made together. A direct call of the first one succeeds, but it is given the
failure of the second one. -/
theorem given_failure_of_other :
    ∃ (c : Client Unit) (m : Schema.Method) (a b : Message) (r : CallResult),
      Codec.Schema.ofFiles [thingFile] { context := true } = .ok c.schema ∧
      c.transport.IsRepeatable ∧ (c.methods.map (·.name)).Nodup ∧ m ∈ c.methods ∧
      c.remembers m = true ∧ (c.call m a ()).1 = .ok a ∧
      r = c.shape (c.call m b ()).1 ∧ r ≠ c.shape (c.call m a ()).1 ∧
      (c.together [("x", .method m [a]), ("x", .method m [b])] [("x", .empty)] ()).1 =
        [("x", .done r), ("x", .done r)] := by
  refine ⟨things, getThing, thing 5, thing 7, .one (.error (.transport "down")), ?_,
    things_isRepeatable, things_names, List.mem_singleton_self _, rfl, rfl, rfl, ?_, rfl⟩
  · rfl
  · intro heq
    cases heq

/-- Two calls of things that are there are given these. -/
theorem Reachable.answered_by_batch_things : ∃ (c : Client Unit) (e e' : Exchange Unit),
    c.transport.IsRepeatable ∧ (c.methods.map (·.name)).Nodup ∧
    Reachable c e ∧ Reachable c e' ∧
    e'.calls.map GetCall.asked = [(getThing, thing 5), (getThing, thing 6)] ∧
    c.rounds 3 (states "x" e.calls) [("x", e.context)] e.wire =
      (states "x" e'.calls, [("x", e'.context)], e'.wire) ∧
    ∀ call ∈ e'.calls, call.state = .done (c.shape (.ok call.request)) := by
  have hmem : getThing ∈ things.methods := List.mem_singleton_self _
  have he : Reachable things
      (((Exchange.start ()).begin getThing (thing 5)).begin getThing (thing 6)) :=
    ((Reachable.start ()).next (.begin _ _ hmem rfl)).next (.begin _ _ hmem rfl)
  obtain ⟨e', he', hasked, hrounds, hdone⟩ :=
    (he.answered_by_batch things_isRepeatable things_names).2 "x" 3 le_rfl
  have hok : ∀ call ∈ e'.calls,
      (things.call call.method call.request ()).1 = .ok call.request := by
    intro call hcall
    have hmem : call.asked ∈ e'.calls.map GetCall.asked := List.mem_map_of_mem hcall
    rw [hasked] at hmem
    obtain ⟨m, request, state⟩ := call
    rcases List.mem_cons.mp hmem with heq | hmem
    · cases heq
      rfl
    · cases List.mem_singleton.mp hmem
      rfl
  refine ⟨things, _, e', things_isRepeatable, things_names, he, he', hasked, hrounds, ?_⟩
  intro call hcall
  obtain ⟨r, hstate⟩ := hdone call hcall
  obtain ⟨keys, -, -, -, hreply⟩ :=
    (he'.answered_by_batch things_isRepeatable things_names).1 call hcall r hstate
  rw [hstate, (hreply ()).2 fun other hother _ _ _ => ⟨_, hok other hother⟩, hok call hcall]

end Exchange

end Protobuf.Rpc
