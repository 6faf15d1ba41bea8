import Protobuf.Proofs.Rpc.Senders
import Protobuf.Rpc.Session

/-!
# What loads are given

The loads of a session take turns in any order, may be dropped at any point, and any
key may be cleared in between. `Accounted` ties the loader to the phases of its loads;
every action preserves it. So no load waits for a result that nobody settles, no
failure stays in the cache, and what a load returns was said of its key by one call.
-/

open Protobuf.Rpc.Loader

namespace Protobuf.Rpc

open List

variable {K V : Type}

namespace Phase

/-- The batch that a load in this phase has taken. -/
def held : Phase K V → List (Registration K)
  | .fetching _ batch _ => batch
  | _ => []

/-- Whether a load in this phase lets others join its batch. -/
def isCollecting : Phase K V → Bool
  | .collecting _ => true
  | _ => false

def result? : Phase K V → Option Nat
  | .fresh => none
  | .collecting result | .fetching result _ _ | .waiting result => some result

/-- The phase of a load of the key agrees with the loader and with the calls. -/
def Ok (l : Loader K V) (held : List (Registration K)) (calls : List (BatchCall K V)) (key : K) :
    Phase K V → Prop
  | .fresh => True
  | .collecting result => (key, result) ∈ l.pending
  | .fetching result batch fetch =>
    (key, result) ∈ batch ∧ (batch.map Prod.fst, fetch.outcome?) ∈ calls
  | .waiting result => l.Answerable held calls key result

lemma Ok.frame {l l' : Loader K V} {held held' : List (Registration K)}
    {calls calls' : List (BatchCall K V)} {key : K} {phase : Phase K V}
    (h : phase.Ok l held calls key)
    (hpending : phase.isCollecting → ∀ x ∈ l.pending, x ∈ l'.pending)
    (hcalls : calls ⊆ calls')
    (hanswerable : ∀ result, l.Answerable held calls key result →
      l'.Answerable held' calls' key result) :
    phase.Ok l' held' calls' key := by
  cases phase with
  | fresh => trivial
  | collecting result => exact hpending rfl _ h
  | fetching result batch fetch => exact ⟨h.1, hcalls h.2⟩
  | waiting result => exact hanswerable result h

end Phase

def heldBy (loads : List (LiveLoad K V)) : List (Registration K) :=
  loads.flatMap (·.phase.held)

/-- The loader agrees with some loads and with one more, which has taken `hand` and of whose batch
`collectors` says whether it is being collected. -/
structure Accounted (l : Loader K V) (loads : List (LiveLoad K V)) (hand : List (Registration K))
    (collectors : Nat) (calls : List (BatchCall K V)) : Prop where
  loader : l.Inv (hand ++ heldBy loads) calls
  collecting :
    loads.countP (·.phase.isCollecting) + collectors = if l.isOpen then 1 else 0
  phases : ∀ load ∈ loads, load.phase.Ok l (hand ++ heldBy loads) calls load.key

namespace Accounted

variable {l : Loader K V} {loads before after : List (LiveLoad K V)} {load : LiveLoad K V}
  {hand batch : List (Registration K)} {collectors : Nat} {calls : List (BatchCall K V)}

lemma focus_iff :
    Accounted l (before ++ load :: after) [] 0 calls ↔
      Accounted l (before ++ after) load.phase.held load.phase.isCollecting.toNat calls ∧
        load.phase.Ok l (load.phase.held ++ heldBy (before ++ after)) calls load.key := by
  have hperm : (heldBy (before ++ load :: after)).Perm
      (load.phase.held ++ heldBy (before ++ after)) := by
    simp only [heldBy, flatMap_append, flatMap_cons]
    exact perm_append_comm_assoc _ _ _
  have hcount : (before ++ load :: after).countP (·.phase.isCollecting) =
      (before ++ after).countP (·.phase.isCollecting) + load.phase.isCollecting.toNat := by
    cases hcollecting : load.phase.isCollecting <;>
      simp [countP_append, hcollecting, Nat.add_assoc]
  have hmem : ∀ x, x ∈ before ++ load :: after ↔ x = load ∨ x ∈ before ++ after := by grind
  have hframe : ∀ {held held' : List (Registration K)}, held.Perm held' →
      ∀ x : LiveLoad K V, x.phase.Ok l held calls x.key → x.phase.Ok l held' calls x.key :=
    fun hp x hx => hx.frame (fun _ _ h => h) (List.Subset.refl _) fun _ h => h.perm hp
  constructor
  · intro h
    have hphases : ∀ x ∈ before ++ load :: after, _ := fun x hx => hframe hperm x (h.phases x hx)
    exact ⟨⟨h.loader.perm hperm, by rw [← hcount]; exact h.collecting,
      fun x hx => hphases x ((hmem x).mpr (.inr hx))⟩, hphases load ((hmem load).mpr (.inl rfl))⟩
  · rintro ⟨h, hload⟩
    refine ⟨h.loader.perm hperm.symm, by rw [hcount]; exact h.collecting, fun x hx => ?_⟩
    obtain rfl | hx := (hmem x).mp hx
    · exact hframe hperm.symm _ hload
    · exact hframe hperm.symm x (h.phases x hx)

lemma mono {calls' : List (BatchCall K V)} (h : Accounted l loads hand collectors calls)
    (hcalls : calls ⊆ calls') : Accounted l loads hand collectors calls' where
  loader := h.loader.mono hcalls
  collecting := h.collecting
  phases load hload := (h.phases load hload).frame (fun _ _ hx => hx) hcalls
    fun _ hr => hr.mono hcalls

lemma take (h : Accounted l loads [] 1 calls) :
    Accounted l.takePending.2 loads l.pending 0 calls := by
  have hcount := h.collecting
  have hzero : loads.countP (·.phase.isCollecting) = 0 := by
    split at hcount <;> omega
  refine ⟨h.loader.takePending, by simpa [takePending] using hzero, fun load hload => ?_⟩
  have hnot := countP_eq_zero.mp hzero load hload
  exact (h.phases load hload).frame (fun hc => absurd hc hnot) (List.Subset.refl _)
    fun _ hr => hr.takePending

lemma release {news : List (Nat × Option (Except RpcError V))}
    {cache : List (Registration K)} (h : Accounted l loads batch 0 calls)
    (hrelease : l.Release calls batch news cache) :
    Accounted { l with cache, results := news ++ l.results } loads [] 0 calls where
  loader := h.loader.release hrelease
  collecting := h.collecting
  phases load hload := (h.phases load hload).frame (fun _ _ hx => hx) (List.Subset.refl _)
    fun _ hr => hr.release h.loader hrelease

variable [DecidableEq K]

lemma evict (h : Accounted l loads hand collectors calls) (keys : List K) :
    Accounted (l.evict keys) loads hand collectors calls where
  loader := h.loader.evict keys
  collecting := h.collecting
  phases load hload := (h.phases load hload).frame (fun _ _ hx => hx) (List.Subset.refl _)
    fun _ hr => hr.evict keys

lemma register (h : Accounted l loads [] 0 calls) (key : K) :
    Accounted (l.register key).loader loads [] (l.register key).opens.toNat calls := by
  refine ⟨h.loader.register key, ?_, fun load hload => ?_⟩
  · have hcount := h.collecting
    cases hopens : (l.register key).opens with
    | true =>
      obtain ⟨hclosed, hopen, -⟩ := register_of_opens hopens
      simp only [hclosed] at hcount
      simpa [hopen] using hcount
    | false => simpa [register_of_not_opens hopens] using hcount
  · exact (h.phases load hload).frame (fun _ => register_pending l key) (List.Subset.refl _)
      fun _ hr => hr.register key

lemma abandon (h : Accounted l loads batch 0 calls) :
    Accounted (l.abandon batch) loads [] 0 calls :=
  h.release (release_abandon l calls batch)

lemma settle (h : Accounted l loads batch 0 calls) {outcome : Except RpcError (List V)}
    (hcall : (batch.map Prod.fst, some outcome) ∈ calls) :
    Accounted (l.settle batch outcome) loads [] 0 calls := by
  rw [settle_eq]
  exact h.release (release_settle l hcall)

/-- A load that is dropped leaves nothing behind that is still to come. -/
lemma drop {phase : Phase K V}
    (h : Accounted l loads phase.held phase.isCollecting.toNat calls) :
    Accounted (l.drop phase) loads [] 0 calls := by
  cases phase with
  | fresh => exact h
  | collecting result => exact h.take.abandon
  | fetching result batch fetch => exact h.abandon
  | waiting result => exact h

end Accounted

/-- The result that a load is to return has a sender until it is settled. -/
lemma Phase.Ok.sender {l : Loader K V} {loads : List (LiveLoad K V)}
    {calls : List (BatchCall K V)} {load : LiveLoad K V} {result : Nat}
    (h : load.phase.Ok l (heldBy loads) calls load.key) (hload : load ∈ loads)
    (hresult : load.phase.result? = some result) (hnone : l.results.lookup result = none) :
    (load.key, result) ∈ l.pending ++ heldBy loads := by
  rcases hphase : load.phase with _ | r | ⟨r, batch, fetch⟩ | r
  all_goals rw [hphase] at h hresult; cases hresult
  · exact mem_append_left _ h
  · have hheld : (load.key, result) ∈ load.phase.held := by rw [hphase]; exact h.1
    exact mem_append_right _ (mem_flatMap_of_mem hload hheld)
  · exact Loader.Answerable.sender h hnone

/-! ## One turn -/

/-- After a turn of a load of the key: the load goes on beside the others, or is done with what a
call said of its key. -/
def Turn.Ok (l : Loader K V) (loads : List (LiveLoad K V)) (calls : List (BatchCall K V))
    (key : K) : Turn K V → Prop
  | .pending phase => Accounted l loads phase.held phase.isCollecting.toNat calls ∧
      phase.Ok l (phase.held ++ heldBy loads) calls key
  | .done outcome => Accounted l loads [] 0 calls ∧ Delivered calls key outcome

section Turn

variable [DecidableEq K] {l : Loader K V} {loads : List (LiveLoad K V)}
  {batch : List (Registration K)} {calls : List (BatchCall K V)} {key : K} {result : Nat}

lemma Accounted.start (h : Accounted l loads [] 0 calls) (key : K) :
    (l.start key).1.Ok (l.start key).2 loads calls key := by
  have hregister := h.register key
  obtain ⟨hopens, heq⟩ | ⟨hopens, heq⟩ | ⟨hopens, outcome, heq, hdelivered⟩ :=
    start_cases h.loader key
  all_goals rw [heq]; rw [hopens] at hregister
  · exact ⟨hregister, (register_of_opens hopens).2.2⟩
  · exact ⟨hregister, hregister.loader.cached _ (register_cached l key)⟩
  · exact ⟨hregister, hdelivered⟩

lemma Accounted.wake (h : Accounted l loads [] 0 calls)
    (hkey : l.Answerable (heldBy loads) calls key result) :
    (l.wake key result).1.Ok (l.wake key result).2 loads calls key := by
  obtain heq | ⟨outcome, heq, hdelivered⟩ | heq := wake_cases h.loader hkey
  · rw [heq]
    exact ⟨h, hkey⟩
  · rw [heq]
    exact ⟨h, hdelivered⟩
  · rw [heq]
    exact h.start key

lemma Accounted.proceed (h : Accounted l loads batch 0 calls) {fetch : Fetch V}
    (hkey : (key, result) ∈ batch)
    (hcall : (batch.map Prod.fst, fetch.outcome?) ∈ calls) :
    (l.proceed result batch fetch).1.Ok (l.proceed result batch fetch).2 loads calls key := by
  obtain ⟨rest, heq, hrest⟩ | ⟨outcome, own, houtcome, heq, hown⟩ :=
    l.proceed_cases hkey fetch
  · rw [heq]
    exact ⟨h, hkey, hrest ▸ hcall⟩
  · rw [heq]
    rw [houtcome] at hcall
    have hsender : (key, result) ∈ l.pending ++ (batch ++ heldBy loads) := by simp [hkey]
    have hbefore : l.Answerable (batch ++ heldBy loads) calls key result :=
      ⟨fun _ => hsender, fun own hsome => by simp [h.loader.unsettled _ hsender] at hsome⟩
    have hafter := hbefore.release h.loader (release_settle l hcall)
    rw [← settle_eq] at hafter
    exact ⟨h.settle hcall, hafter.delivered own hown⟩

/-- The call that a load makes in its next turn, if it has a batch to take. -/
def LiveLoad.call (load : LiveLoad K V) (l : Loader K V) (batches : List (List K)) :
    List (BatchCall K V) :=
  let keys := l.pending.map Prod.fst
  if load.phase.isCollecting then [(keys, (load.fetch (batches.length + 1) keys).outcome?)] else []

lemma Accounted.step {load : LiveLoad K V} (batches : List (List K))
    (h : Accounted l loads load.phase.held load.phase.isCollecting.toNat calls)
    (hphase : load.phase.Ok l (load.phase.held ++ heldBy loads) calls load.key) :
    (Session.step load l batches).1.Ok (Session.step load l batches).2.1 loads
        (load.call l batches ++ calls) load.key ∧
      (Session.step load l batches).2.2 = (load.call l batches).map Prod.fst ++ batches := by
  obtain ⟨id, key, fetch, phase⟩ := load
  cases phase with
  | fresh => exact ⟨h.start key, rfl⟩
  | waiting result => exact ⟨h.wake hphase, rfl⟩
  | fetching result batch f => exact ⟨h.proceed hphase.1 hphase.2, rfl⟩
  | collecting result =>
    -- To take the batch and to begin fetching it is one turn.
    exact ⟨(h.take.mono (subset_cons_self _ _)).proceed hphase mem_cons_self, rfl⟩

end Turn

/-! ## Histories -/

/-- What can happen to a session. -/
inductive Action (K V : Type) where
  | begin (id : String) (key : K) (fetch : Nat → List K → Fetch V)
  | poll (id : String)
  | drop (id : String)
  | clear (key : K)
  | settle (rounds : Nat)

/-- What loads return in an action, by name, and the session after it. -/
def Session.act [DecidableEq K] (s : Session K V) :
    Action K V → List (String × Except RpcError V) × Session K V
  | .begin id key fetch => ([], s.begin id key fetch)
  | .poll id =>
    match s.poll id with
    | (.done outcome, s) => ([(id, outcome)], s)
    | (_, s) => ([], s)
  | .drop id => ([], s.drop id)
  | .clear key => ([], s.clear key)
  | .settle rounds => Session.settle rounds s

/-- What loads return in the course of some actions, and the session after them. -/
def Session.run [DecidableEq K] (actions : List (Action K V)) :
    List (String × Except RpcError V) × Session K V :=
  actions.foldl (fun (done, s) action => (done ++ (s.act action).1, (s.act action).2)) ([], .empty)

/-- A session with the calls that were made, the last first, and the loads that are done with what
they returned. -/
structure History (K V : Type) where
  session : Session K V
  calls : List (BatchCall K V)
  returned : List (LiveLoad K V × Except RpcError V)

namespace History

variable [DecidableEq K]

/-- Give a load between others a turn. The first component is what is left of it. -/
def turn (h : History K V) (before : List (LiveLoad K V)) (load : LiveLoad K V)
    (after : List (LiveLoad K V)) : List (LiveLoad K V) × History K V :=
  let calls := load.call h.session.loader h.session.batches ++ h.calls
  match Session.step load h.session.loader h.session.batches with
  | (.pending phase, l, batches) =>
    ([{ load with phase }],
      ⟨⟨l, before ++ { load with phase } :: after, batches⟩, calls, h.returned⟩)
  | (.done outcome, l, batches) =>
    ([], ⟨⟨l, before ++ after, batches⟩, calls, h.returned ++ [(load, outcome)]⟩)

/-- Give each load but the first ones a turn. -/
def round (h : History K V) (before : List (LiveLoad K V)) : List (LiveLoad K V) → History K V
  | [] => h
  | load :: after =>
    let (left, h) := h.turn before load after
    h.round (before ++ left) after

def settle : (rounds : Nat) → History K V → History K V
  | 0, h => h
  | rounds + 1, h => settle rounds (h.round [] h.session.loads)

def act (h : History K V) : Action K V → History K V
  | .poll id =>
    match Session.split id h.session.loads with
    | none => h
    | some (before, load, after) => (h.turn before load after).2
  | .settle rounds => settle rounds h
  | action => { h with session := (h.session.act action).2 }

def run (actions : List (Action K V)) : History K V :=
  actions.foldl act ⟨.empty, [], []⟩

omit [DecidableEq K] in
/-- What the loads of a history returned, by name. -/
def answers (h : History K V) : List (String × Except RpcError V) :=
  h.returned.map fun (load, outcome) => (load.id, outcome)

/-! A history is a record of what the session does: it has the same loads, and they return the
same. -/

variable {loads before : List (LiveLoad K V)} {h : History K V}

omit [DecidableEq K] in
lemma split_eq_some {id : String} {after : List (LiveLoad K V)} {load : LiveLoad K V}
    (h : Session.split id loads = some (before, load, after)) :
    load.id = id ∧ loads = before ++ load :: after := by
  induction loads generalizing before with
  | nil => cases h
  | cons first loads ih =>
    simp only [Session.split] at h
    split at h
    · next hid =>
      cases h
      exact ⟨hid, rfl⟩
    · obtain ⟨⟨before', load', after'⟩, hsplit, heq⟩ := Option.map_eq_some_iff.mp h
      cases heq
      obtain ⟨hid, hloads⟩ := ih hsplit
      exact ⟨hid, by rw [hloads, cons_append]⟩

lemma round_eq (h : History K V) (hloads : h.session.loads = before ++ loads) :
    (h.round before loads).session =
        ⟨(Session.round loads h.session.loader h.session.batches).loader,
          before ++ (Session.round loads h.session.loader h.session.batches).left,
          (Session.round loads h.session.loader h.session.batches).batches⟩ ∧
      (h.round before loads).answers =
        h.answers ++ (Session.round loads h.session.loader h.session.batches).done := by
  induction loads generalizing h before with
  | nil => simp [round, Session.round, ← hloads]
  | cons load after ih =>
    rcases hstep : Session.step load h.session.loader h.session.batches with
      ⟨phase | outcome, l, batches⟩
    all_goals
      simp only [round, turn, Session.round, hstep]
      refine ⟨(ih _ (by simp)).1.trans ?_, (ih _ (by simp)).2.trans ?_⟩ <;> simp [answers]

lemma settle_eq (rounds : Nat) (h : History K V) :
    (settle rounds h).session = (Session.settle rounds h.session).2 ∧
      (settle rounds h).answers = h.answers ++ (Session.settle rounds h.session).1 := by
  induction rounds generalizing h with
  | zero => simp [settle, Session.settle]
  | succ rounds ih =>
    obtain ⟨hsession, hanswers⟩ := ih (h.round [] h.session.loads)
    obtain ⟨hround, hdone⟩ := round_eq h (nil_append h.session.loads).symm
    rw [settle, hsession, hanswers, hround, hdone]
    simp [Session.settle]

lemma act_eq (h : History K V) (action : Action K V) :
    (h.act action).session = (h.session.act action).2 ∧
      (h.act action).answers = h.answers ++ (h.session.act action).1 := by
  cases action with
  | begin | drop | clear => simp [act, answers, Session.act]
  | settle rounds => exact settle_eq rounds h
  | poll id =>
    simp only [act, Session.act, Session.poll]
    rcases hsplit : Session.split id h.session.loads with _ | ⟨before, load, after⟩
    · simp
    · have hid := (split_eq_some hsplit).1
      rcases hstep : Session.step load h.session.loader h.session.batches with
        ⟨phase | outcome, l, batches⟩
      all_goals simp [turn, hstep, answers, hid]

lemma run_eq (actions : List (Action K V)) :
    Session.run actions = ((run actions).answers, (run actions).session) := by
  induction actions using reverseRecOn with
  | nil => rfl
  | append_singleton actions action ih =>
    obtain ⟨hsession, hanswers⟩ := act_eq (run actions) action
    simp only [Session.run, run, foldl_append, foldl_cons, foldl_nil] at ih ⊢
    rw [ih]
    exact (Prod.ext hanswers hsession).symm

/-- What every action preserves. -/
structure Inv (h : History K V) : Prop where
  accounted : Accounted h.session.loader h.session.loads [] 0 h.calls
  batches : h.calls.map Prod.fst = h.session.batches
  returned : ∀ x ∈ h.returned, Delivered h.calls x.1.key x.2

lemma Inv.turn (hinv : h.Inv) {after : List (LiveLoad K V)} {load : LiveLoad K V}
    (hloads : h.session.loads = before ++ load :: after) :
    (h.turn before load after).2.Inv ∧
      (h.turn before load after).2.session.loads =
        before ++ (h.turn before load after).1 ++ after := by
  have haccounted := hinv.accounted
  rw [hloads] at haccounted
  obtain ⟨hothers, hphase⟩ := Accounted.focus_iff.mp haccounted
  obtain ⟨hturn, hbatches⟩ := hothers.step h.session.batches hphase
  have hreturned := fun x hx => (hinv.returned x hx).mono
    (subset_append_right (load.call h.session.loader h.session.batches) h.calls)
  rw [← hinv.batches, ← map_append, hinv.batches] at hbatches
  unfold History.turn
  split
  · next phase l batches heq =>
    rw [heq] at hturn hbatches
    exact ⟨⟨Accounted.focus_iff.mpr hturn, hbatches.symm, hreturned⟩, by simp⟩
  · next outcome l batches heq =>
    rw [heq] at hturn hbatches
    refine ⟨⟨hturn.1, hbatches.symm, fun x hx => ?_⟩, by simp⟩
    obtain hx | hx := mem_append.mp hx
    · exact hreturned x hx
    · cases mem_singleton.mp hx
      exact hturn.2

lemma Inv.round (hinv : h.Inv) (hloads : h.session.loads = before ++ loads) :
    (h.round before loads).Inv := by
  induction loads generalizing h before with
  | nil => exact hinv
  | cons load after ih =>
    obtain ⟨hturn, hleft⟩ := hinv.turn hloads
    exact ih hturn hleft

lemma Inv.settle (hinv : h.Inv) (rounds : Nat) : (History.settle rounds h).Inv := by
  induction rounds generalizing h with
  | zero => exact hinv
  | succ rounds ih => exact ih (hinv.round rfl)

lemma Inv.act (hinv : h.Inv) (action : Action K V) : (h.act action).Inv := by
  cases action with
  | settle rounds => exact hinv.settle rounds
  | clear key => exact ⟨hinv.accounted.evict [key], hinv.batches, hinv.returned⟩
  | begin id key fetch =>
    refine ⟨Accounted.focus_iff.mpr ⟨?_, trivial⟩, hinv.batches, hinv.returned⟩
    rw [append_nil]
    exact hinv.accounted
  | poll id =>
    simp only [History.act]
    split
    · exact hinv
    · next hsplit => exact (hinv.turn (split_eq_some hsplit).2).1
  | drop id =>
    simp only [History.act, Session.act, Session.drop]
    split
    · exact hinv
    · next before load after hsplit =>
      have haccounted := hinv.accounted
      rw [(split_eq_some hsplit).2] at haccounted
      exact ⟨(Accounted.focus_iff.mp haccounted).1.drop, hinv.batches, hinv.returned⟩

lemma Inv.run (actions : List (Action K V)) : (History.run actions).Inv := by
  have hempty : (⟨.empty, [], []⟩ : History K V).Inv :=
    ⟨⟨Loader.Inv.empty, rfl, by simp [Session.empty]⟩, rfl, by simp⟩
  unfold History.run
  exact foldlRecOn actions History.act hempty fun _ hinv action _ => hinv.act action

/-- Whatever happens to a session, a load that returns a value was given it by a call that had its
key at the position of the value and as many values as keys; and a load that returns an error had
its key in a call that gave this error, or the wrong number of values. None is canceled unless a
call gave that as its error. -/
theorem returned_by_call (actions : List (Action K V)) :
    Session.run actions = ((run actions).answers, (run actions).session) ∧
    (run actions).calls.map Prod.fst = (run actions).session.batches ∧
    (∀ load v, (load, .ok v) ∈ (run actions).returned →
      ∃ (keys : List K) (values : List V) (i : Nat),
        (keys, some (.ok values)) ∈ (run actions).calls ∧ values.length = keys.length ∧
        keys[i]? = some load.key ∧ values[i]? = some v) ∧
    (∀ load e, (load, .error e) ∈ (run actions).returned →
      ∃ (keys : List K) (outcome : Except RpcError (List V)),
        (keys, some outcome) ∈ (run actions).calls ∧ load.key ∈ keys ∧
        (outcome = .error e ∨ ∃ values, outcome = .ok values ∧ keys.length ≠ values.length ∧
          e = .batchMismatch keys.length values.length)) ∧
    ∀ load, (load, .error .canceled) ∈ (run actions).returned →
      ∃ keys, (keys, some (.error .canceled)) ∈ (run actions).calls ∧ load.key ∈ keys := by
  have hinv := Inv.run actions
  refine ⟨run_eq actions, hinv.batches, ?_, ?_, ?_⟩
  · intro load v hmem
    obtain ⟨keys, outcome, hcall, hanswers⟩ := hinv.returned _ hmem
    cases hanswers with
    | value houtcome hlength hkey hvalue =>
      subst houtcome
      exact ⟨keys, _, _, hcall, hlength, hkey, hvalue⟩
  · intro load e hmem
    obtain ⟨keys, outcome, hcall, hanswers⟩ := hinv.returned _ hmem
    cases hanswers with
    | failure houtcome hkey => exact ⟨keys, outcome, hcall, hkey, .inl houtcome⟩
    | mismatch houtcome hlength hkey =>
      exact ⟨keys, outcome, hcall, hkey, .inr ⟨_, houtcome, hlength.symm, rfl⟩⟩
  · intro load hmem
    obtain ⟨keys, outcome, hcall, hanswers⟩ := hinv.returned _ hmem
    cases hanswers with
    | failure houtcome hkey =>
      subst houtcome
      exact ⟨keys, hcall, hkey⟩

-- The load that opened the batch is dropped; the one that had joined it fetches its key itself.
example :
    let double : Nat → List Nat → Fetch Nat := fun _ keys => .after 0 (.ok (keys.map (· * 2)))
    (Session.run [.begin "a" 1 double, .begin "b" 2 double, .poll "a", .poll "b", .drop "a",
      .poll "b", .poll "b"]).1 = [("b", .ok 4)] := rfl

end History

namespace Session

variable [DecidableEq K]

/-- The registrations through which results are still to be settled. -/
def senders (s : Session K V) : List (Registration K) :=
  s.loader.pending ++ heldBy s.loads

/-- Whatever happens to a session, a batch is open as long as keys are collected for it and exactly
one load collects them; a result that a load is to return or that is cached, and that is not
settled, has exactly one sender, which is in the open batch or in one that a live load fetches; and
nothing but values and results with a sender is cached. -/
theorem run_strands_no_load (actions : List (Action K V)) :
    let s := (run actions).2
    ((s.loader.isOpen = true ↔ s.loader.pending ≠ []) ∧
      s.loads.countP (·.phase.isCollecting) = if s.loader.isOpen then 1 else 0) ∧
    (∀ key result,
      ((∃ load ∈ s.loads, load.key = key ∧ load.phase.result? = some result) ∨
        (key, result) ∈ s.loader.cache) →
      s.loader.results.lookup result = none →
      (key, result) ∈ s.senders ∧ (s.senders.map Prod.snd).count result = 1) ∧
    ∀ entry ∈ s.loader.cache, s.loader.results.lookup entry.2 = none ∨
      ∃ v, s.loader.results.lookup entry.2 = some (some (.ok v)) := by
  intro s
  have hinv : Accounted s.loader s.loads [] 0 (History.run actions).calls := by
    have h := (History.Inv.run actions).accounted
    rwa [show (History.run actions).session = s from
      (congrArg Prod.snd (History.run_eq actions)).symm] at h
  refine ⟨⟨hinv.loader.open_iff, hinv.collecting⟩, ?_, ?_⟩
  · intro key result hneeded hnone
    have hsender : (key, result) ∈ s.senders := by
      obtain ⟨load, hload, rfl, hresult⟩ | hcached := hneeded
      · exact (hinv.phases load hload).sender hload hresult hnone
      · exact (hinv.loader.cached _ hcached).sender hnone
    exact ⟨hsender, List.count_eq_one_of_mem hinv.loader.nodup (List.mem_map_of_mem hsender)⟩
  · intro entry hentry
    cases hlookup : s.loader.results.lookup entry.2 with
    | none => exact .inl rfl
    | some settled =>
      obtain ⟨v, rfl⟩ := hinv.loader.sound entry hentry settled hlookup
      exact .inr ⟨v, rfl⟩

end Session

end Protobuf.Rpc
