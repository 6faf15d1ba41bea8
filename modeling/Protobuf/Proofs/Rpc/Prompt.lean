import Protobuf.Proofs.Rpc.Chronicle

/-!
# Batches that are fetched within a turn

A load that takes its batch is done in the same turn if the fetch ends at once. Then no
load holds a batch between its turns, and as long as none is dropped no result is given
up. `PromptTurn` says what a turn can do under these conditions. A load is done after
three turns if the other loads take theirs as well.
-/

open Protobuf.Rpc.Loader

namespace Protobuf.Rpc

variable {K V : Type}

/-- Every batch that the load takes is fetched at once. -/
def LiveLoad.IsPrompt (load : LiveLoad K V) : Prop :=
  ∀ number keys, ∃ outcome, load.fetch number keys = .after 0 outcome

def Loader.KeepsResults (l : Loader K V) : Prop :=
  ∀ x ∈ l.results, x.2 ≠ none

/-- The number of turns that a load in this phase needs at most. -/
def Phase.turnsLeft : Phase K V → Nat
  | .fresh => 3
  | .collecting _ | .fetching .. => 2
  | .waiting _ => 1

/-- The number of turns that a load needs at most after a turn. -/
def Turn.turnsLeft : Turn K V → Nat
  | .pending phase => phase.turnsLeft
  | .done _ => 0

section

variable [DecidableEq K]

/-- What a turn of a load of the key in a phase leads to, and what it leaves of the loader. -/
inductive PromptTurn (l : Loader K V) (key : K) : Phase K V → Turn K V → Loader K V → Prop
  /-- It registers its key, and collects a batch or waits. -/
  | registers {phase : Phase K V} (hphase : phase = .collecting l.next ∨ phase = .waiting l.next) :
      PromptTurn l key .fresh (.pending phase)
        { l with
          cache := (key, l.next) :: l.cache
          pending := l.pending ++ [(key, l.next)]
          isOpen := true
          next := l.next + 1 }
  /-- It shares the result of another load. -/
  | shares {result : Nat} : PromptTurn l key .fresh (.pending (.waiting result)) l
  | waits {result : Nat} (hresult : l.results.lookup result = none) :
      PromptTurn l key (.waiting result) (.pending (.waiting result)) l
  | returns {phase : Phase K V} {outcome : Except RpcError V} :
      PromptTurn l key phase (.done outcome) l
  /-- It takes the batch that it collected and settles it. -/
  | settles {result : Nat} {outcome : Except RpcError (List V)} {own : Except RpcError V} :
      PromptTurn l key (.collecting result) (.done own)
        (l.takePending.2.settle l.pending outcome)

omit [DecidableEq K] in
private lemma mem_of_lookup_results {l : Loader K V} {result : Nat}
    {settled : Option (Except RpcError V)} (h : l.results.lookup result = some settled) :
    (result, settled) ∈ l.results := by
  obtain ⟨before, after, hresults, -⟩ := List.lookup_eq_some_iff.mp h
  rw [hresults]
  simp

lemma Loader.exists_proceed (l : Loader K V) (result : Nat) (batch : List (Registration K))
    (outcome : Except RpcError (List V)) :
    ∃ own, l.proceed result batch (.after 0 outcome) = (.done own, l.settle batch outcome) := by
  dsimp only [proceed]
  split
  · exact ⟨_, rfl⟩
  · exact ⟨_, rfl⟩

/-- Every turn is of one of these kinds. -/
lemma LiveLoad.promptTurn {l : Loader K V} {load : LiveLoad K V}
    {held : List (Registration K)} {calls : List (BatchCall K V)} (batches : List (List K))
    (hprompt : load.IsPrompt) (hkeeps : l.KeepsResults) (hheld : load.phase.held = [])
    (h : l.Inv held calls) (hphase : load.phase.Ok l held calls load.key) :
    PromptTurn l load.key load.phase (Session.step load l batches).1
      (Session.step load l batches).2.1 := by
  obtain ⟨id, key, fetch, phase⟩ := load
  cases phase with
  | fresh =>
    change PromptTurn l key .fresh (l.start key).1 (l.start key).2
    cases hcached : l.cache.lookup key with
    | some result =>
      obtain heq | ⟨outcome, -, heq⟩ := start_of_cached h hcached
      · rw [heq]
        exact .shares
      · rw [heq]
        exact .returns
    | none =>
      obtain ⟨phase, hphase, heq⟩ := start_of_not_cached h hcached
      rw [heq]
      exact .registers hphase
  | waiting result =>
    change PromptTurn l key (.waiting result) (l.wake key result).1 (l.wake key result).2
    unfold wake
    cases hlookup : l.results.lookup result with
    | none => exact .waits hlookup
    | some settled =>
      cases settled with
      | some outcome => exact .returns
      | none => exact absurd rfl (hkeeps _ (mem_of_lookup_results hlookup))
  | fetching result batch fetch =>
    -- A load that fetches holds the registration of its own key.
    have hmem := hphase.1
    obtain rfl : batch = [] := hheld
    cases hmem
  | collecting result =>
    obtain ⟨outcome, houtcome⟩ := hprompt (batches.length + 1) (l.pending.map Prod.fst)
    obtain ⟨own, hown⟩ := l.takePending.2.exists_proceed result l.pending outcome
    have hstep : Session.step ⟨id, key, fetch, .collecting result⟩ l batches =
        (.done own, l.takePending.2.settle l.pending outcome,
          l.pending.map Prod.fst :: batches) := by
      dsimp only at houtcome
      simp only [Session.step, turn, houtcome, takePending] at hown ⊢
      rw [hown]
    rw [hstep]
    exact .settles

namespace PromptTurn

variable {l l' : Loader K V} {key : K} {phase : Phase K V} {t : Turn K V}

lemma pending (h : PromptTurn l key phase t l') : ∀ x ∈ l'.pending, x ∈ l.pending ∨ x.1 = key := by
  intro x hx
  cases h with
  | registers =>
    rcases List.mem_append.mp hx with hx | hx
    · exact .inl hx
    · rw [List.mem_singleton.mp hx]
      exact .inr rfl
  | shares | waits | returns => exact .inl hx
  | settles =>
    rw [settle_eq] at hx
    cases hx

lemma keepsResults (h : PromptTurn l key phase t l') (hkeeps : l.KeepsResults) :
    l'.KeepsResults := by
  cases h with
  | registers | shares | waits | returns => exact hkeeps
  | settles =>
    intro x hx
    rw [settle_eq] at hx
    rcases List.mem_append.mp hx with hx | hx
    · obtain ⟨_, own, -, heq, -⟩ := settledBy_answers hx
      rw [heq]
      exact Option.some_ne_none own
    · exact hkeeps x hx

lemma held {phase' : Phase K V} (h : PromptTurn l key phase (.pending phase') l') :
    phase'.held = [] := by
  cases h with
  | registers hphase => rcases hphase with rfl | rfl <;> rfl
  | shares | waits => rfl

/-- A turn brings a load closer to its end, unless it waits for a result that is to come. -/
lemma turnsLeft_le (h : PromptTurn l key phase t l') {n : Nat}
    (hphase : phase.turnsLeft ≤ n + 1)
    (hwaiting : n = 0 → ∀ result, phase = .waiting result → l.results.lookup result ≠ none) :
    t.turnsLeft ≤ n := by
  cases h with
  | registers hphase' =>
    simp only [Phase.turnsLeft] at hphase
    rcases hphase' with rfl | rfl
    · simp only [Turn.turnsLeft, Phase.turnsLeft]
      omega
    · simp only [Turn.turnsLeft, Phase.turnsLeft]
      omega
  | shares =>
    simp only [Turn.turnsLeft, Phase.turnsLeft] at hphase ⊢
    omega
  | waits hresult =>
    have hne : n ≠ 0 := fun hzero => hwaiting hzero _ rfl hresult
    simp only [Turn.turnsLeft, Phase.turnsLeft]
    omega
  | returns | settles => exact Nat.zero_le n

end PromptTurn

end

/-- If no load collects a batch, and none holds one, then every result that is waited for is
there. -/
lemma Accounted.lookup_ne_none {l : Loader K V} {loads : List (LiveLoad K V)}
    {calls : List (BatchCall K V)} (h : Accounted l loads [] 0 calls)
    (hheld : ∀ load ∈ loads, load.phase.held = [])
    (hidle : ∀ load ∈ loads, load.phase.isCollecting = false) {load : LiveLoad K V}
    (hload : load ∈ loads) {result : Nat} (hphase : load.phase = .waiting result) :
    l.results.lookup result ≠ none := by
  intro hnone
  have hclosed : ¬ l.isOpen := by
    intro hopen
    have hcount := h.collecting
    have hzero : loads.countP (·.phase.isCollecting) = 0 :=
      List.countP_eq_zero.mpr fun load hload => by simp [hidle load hload]
    rw [if_pos hopen, hzero] at hcount
    cases hcount
  have hpending : l.pending = [] := by
    by_contra hne
    exact hclosed (h.loader.open_iff.mpr hne)
  have hnothing : heldBy loads = [] := List.flatMap_eq_nil_iff.mpr hheld
  have hsender := (h.phases load hload).sender hload (by rw [hphase]; rfl) hnone
  rw [hpending, hnothing] at hsender
  cases hsender

end Protobuf.Rpc
