import Mathlib
import Protobuf.Rpc.Load

/-!
# Who settles a result

A result that is not settled has exactly one registration through which it will be,
in the batch that is being collected or in one that is being fetched. The loader
does not know the batches of the second kind: they are kept by the loads, and stand
here as a list `held`. `Loader.Inv` is what every step of a loader preserves, and
`Answerable` is what a load may rely on while it waits.
-/

namespace Protobuf.Rpc

open List

variable {K V : Type}

/-- A call that fetched a batch: its keys, and what it gives if it ever ends. -/
abbrev BatchCall (K V : Type) := List K × Option (Except RpcError (List V))

/-- What a call with some keys and an outcome says of one key. A value is found by the position
of the key; an error, and a wrong number of values, concern all keys alike. -/
inductive Answers (keys : List K) (outcome : Except RpcError (List V)) (key : K) :
    Except RpcError V → Prop
  | value {values : List V} {i : Nat} {v : V} : outcome = .ok values →
      values.length = keys.length → keys[i]? = some key → values[i]? = some v →
      Answers keys outcome key (.ok v)
  | failure {e : RpcError} : outcome = .error e → key ∈ keys →
      Answers keys outcome key (.error e)
  | mismatch {values : List V} : outcome = .ok values → values.length ≠ keys.length →
      key ∈ keys → Answers keys outcome key (.error (.batchMismatch keys.length values.length))

def Delivered (calls : List (BatchCall K V)) (key : K) (result : Except RpcError V) : Prop :=
  ∃ keys outcome, (keys, some outcome) ∈ calls ∧ Answers keys outcome key result

lemma Delivered.mono {calls calls' : List (BatchCall K V)} {key : K}
    {result : Except RpcError V} (h : Delivered calls key result) (hcalls : calls ⊆ calls') :
    Delivered calls' key result := by
  obtain ⟨keys, outcome, hmem, hanswers⟩ := h
  exact ⟨keys, outcome, hcalls hmem, hanswers⟩

private lemma mem_of_lookup {α β : Type} [DecidableEq α] {entries : List (α × β)} {a : α} {b : β}
    (h : entries.lookup a = some b) : (a, b) ∈ entries := by
  obtain ⟨before, after, rfl, -⟩ := lookup_eq_some_iff.mp h
  simp

private lemma not_mem_of_lookup {α β : Type} [DecidableEq α] {entries : List (α × β)} {a : α}
    (h : entries.lookup a = none) : a ∉ entries.map Prod.fst := by
  intro hmem
  obtain ⟨entry, hentry, rfl⟩ := mem_map.mp hmem
  simpa using lookup_eq_none_iff.mp h entry hentry

private lemma lookup_of_not_mem {α β : Type} [DecidableEq α] {entries : List (α × β)} {a : α}
    (h : a ∉ entries.map Prod.fst) : entries.lookup a = none := by
  rw [lookup_eq_none_iff]
  intro entry hentry
  have hne : a ≠ entry.1 := fun heq => h (heq ▸ mem_map_of_mem hentry)
  simpa using hne

namespace Loader

variable {l : Loader K V} {held : List (Registration K)} {calls calls' : List (BatchCall K V)}

/-- The result is still to come for the key, or came from a call. A result that was given up is
neither, and leaves the load free to register its key again. -/
structure Answerable (l : Loader K V) (held : List (Registration K)) (calls : List (BatchCall K V))
    (key : K) (result : Nat) : Prop where
  sender : l.results.lookup result = none → (key, result) ∈ l.pending ++ held
  delivered : ∀ outcome, l.results.lookup result = some (some outcome) →
    Delivered calls key outcome

/-- What every step of a loader preserves. -/
structure Inv (l : Loader K V) (held : List (Registration K)) (calls : List (BatchCall K V)) :
    Prop where
  open_iff : l.isOpen = true ↔ l.pending ≠ []
  /-- No result has two senders. -/
  nodup : ((l.pending ++ held).map Prod.snd).Nodup
  lt_next : ∀ x ∈ l.pending ++ held, x.2 < l.next
  unsettled : ∀ x ∈ l.pending ++ held, l.results.lookup x.2 = none
  /-- Results that were not handed out yet are not settled. -/
  unused : ∀ result, l.next ≤ result → l.results.lookup result = none
  cached : ∀ x ∈ l.cache, Answerable l held calls x.1 x.2
  /-- The cache holds neither an error nor a result that was given up. -/
  sound : ∀ x ∈ l.cache, ∀ settled, l.results.lookup x.2 = some settled →
    ∃ v, settled = some (.ok v)

lemma Inv.empty : Inv (Loader.empty : Loader K V) [] [] := by
  constructor <;> simp [Loader.empty]

variable {key : K} {result : Nat}

lemma Answerable.mono (h : Answerable l held calls key result) (hcalls : calls ⊆ calls') :
    Answerable l held calls' key result :=
  ⟨h.sender, fun outcome ho => (h.delivered outcome ho).mono hcalls⟩

lemma Inv.mono (h : Inv l held calls) (hcalls : calls ⊆ calls') : Inv l held calls' :=
  { h with cached := fun x hx => (h.cached x hx).mono hcalls }

lemma Answerable.perm {held' : List (Registration K)} (h : Answerable l held calls key result)
    (hperm : held.Perm held') : Answerable l held' calls key result :=
  ⟨fun hnone => ((hperm.append_left l.pending).mem_iff).mp (h.sender hnone), h.delivered⟩

lemma Inv.perm {held' : List (Registration K)} (h : Inv l held calls)
    (hperm : held.Perm held') : Inv l held' calls := by
  have hsenders := hperm.append_left l.pending
  exact {
    open_iff := h.open_iff
    nodup := (hsenders.map Prod.snd).nodup_iff.mp h.nodup
    lt_next := fun x hx => h.lt_next x (hsenders.mem_iff.mpr hx)
    unsettled := fun x hx => h.unsettled x (hsenders.mem_iff.mpr hx)
    unused := h.unused
    cached := fun x hx => (h.cached x hx).perm hperm
    sound := h.sound }

/-- Two registrations of one result that are both to come are the same. -/
lemma Inv.sender_unique (h : Inv l held calls) {x y : Registration K}
    (hx : x ∈ l.pending ++ held) (hy : y ∈ l.pending ++ held) (heq : x.2 = y.2) : x = y :=
  inj_on_of_nodup_map h.nodup hx hy heq

/-! ## Releasing a batch

A batch is released when it is done and when it is given up. Both put one settled result per
registration in front of those there are, and can only remove keys from the cache. -/

/-- How a batch is released: `news` settles its results, and `cache` is what is kept. -/
structure Release (l : Loader K V) (calls : List (BatchCall K V)) (batch : List (Registration K))
    (news : List (Nat × Option (Except RpcError V))) (cache : List (Registration K)) : Prop where
  numbers : news.map Prod.fst = batch.map Prod.snd
  delivered : ∀ x ∈ news, ∀ outcome, x.2 = some outcome →
    ∃ key, (key, x.1) ∈ batch ∧ Delivered calls key outcome
  subset : ∀ x ∈ cache, x ∈ l.cache
  /-- An entry of the batch is kept only with a value. -/
  kept : ∀ x ∈ cache, x ∈ batch → ∀ y ∈ news, ∃ v, y.2 = some (.ok v)

section Release

variable {batch cache : List (Registration K)}
  {news : List (Nat × Option (Except RpcError V))}

lemma Answerable.release (h : Inv l (batch ++ held) calls)
    (hrelease : Release l calls batch news cache) {key : K} {result : Nat}
    (hkey : Answerable l (batch ++ held) calls key result) :
    Answerable { l with cache, results := news ++ l.results } held calls key result where
  sender hnone := by
    simp only [lookup_append, Option.or_eq_none_iff] at hnone
    have hmem := hkey.sender hnone.2
    have hbatch : (key, result) ∉ batch := fun hin =>
      not_mem_of_lookup hnone.1 (hrelease.numbers ▸ mem_map_of_mem hin)
    simpa [hbatch] using hmem
  delivered outcome hsome := by
    simp only [lookup_append, Option.or_eq_some_iff] at hsome
    obtain hnew | ⟨-, hold⟩ := hsome
    · obtain ⟨other, hother, hdelivered⟩ :=
        hrelease.delivered _ (mem_of_lookup hnew) outcome rfl
      -- The result was open until now, so its one sender is the load's own registration.
      have hsender : (other, result) ∈ l.pending ++ (batch ++ held) := by simp [hother]
      have hmine := hkey.sender (h.unsettled _ hsender)
      cases h.sender_unique hsender hmine rfl
      exact hdelivered
    · exact hkey.delivered outcome hold

lemma Inv.release (h : Inv l (batch ++ held) calls)
    (hrelease : Release l calls batch news cache) :
    Inv { l with cache, results := news ++ l.results } held calls := by
  have hsub : ∀ x ∈ l.pending ++ held, x ∈ l.pending ++ (batch ++ held) := by grind
  have hnodup : ((l.pending ++ held).map Prod.snd).Nodup :=
    h.nodup.sublist (((sublist_append_right batch held).append_left l.pending).map _)
  have hnews : ∀ result, result ∉ batch.map Prod.snd → news.lookup result = none := fun r hr =>
    lookup_of_not_mem (hrelease.numbers ▸ hr)
  refine ⟨h.open_iff, hnodup, fun x hx => h.lt_next x (hsub x hx), ?_, ?_, ?_, ?_⟩
  · intro x hx
    have hother : x.2 ∉ batch.map Prod.snd := by
      have := h.nodup
      grind [nodup_append]
    simp [lookup_append, hnews _ hother, h.unsettled x (hsub x hx)]
  · intro result (hle : l.next ≤ result)
    have hother : result ∉ batch.map Prod.snd := by
      intro hin
      obtain ⟨x, hx, rfl⟩ := mem_map.mp hin
      have := h.lt_next x (by simp [hx])
      omega
    simp [lookup_append, hnews _ hother, h.unused result hle]
  · exact fun x hx => (h.cached x (hrelease.subset x hx)).release h hrelease
  · intro x hx settled hsettled
    have hin := hrelease.subset x hx
    simp only [lookup_append, Option.or_eq_some_iff] at hsettled
    obtain hnew | ⟨-, hold⟩ := hsettled
    · have hentry := mem_of_lookup hnew
      have hnumber : x.2 ∈ batch.map Prod.snd := hrelease.numbers ▸ mem_map_of_mem hentry
      obtain ⟨y, hy, hyx⟩ := mem_map.mp hnumber
      have hsender : y ∈ l.pending ++ (batch ++ held) := by simp [hy]
      have hmine := (h.cached x hin).sender (hyx ▸ h.unsettled y hsender)
      cases h.sender_unique hsender hmine hyx
      exact hrelease.kept x hx hy _ hentry
    · exact h.sound x hin settled hold

variable [DecidableEq K]

private lemma evict_subset (keys : List K) : ∀ x ∈ (l.evict keys).cache, x ∈ l.cache :=
  fun _ hx => (mem_filter.mp hx).1

private lemma not_mem_evict {x : Registration K}
    (hx : x ∈ (l.evict (batch.map Prod.fst)).cache) : x ∉ batch := by
  intro hin
  have hkept := (mem_filter.mp hx).2
  have hkey : x.1 ∈ batch.map Prod.fst := mem_map_of_mem hin
  simp [hkey] at hkept

lemma release_abandon (l : Loader K V) (calls : List (BatchCall K V))
    (batch : List (Registration K)) :
    Release l calls batch (batch.map fun r => (r.2, none))
      (l.evict (batch.map Prod.fst)).cache where
  numbers := by simp
  delivered x hx outcome hsome := by
    obtain ⟨r, -, rfl⟩ := mem_map.mp hx
    cases hsome
  subset := evict_subset _
  kept x hx hin := absurd hin (not_mem_evict hx)

/-- The results that a batch settles when it is done. -/
def settledBy (batch : List (Registration K)) (outcome : Except RpcError (List V)) :
    List (Nat × Option (Except RpcError V)) :=
  match checkLength batch outcome with
  | .ok values => (batch.zip values).map fun (r, v) => (r.2, some (.ok v))
  | .error e => batch.map fun r => (r.2, some (.error e))

/-- What is left of the cache when a batch is done. -/
def keptBy (l : Loader K V) (batch : List (Registration K))
    (outcome : Except RpcError (List V)) : List (Registration K) :=
  match checkLength batch outcome with
  | .ok _ => l.cache
  | .error _ => (l.evict (batch.map Prod.fst)).cache

lemma settle_eq (l : Loader K V) (batch : List (Registration K))
    (outcome : Except RpcError (List V)) :
    l.settle batch outcome =
      { l with
        cache := l.keptBy batch outcome
        results := settledBy batch outcome ++ l.results } := by
  unfold settle settledBy keptBy
  cases checkLength batch outcome <;> rfl

variable {outcome : Except RpcError (List V)}

omit [DecidableEq K] in
lemma checkLength_eq_ok {values : List V} (h : checkLength batch outcome = .ok values) :
    outcome = .ok values ∧ values.length = batch.length := by
  unfold checkLength at h
  grind

omit [DecidableEq K] in
lemma answers_of_checkLength_error {e : RpcError} (h : checkLength batch outcome = .error e)
    {x : Registration K} (hx : x ∈ batch) :
    Answers (batch.map Prod.fst) outcome x.1 (.error e) := by
  have hkey : x.1 ∈ batch.map Prod.fst := mem_map_of_mem hx
  cases outcome with
  | error e' =>
    cases h
    exact .failure rfl hkey
  | ok values =>
    simp only [checkLength] at h
    split at h
    · cases h
    · cases h
      have hne : values.length ≠ (batch.map Prod.fst).length := by simpa
      simpa using Answers.mismatch rfl hne hkey

omit [DecidableEq K] in
lemma settledBy_numbers (batch : List (Registration K)) (outcome : Except RpcError (List V)) :
    (settledBy batch outcome).map Prod.fst = batch.map Prod.snd := by
  unfold settledBy
  cases hcheck : checkLength batch outcome with
  | error e => simp
  | ok values =>
    have hlength := (checkLength_eq_ok hcheck).2
    have hzip : (batch.zip values).map Prod.fst = batch := map_fst_zip (by omega)
    calc ((batch.zip values).map fun (r, v) =>
          (r.2, some (Except.ok v : Except RpcError V))).map Prod.fst
        = ((batch.zip values).map Prod.fst).map Prod.snd := by simp [Function.comp_def]
      _ = batch.map Prod.snd := by rw [hzip]

omit [DecidableEq K] in
lemma settledBy_answers {x : Nat × Option (Except RpcError V)}
    (hx : x ∈ settledBy batch outcome) :
    ∃ key result, (key, x.1) ∈ batch ∧ x.2 = some result ∧
      Answers (batch.map Prod.fst) outcome key result := by
  unfold settledBy at hx
  cases hcheck : checkLength batch outcome with
  | error e =>
    simp only [hcheck, mem_map] at hx
    obtain ⟨y, hy, rfl⟩ := hx
    exact ⟨y.1, _, hy, rfl, answers_of_checkLength_error hcheck hy⟩
  | ok values =>
    obtain ⟨rfl, hlength⟩ := checkLength_eq_ok hcheck
    simp only [hcheck, mem_map] at hx
    obtain ⟨⟨y, v⟩, hmem, rfl⟩ := hx
    obtain ⟨i, hi⟩ := mem_iff_getElem?.mp hmem
    obtain ⟨hkey, hvalue⟩ := getElem?_zip_eq_some.mp hi
    exact ⟨y.1, _, mem_of_getElem? hkey, rfl,
      .value rfl (by simpa using hlength) (by simp [hkey]) hvalue⟩

lemma release_settle (l : Loader K V) (hcall : (batch.map Prod.fst, some outcome) ∈ calls) :
    Release l calls batch (settledBy batch outcome) (l.keptBy batch outcome) where
  numbers := settledBy_numbers batch outcome
  delivered x hx result hresult := by
    obtain ⟨key, _, hkey, heq, hanswers⟩ := settledBy_answers hx
    cases heq.symm.trans hresult
    exact ⟨key, hkey, _, _, hcall, hanswers⟩
  subset x hx := by
    unfold keptBy at hx
    split at hx
    · exact hx
    · exact evict_subset _ x hx
  kept x hx hin y hy := by
    unfold keptBy at hx
    unfold settledBy at hy
    split at hx
    · next values hcheck =>
      simp only [hcheck, mem_map] at hy
      obtain ⟨⟨_, v⟩, -, rfl⟩ := hy
      exact ⟨v, rfl⟩
    · exact absurd hin (not_mem_evict hx)

omit [DecidableEq K] in
lemma settledBy_lookup (outcome : Except RpcError (List V)) {x : Registration K}
    (hx : x ∈ batch) : ∃ result, (settledBy batch outcome).lookup x.2 = some (some result) := by
  have hnumber : x.2 ∈ (settledBy batch outcome).map Prod.fst := by
    rw [settledBy_numbers]
    exact mem_map_of_mem hx
  cases hlookup : (settledBy batch outcome).lookup x.2 with
  | none => exact absurd hnumber (not_mem_of_lookup hlookup)
  | some settled =>
    obtain ⟨_, result, -, heq, -⟩ := settledBy_answers (mem_of_lookup hlookup)
    exact ⟨result, by rw [← heq]⟩

end Release

/-! ## The other steps of a loader -/

lemma Inv.takePending (h : Inv l held calls) :
    Inv l.takePending.2 (l.pending ++ held) calls where
  open_iff := by simp [Loader.takePending]
  nodup := h.nodup
  lt_next := h.lt_next
  unsettled := h.unsettled
  unused := h.unused
  cached x hx := ⟨(h.cached x hx).sender, (h.cached x hx).delivered⟩
  sound := h.sound

lemma Answerable.takePending (h : Answerable l held calls key result) :
    Answerable l.takePending.2 (l.pending ++ held) calls key result :=
  ⟨h.sender, h.delivered⟩

variable [DecidableEq K]

lemma Answerable.evict (h : Answerable l held calls key result) (keys : List K) :
    Answerable (l.evict keys) held calls key result :=
  ⟨h.sender, h.delivered⟩

lemma Inv.evict (h : Inv l held calls) (keys : List K) : Inv (l.evict keys) held calls :=
  { h with
    cached := fun x hx => (h.cached x (evict_subset keys x hx)).evict keys
    sound := fun x hx => h.sound x (evict_subset keys x hx) }

lemma register_of_lookup_eq_some (h : l.cache.lookup key = some result) :
    l.register key = ⟨result, false, l⟩ := by
  simp only [register, h]

lemma register_of_lookup_eq_none (h : l.cache.lookup key = none) :
    l.register key = ⟨l.next, !l.isOpen,
      { l with
        cache := (key, l.next) :: l.cache
        pending := l.pending ++ [(key, l.next)]
        isOpen := true
        next := l.next + 1 }⟩ := by
  simp only [register, h]

lemma register_cached (l : Loader K V) (key : K) :
    (key, (l.register key).result) ∈ (l.register key).loader.cache := by
  cases hlookup : l.cache.lookup key with
  | some result => simpa [register_of_lookup_eq_some hlookup] using mem_of_lookup hlookup
  | none => simp [register_of_lookup_eq_none hlookup]

lemma register_pending (l : Loader K V) (key : K) :
    ∀ x ∈ l.pending, x ∈ (l.register key).loader.pending := by
  intro x hx
  cases hlookup : l.cache.lookup key with
  | some result => simpa [register_of_lookup_eq_some hlookup] using hx
  | none => simp [register_of_lookup_eq_none hlookup, hx]

lemma register_of_opens (h : (l.register key).opens) :
    l.isOpen = false ∧ (l.register key).loader.isOpen ∧
      (key, (l.register key).result) ∈ (l.register key).loader.pending := by
  cases hlookup : l.cache.lookup key with
  | some result => simp [register_of_lookup_eq_some hlookup] at h
  | none =>
    simp only [register_of_lookup_eq_none hlookup] at h ⊢
    simpa using h

lemma register_of_not_opens (h : (l.register key).opens = false) :
    (l.register key).loader.isOpen = l.isOpen := by
  cases hlookup : l.cache.lookup key with
  | some result => simp [register_of_lookup_eq_some hlookup]
  | none =>
    simp only [register_of_lookup_eq_none hlookup] at h ⊢
    simpa using h.symm

lemma Answerable.register {other : K} (h : Answerable l held calls other result) (key : K) :
    Answerable (l.register key).loader held calls other result := by
  cases hlookup : l.cache.lookup key with
  | some cached => simpa [register_of_lookup_eq_some hlookup] using h
  | none =>
    rw [register_of_lookup_eq_none hlookup]
    refine ⟨fun hnone => ?_, h.delivered⟩
    have hsender := h.sender hnone
    grind

lemma Inv.register (h : Inv l held calls) (key : K) : Inv (l.register key).loader held calls := by
  cases hlookup : l.cache.lookup key with
  | some cached => simpa [register_of_lookup_eq_some hlookup] using h
  | none =>
    have hframe := fun x hx => (h.cached x hx).register key
    rw [register_of_lookup_eq_none hlookup] at hframe ⊢
    have hnew : l.results.lookup l.next = none := h.unused _ le_rfl
    have hsenders : ((l.pending ++ [(key, l.next)]) ++ held).Perm
        ((key, l.next) :: (l.pending ++ held)) := by
      simp
    have hfresh : l.next ∉ (l.pending ++ held).map Prod.snd := by
      intro hin
      obtain ⟨x, hx, heq⟩ := mem_map.mp hin
      have := h.lt_next x hx
      omega
    refine ⟨by simp, ?_, ?_, ?_, ?_, ?_, ?_⟩
    · exact (hsenders.map Prod.snd).nodup_iff.mpr (nodup_cons.mpr ⟨hfresh, h.nodup⟩)
    · intro x hx
      obtain rfl | hx := mem_cons.mp (hsenders.mem_iff.mp hx)
      · exact Nat.lt_succ_self _
      · exact Nat.lt_succ_of_lt (h.lt_next x hx)
    · intro x hx
      obtain rfl | hx := mem_cons.mp (hsenders.mem_iff.mp hx)
      · exact hnew
      · exact h.unsettled x hx
    · exact fun result hle => h.unused result (Nat.le_of_succ_le hle)
    · intro x hx
      obtain rfl | hx := mem_cons.mp hx
      · exact ⟨fun _ => by simp, fun outcome hsome => by simp [hnew] at hsome⟩
      · exact hframe x hx
    · intro x hx settled hsettled
      obtain rfl | hx := mem_cons.mp hx
      · simp [hnew] at hsettled
      · exact h.sound x hx settled hsettled

/-! ## Turns -/

/-- The first turn of a load registers its key once: a cached result was not given up. -/
lemma start_cases (h : Inv l held calls) (key : K) :
    ((l.register key).opens ∧
      l.start key = (.pending (.collecting (l.register key).result), (l.register key).loader)) ∨
    ((l.register key).opens = false ∧
      l.start key = (.pending (.waiting (l.register key).result), (l.register key).loader)) ∨
    ((l.register key).opens = false ∧ ∃ outcome,
      l.start key = (.done outcome, (l.register key).loader) ∧ Delivered calls key outcome) := by
  have hmem := register_cached l key
  have hafter := h.register key
  simp only [start, enter]
  cases hopens : (l.register key).opens with
  | true => simp
  | false =>
    cases hlookup : (l.register key).loader.results.lookup (l.register key).result with
    | none => simp
    | some settled =>
      obtain ⟨v, rfl⟩ := hafter.sound _ hmem settled hlookup
      have hdelivered := (hafter.cached _ hmem).delivered _ hlookup
      exact .inr (.inr ⟨rfl, _, rfl, hdelivered⟩)

lemma forget_of_given_up (h : Inv l held calls) (hresult : l.results.lookup result = some none) :
    l.forget key result = l := by
  unfold forget
  split
  · next hlookup =>
    obtain ⟨v, hv⟩ := h.sound _ (mem_of_lookup hlookup) none hresult
    cases hv
  · rfl

/-- A load that waits goes on waiting, has its result, or starts over. -/
lemma wake_cases (h : Inv l held calls) (hkey : Answerable l held calls key result) :
    l.wake key result = (.pending (.waiting result), l) ∨
    (∃ outcome, l.wake key result = (.done outcome, l) ∧ Delivered calls key outcome) ∨
    l.wake key result = l.start key := by
  unfold wake
  cases hlookup : l.results.lookup result with
  | none => exact .inl rfl
  | some settled =>
    cases settled with
    | some outcome => exact .inr (.inl ⟨outcome, rfl, hkey.delivered outcome hlookup⟩)
    | none => exact .inr (.inr (by rw [forget_of_given_up h hlookup]))

end Loader

/-- What a fetch will give, if it ever ends. -/
def Fetch.outcome? : Fetch V → Option (Except RpcError (List V))
  | .after _ outcome => some outcome
  | .never => none

/-- A load that fetches goes on fetching, or settles its batch and with it its own result. -/
lemma Loader.proceed_cases [DecidableEq K] (l : Loader K V) {key : K} {result : Nat}
    {batch : List (Registration K)} (hkey : (key, result) ∈ batch) (fetch : Fetch V) :
    (∃ rest, l.proceed result batch fetch = (.pending (.fetching result batch rest), l) ∧
      rest.outcome? = fetch.outcome?) ∨
    ∃ outcome own, fetch.outcome? = some outcome ∧
      l.proceed result batch fetch = (.done own, l.settle batch outcome) ∧
      (l.settle batch outcome).results.lookup result = some (some own) := by
  match fetch with
  | .never => exact .inl ⟨.never, rfl, rfl⟩
  | .after (turns + 1) outcome => exact .inl ⟨.after turns outcome, rfl, rfl⟩
  | .after 0 outcome =>
    obtain ⟨own, hown⟩ := settledBy_lookup outcome hkey
    have hlookup : (l.settle batch outcome).results.lookup result = some (some own) := by
      simp only [settle_eq, lookup_append, hown, Option.some_or]
    exact .inr ⟨outcome, own, rfl, by simp only [proceed, hlookup], hlookup⟩

end Protobuf.Rpc
