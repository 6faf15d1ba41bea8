import Protobuf.Proofs.Rpc.Chronicle

/-!
# One request for a key at a time

As long as a key is not cleared, whatever is still to come for it is also cached, so
no load registers it a second time: neither while a batch that holds it is collected
or fetched, nor once its value is there. Batches are removed from the cache by key;
`Spares` says what that leaves alone.
-/

namespace Protobuf.Rpc

open List

variable {K V : Type}

namespace Loader

variable {l : Loader K V} {held batch cache : List (Registration K)}
  {calls : List (BatchCall K V)} {news : List (Nat × Option (Except RpcError V))} {key : K}
  {result : Nat}

/-- Whatever is still to come for the key is cached. -/
def Exclusive (l : Loader K V) (held : List (Registration K)) (key : K) : Prop :=
  ∀ result, (key, result) ∈ l.pending ++ held → (key, result) ∈ l.cache

def Kept (l : Loader K V) (key : K) (result : Nat) : Prop :=
  ∀ v, l.results.lookup result = some (some (.ok v)) → (key, result) ∈ l.cache

def Holds (l : Loader K V) (key : K) : Prop :=
  ∃ result v, (key, result) ∈ l.cache ∧ l.results.lookup result = some (some (.ok v))

lemma cached_unique (hcache : (l.cache.map Prod.fst).Nodup) {r r' : Nat}
    (hr : (key, r) ∈ l.cache) (hr' : (key, r') ∈ l.cache) : r = r' :=
  congrArg Prod.snd (inj_on_of_nodup_map hcache hr hr' rfl)

lemma Holds.not_mem_senders (h : Holds l key) (hinv : Inv l held calls)
    (hcache : (l.cache.map Prod.fst).Nodup) (hkey : Exclusive l held key) :
    key ∉ (l.pending ++ held).map Prod.fst := by
  obtain ⟨result, v, hmem, hvalue⟩ := h
  intro hin
  obtain ⟨⟨key', r⟩, hsender, rfl⟩ := mem_map.mp hin
  have hsame : r = result := cached_unique hcache (hkey r hsender) hmem
  have hnone := hinv.unsettled _ hsender
  rw [hsame, hvalue] at hnone
  cases hnone

lemma nodup_sender_keys (hinv : Inv l held calls) (hcache : (l.cache.map Prod.fst).Nodup)
    (hall : ∀ key, Exclusive l held key) : ((l.pending ++ held).map Prod.fst).Nodup := by
  refine hinv.nodup.of_map.map_on ?_
  rintro ⟨key, r⟩ hx ⟨key', r'⟩ hy rfl
  rw [cached_unique hcache (hall key r hx) (hall key r' hy)]

/-! ## Releasing a batch -/

/-- What releasing a batch leaves alone: the results of others, the cached entries of other keys,
and all entries if a result is a value. -/
structure Spares (l : Loader K V) (batch : List (Registration K))
    (news : List (Nat × Option (Except RpcError V))) (cache : List (Registration K)) : Prop where
  numbers : news.map Prod.fst = batch.map Prod.snd
  others : ∀ x ∈ l.cache, x.1 ∉ batch.map Prod.fst → x ∈ cache
  values : ∀ y ∈ news, ∀ v, y.2 = some (.ok v) → cache = l.cache

section Release

variable (hinv : Inv l (batch ++ held) calls) (hcache : (l.cache.map Prod.fst).Nodup)
  (hkey : Exclusive l (batch ++ held) key) (hspares : Spares l batch news cache)

include hcache hkey hspares in
lemma Exclusive.mem_of_not_mem_batch {r : Nat} (hmem : (key, r) ∈ l.cache)
    (hbatch : (key, r) ∉ batch) : (key, r) ∈ cache := by
  refine hspares.others _ hmem fun hin => ?_
  obtain ⟨⟨key', r'⟩, hr', rfl⟩ := mem_map.mp hin
  have hcached := hkey r' (by simp [hr'])
  rw [cached_unique hcache hmem hcached] at hbatch
  exact hbatch hr'

include hinv hcache hkey hspares in
lemma Exclusive.release : Exclusive { l with cache, results := news ++ l.results } held key := by
  intro r hr
  have hbefore : (key, r) ∈ l.pending ++ (batch ++ held) := by grind
  refine hkey.mem_of_not_mem_batch hcache hspares (hkey r hbefore) fun hbatch => ?_
  have hnodup := hinv.nodup
  grind [nodup_append]

include hinv hspares in
private lemma lookup_release {settled : Option (Except RpcError V)}
    (hresult : l.results.lookup result = some settled) :
    (news ++ l.results).lookup result = some settled ∧ ∀ key, (key, result) ∉ batch := by
  have hbatch : ∀ key, (key, result) ∉ batch := by
    intro key hmem
    have hnone := hinv.unsettled (key, result) (by simp [hmem])
    rw [hresult] at hnone
    cases hnone
  refine ⟨?_, hbatch⟩
  have hnews : news.lookup result = none := by
    rw [lookup_eq_none_iff]
    intro entry hentry
    have hnumber : entry.1 ∈ batch.map Prod.snd := by
      rw [← hspares.numbers]
      exact mem_map_of_mem hentry
    obtain ⟨x, hx, heq⟩ := mem_map.mp hnumber
    have hne : result ≠ entry.1 := by
      rintro rfl
      exact hbatch x.1 (heq ▸ hx)
    simpa using hne
  rw [lookup_append, hnews, Option.none_or, hresult]

include hinv hcache hkey hspares in
lemma Holds.release (h : Holds l key) :
    Holds { l with cache, results := news ++ l.results } key := by
  obtain ⟨result, v, hmem, hvalue⟩ := h
  obtain ⟨hafter, hbatch⟩ := lookup_release hinv hspares hvalue
  exact ⟨result, v, hkey.mem_of_not_mem_batch hcache hspares hmem (hbatch key), hafter⟩

include hinv hcache hkey hspares in
lemma Kept.release (h : Kept l key result)
    (hsender : l.results.lookup result = none → (key, result) ∈ l.pending ++ (batch ++ held)) :
    Kept { l with cache, results := news ++ l.results } key result := by
  intro v hvalue
  cases hresult : l.results.lookup result with
  | none =>
    -- The value is new, so the batch was fetched and nothing is removed.
    change (news ++ l.results).lookup result = _ at hvalue
    rw [lookup_append, hresult, Option.or_none] at hvalue
    obtain ⟨before, after, rfl, -⟩ := lookup_eq_some_iff.mp hvalue
    rw [show cache = l.cache from hspares.values (result, some (.ok v)) (by simp) v rfl]
    exact hkey result (hsender hresult)
  | some settled =>
    obtain ⟨hafter, hbatch⟩ := lookup_release hinv hspares hresult
    change (news ++ l.results).lookup result = _ at hvalue
    rw [hafter] at hvalue
    exact hkey.mem_of_not_mem_batch hcache hspares (h v (hresult.trans hvalue)) (hbatch key)

end Release

variable [DecidableEq K]

lemma mem_evict_iff {keys : List K} {x : Registration K} :
    x ∈ (l.evict keys).cache ↔ x ∈ l.cache ∧ x.1 ∉ keys := by
  simp [evict]

lemma spares_abandon (l : Loader K V) (batch : List (Registration K)) :
    Spares l batch (batch.map fun r => (r.2, none)) (l.evict (batch.map Prod.fst)).cache where
  numbers := by simp
  others x hx hkey := mem_evict_iff.mpr ⟨hx, hkey⟩
  values y hy v hv := by
    obtain ⟨r, -, rfl⟩ := mem_map.mp hy
    cases hv

lemma spares_settle (l : Loader K V) (batch : List (Registration K))
    (outcome : Except RpcError (List V)) :
    Spares l batch (settledBy batch outcome) (l.keptBy batch outcome) := by
  have hnumbers := settledBy_numbers batch outcome
  unfold settledBy at hnumbers ⊢
  unfold keptBy
  cases hcheck : checkLength batch outcome with
  | ok values =>
    rw [hcheck] at hnumbers
    exact ⟨hnumbers, fun _ hx _ => hx, fun _ _ _ _ => rfl⟩
  | error e =>
    rw [hcheck] at hnumbers
    refine ⟨hnumbers, fun x hx hkey => mem_evict_iff.mpr ⟨hx, hkey⟩, fun y hy v hv => ?_⟩
    obtain ⟨r, -, rfl⟩ := mem_map.mp hy
    cases hv

end Loader

/-! ## Loads of a key -/

section Guarded

variable {l : Loader K V} {loads before after : List (LiveLoad K V)} {load : LiveLoad K V}
  {hand batch : List (Registration K)} {calls : List (BatchCall K V)} {key : K}

/-- Whatever is still to come for the key is cached, and so is every value that a load of the key
waits for. One more load has taken `hand`. -/
structure Guarded (l : Loader K V) (loads : List (LiveLoad K V)) (hand : List (Registration K))
    (key : K) : Prop where
  senders : l.Exclusive (hand ++ heldBy loads) key
  kept : ∀ load ∈ loads, load.key = key → ∀ result, load.phase = .waiting result →
    l.Kept key result

namespace Guarded

lemma focus_iff : Guarded l (before ++ load :: after) [] key ↔
    Guarded l (before ++ after) load.phase.held key ∧
      (load.key = key → ∀ result, load.phase = .waiting result → l.Kept key result) := by
  have hheld : ∀ x, x ∈ [] ++ heldBy (before ++ load :: after) ↔
      x ∈ load.phase.held ++ heldBy (before ++ after) := by
    intro x
    simp only [heldBy, flatMap_append, flatMap_cons, mem_append, nil_append]
    tauto
  have hloads : ∀ x, x ∈ before ++ load :: after ↔ x = load ∨ x ∈ before ++ after := by grind
  constructor
  · intro h
    refine ⟨⟨fun r hr => h.senders r ?_, fun x hx => h.kept x ((hloads x).mpr (.inr hx))⟩,
      h.kept load ((hloads load).mpr (.inl rfl))⟩
    rw [mem_append, ← hheld, ← mem_append] at hr
    exact hr
  · rintro ⟨h, hload⟩
    refine ⟨fun r hr => h.senders r ?_, fun x hx => ?_⟩
    · rw [mem_append, hheld, ← mem_append] at hr
      exact hr
    · rcases (hloads x).mp hx with rfl | hx
      · exact hload
      · exact h.kept x hx

lemma take (h : Guarded l loads [] key) : Guarded l.takePending.2 loads l.pending key :=
  ⟨fun r hr => h.senders r (by simpa [Loader.takePending] using hr), h.kept⟩

lemma register (h : Guarded l loads [] key) (other : K) :
    Guarded { l with
      cache := (other, l.next) :: l.cache
      pending := l.pending ++ [(other, l.next)]
      isOpen := true
      next := l.next + 1 } loads [] key := by
  refine ⟨fun r hr => ?_, fun load hload hkey result hphase v hv =>
    mem_cons_of_mem _ (h.kept load hload hkey result hphase v hv)⟩
  rcases mem_append.mp hr with hr | hr
  · rcases mem_append.mp hr with hr | hr
    · exact mem_cons_of_mem _ (h.senders r (by simp [hr]))
    · rw [mem_singleton.mp hr]
      exact mem_cons_self
  · exact mem_cons_of_mem _ (h.senders r (mem_append_right _ hr))

lemma release (h : Guarded l loads batch key) (hacc : Accounted l loads batch 0 calls)
    (hcache : (l.cache.map Prod.fst).Nodup)
    {news : List (Nat × Option (Except RpcError V))} {cache : List (Registration K)}
    (hspares : l.Spares batch news cache) :
    Guarded { l with cache, results := news ++ l.results } loads [] key := by
  refine ⟨h.senders.release hacc.loader hcache hspares, fun load hload hkey result hphase => ?_⟩
  refine (h.kept load hload hkey result hphase).release hacc.loader hcache h.senders hspares
    fun hnone => ?_
  have hok := hacc.phases load hload
  rw [hphase, hkey] at hok
  exact Loader.Answerable.sender hok hnone

lemma evict [DecidableEq K] (h : Guarded l loads hand key) {keys : List K} (hkeys : key ∉ keys) :
    Guarded (l.evict keys) loads hand key :=
  ⟨fun r hr => Loader.mem_evict_iff.mpr ⟨h.senders r hr, hkeys⟩,
    fun load hload hkey result hphase v hv =>
      Loader.mem_evict_iff.mpr ⟨h.kept load hload hkey result hphase v hv, hkeys⟩⟩

end Guarded

end Guarded

end Protobuf.Rpc
