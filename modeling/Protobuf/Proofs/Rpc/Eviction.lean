import Protobuf.Proofs.Rpc.OneRequest

/-!
# What a failed batch removes from the cache

A batch that fails or is given up is removed from the cache by key. It removes the
result of another batch just when that one is cached for one of its keys, which takes
a key that was cleared and loaded again while the batch was under way.
-/

namespace Protobuf.Rpc

variable {K V : Type} [DecidableEq K]

/-- The batch that the load opened fails, or is given up: the load returns an error, or it is
dropped. The loader is what that leaves. -/
def LiveLoad.Fails (load : LiveLoad K V) (s : Session K V) (l' : Loader K V) : Prop :=
  l' = s.loader.drop load.phase ∨
    ∃ e batches, Session.step load s.loader s.batches = (.done (.error e), l', batches)

namespace Loader

/-- A result of a batch is an error only if the batch is evicted. -/
lemma settle_cache_of_error {l : Loader K V} {batch : List (Registration K)}
    {outcome : Except RpcError (List V)} {result : Nat} {e : RpcError}
    (hnone : l.results.lookup result = none)
    (hresult : (l.settle batch outcome).results.lookup result = some (some (.error e))) :
    (l.settle batch outcome).cache = (l.evict (batch.map Prod.fst)).cache := by
  rw [settle_eq] at hresult ⊢
  change l.keptBy batch outcome = _
  unfold keptBy
  cases hcheck : checkLength batch outcome with
  | error e => rfl
  | ok values =>
    simp only [List.lookup_append, hnone, Option.or_none, settledBy, hcheck] at hresult
    obtain ⟨before, after, hmem, -⟩ := List.lookup_eq_some_iff.mp hresult
    have hin : (result, some (.error e)) ∈
        (batch.zip values).map fun x => (x.1.2, some (Except.ok x.2 : Except RpcError V)) := by
      rw [hmem]
      simp
    simp at hin

end Loader

/-- What fails is removed from the cache by key. -/
lemma Chronicle.Inv.cache_of_fails {c : Chronicle K V} (h : c.Inv) {load : LiveLoad K V}
    (hload : load ∈ c.session.loads) {l' : Loader K V} (hfails : load.Fails c.session l') :
    l'.cache =
      (c.session.loader.evict ((load.batch c.session.loader).map Prod.fst)).cache := by
  obtain ⟨before, after, hloads⟩ := List.append_of_mem hload
  rcases hfails with rfl | ⟨e, batches, hstep⟩
  · rw [load.drop_eq]
    simp [Loader.abandon, Loader.evict]
  · have hturned := h.turned hloads
    rw [hstep] at hturned
    generalize load.events c.session.loader c.session.batches = events at hturned
    cases hturned with
    | returns hidle _ _ =>
      rw [hidle.batch_eq]
      simp [Loader.evict]
    | @settles result outcome _ hmem hown =>
      have hsender := (h.focus hloads).1.taken.loader.unsettled (load.key, result) (by simp [hmem])
      refine (Loader.settle_cache_of_error hsender hown).trans ?_
      simp [Loader.evict]

/-- When a batch fails or is given up, the entries of its keys leave the cache. All of these are
its own unless one of its keys is cached with the result of another batch. Such a key was cleared
before, and the other registration of it is the later one. -/
theorem Chronicle.Reachable.evicted_by_key {c : Chronicle K V} (h : Reachable c)
    {load : LiveLoad K V} (hload : load ∈ c.session.loads) {l' : Loader K V}
    (hfails : load.Fails c.session l') :
    let cache := c.session.loader.cache
    let batch := load.batch c.session.loader
    l'.cache = cache.filter (fun x => x.1 ∉ batch.map Prod.fst) ∧
    ((∀ x ∈ cache, x ∉ l'.cache → x ∈ batch) ↔
      ∀ x ∈ cache, x.1 ∈ batch.map Prod.fst → x ∈ batch) ∧
    ∀ x ∈ cache, x ∉ l'.cache → x ∉ batch →
      .cleared x.1 ∈ c.log ∧ ∃ r, (x.1, r) ∈ batch ∧ ∀ r, (x.1, r) ∈ batch → r < x.2 := by
  intro cache batch
  have hcache := h.inv.cache_of_fails hload hfails
  have hremoved : ∀ x ∈ cache, x ∉ l'.cache ↔ x.1 ∈ batch.map Prod.fst := by
    intro x hx
    rw [hcache, Loader.mem_evict_iff]
    tauto
  refine ⟨?_, ?_, ?_⟩
  · rw [hcache]
    exact List.filter_congr fun x _ => by simp [batch]
  · constructor
    · intro hown x hx hkey
      exact hown x hx ((hremoved x hx).mpr hkey)
    · intro hown x hx hgone
      exact hown x hx ((hremoved x hx).mp hgone)
  · rintro ⟨key, result⟩ hx hgone hother
    obtain ⟨before, after, hloads⟩ := List.append_of_mem hload
    have hsenders : ∀ r, (key, r) ∈ batch →
        (key, r) ∈ c.session.loader.pending ++ heldBy c.session.loads := by
      intro r hr
      have hmem : (key, r) ∈ c.session.loader.pending ++
          (load.phase.held ++ heldBy (before ++ after)) :=
        (load.taken_senders c.session.loader).mem_iff.mp (by simp [batch] at hr; simp [hr])
      rw [hloads]
      simp only [heldBy, List.flatMap_append, List.flatMap_cons, List.mem_append] at hmem ⊢
      tauto
    obtain ⟨⟨_, r⟩, hr, rfl⟩ := List.mem_map.mp ((hremoved _ hx).mp hgone)
    refine ⟨?_, r, hr, fun r hr => ?_⟩
    · by_contra hclear
      -- Without a clear, what is still to come for the key is what is cached.
      have hcached := (h.once hclear).guarded.senders r (hsenders r hr)
      rw [Loader.cached_unique h.inv.ordered.nodup hx hcached] at hother
      exact hother hr
    · have hle := h.inv.ordered.newest _ r result (hsenders r hr) hx
      have hne : r ≠ result := by
        rintro rfl
        exact hother hr
      omega

/-- A load whose batch fails in its next turn. -/
private def failing : LiveLoad Nat Nat :=
  ⟨"a", 7, fun _ _ => .after 1 (.error .canceled),
    .fetching 0 [(7, 0)] (.after 0 (.error .canceled))⟩

/-- While the batch of one load is under way its key is cleared, and another load has it fetched by
a batch of its own. -/
private lemma exists_overtaken : ∃ c : Chronicle Nat Nat, Chronicle.Reachable c ∧
    c.session = ⟨⟨[(7, 1)], [], false, [(1, some (.ok 14))], 2⟩, [failing], [[7], [7]]⟩ := by
  obtain ⟨c, hc, -, hsession, -⟩ := Chronicle.Reachable.exists_of_actions
    [.begin "a" 7 failing.fetch, .poll "a", .poll "a", .clear 7,
      .begin "b" 7 fun _ keys => .after 0 (.ok (keys.map (· * 2))), .poll "b", .poll "b"]
  exact ⟨c, hc, hsession⟩

/-- A key is cleared and loaded again; the first batch fails, and the value of the second one is
not cached any more. -/
theorem Chronicle.Reachable.evicts_value_of_later_batch :
    ∃ (c : Chronicle Nat Nat) (load : LiveLoad Nat Nat) (l' : Loader Nat Nat),
      Reachable c ∧ load ∈ c.session.loads ∧ load.Fails c.session l' ∧
      ∃ x ∈ c.session.loader.cache,
        c.session.loader.results.lookup x.2 = some (some (.ok 14)) ∧
        x ∉ load.batch c.session.loader ∧ x ∉ l'.cache := by
  obtain ⟨c, hc, hsession⟩ := exists_overtaken
  refine ⟨c, failing, (Session.step failing c.session.loader c.session.batches).2.1, hc, ?_⟩
  rw [hsession]
  exact ⟨List.mem_singleton_self _, .inr ⟨.canceled, _, rfl⟩, (7, 1), by decide, rfl, by decide,
    by decide⟩

/-- If the first load is dropped instead, that evicts the value too; the key was cleared. -/
theorem Chronicle.Reachable.evicted_by_key_of_drop :
    ∃ (c : Chronicle Nat Nat) (load : LiveLoad Nat Nat), Reachable c ∧ load ∈ c.session.loads ∧
      load.Fails c.session (c.session.loader.drop load.phase) ∧
      (c.session.loader.drop load.phase).cache = [] ∧ .cleared 7 ∈ c.log := by
  obtain ⟨c, hc, hsession⟩ := exists_overtaken
  have hmem : failing ∈ c.session.loads := by
    rw [hsession]
    exact List.mem_singleton_self _
  have hfails : failing.Fails c.session (c.session.loader.drop failing.phase) := .inl rfl
  obtain ⟨hcache, -, hcleared⟩ := hc.evicted_by_key hmem hfails
  have hempty : (c.session.loader.drop failing.phase).cache = [] := by
    rw [hcache, hsession]
    rfl
  refine ⟨c, failing, hc, hmem, hfails, hempty, (hcleared (7, 1) ?_ ?_ ?_).1⟩
  · rw [hsession]
    exact List.mem_singleton_self _
  · rw [hempty]
    exact List.not_mem_nil
  · rw [hsession]
    decide

end Protobuf.Rpc
