import Protobuf.Proofs.Rpc.Exclusive

/-!
# What the log of a run shows

A batch holds the registrations that were made while it was collected, in their order,
and is fetched once. If keys are not cleared, a key is in one batch at a time and in
none after a load of it has returned a value.
-/

open Protobuf.Rpc.Loader

namespace Protobuf.Rpc

open List

variable {K V : Type}

/-- Numbers are given out once: to what is being collected and to what was fetched. -/
structure Numbered (l : Loader K V) (log : List (Event K V)) : Prop where
  nodup : ((l.pending ++ (dispatches log).flatten).map Prod.snd).Nodup
  lt_next : ∀ x ∈ l.pending ++ (dispatches log).flatten, x.2 < l.next

/-- The log agrees with the loader and with the calls that were made. -/
structure Logged (l : Loader K V) (batches : List (List K)) (log : List (Event K V)) : Prop where
  pending : collected log = l.pending
  batches : (dispatches log).map (·.map Prod.fst) = batches
  numbered : Numbered l log
  /-- Every batch that was fetched had been collected just before. -/
  dispatched : ∀ batch earlier, .dispatched batch :: earlier <:+ log →
    collected earlier = batch ∧ batch ≠ []

namespace Logged

variable {l l' : Loader K V} {batches : List (List K)} {log : List (Event K V)}

lemma start : Logged (Loader.empty : Loader K V) [] [] :=
  ⟨rfl, rfl, ⟨by simp [empty, dispatches], by simp [empty, dispatches]⟩, by simp⟩

lemma quiet (h : Logged l batches log) {e : Event K V}
    (he : (∃ key outcome, e = .returned key outcome) ∨ ∃ key, e = .cleared key)
    (hpending : l'.pending = l.pending) (hnext : l'.next = l.next) :
    Logged l' batches (e :: log) := by
  have hcollected : collected (e :: log) = collected log := by
    rcases he with ⟨key, outcome, rfl⟩ | ⟨key, rfl⟩ <;> rfl
  have hdispatches : dispatches (e :: log) = dispatches log := by
    rcases he with ⟨key, outcome, rfl⟩ | ⟨key, rfl⟩ <;> rfl
  refine ⟨?_, ?_, ⟨?_, ?_⟩, fun batch earlier hsuffix => ?_⟩
  · rw [hcollected, h.pending, hpending]
  · rw [hdispatches, h.batches]
  · rw [hdispatches, hpending]
    exact h.numbered.nodup
  · rw [hdispatches, hpending, hnext]
    exact h.numbered.lt_next
  · rcases suffix_cons_iff.mp hsuffix with heq | hsuffix
    · rcases he with ⟨key, outcome, rfl⟩ | ⟨key, rfl⟩ <;> cases heq
    · exact h.dispatched batch earlier hsuffix

lemma register (h : Logged l batches log) (key : K) (cache : List (Registration K)) :
    Logged { l with cache, pending := l.pending ++ [(key, l.next)], isOpen := true,
                    next := l.next + 1 } batches (.registered (key, l.next) :: log) := by
  have hperm : (l.pending ++ [(key, l.next)] ++ (dispatches log).flatten).Perm
      ((key, l.next) :: (l.pending ++ (dispatches log).flatten)) := by
    simp
  refine ⟨by rw [collected, h.pending], h.batches, ⟨?_, ?_⟩, fun batch earlier hsuffix => ?_⟩
  · refine (hperm.map Prod.snd).nodup_iff.mpr (nodup_cons.mpr ⟨?_, h.numbered.nodup⟩)
    intro hmem
    obtain ⟨x, hx, heq⟩ := mem_map.mp hmem
    have hlt := h.numbered.lt_next x hx
    omega
  · intro x hx
    rcases mem_cons.mp (hperm.mem_iff.mp hx) with rfl | hx
    · exact Nat.lt_succ_self _
    · exact Nat.lt_succ_of_lt (h.numbered.lt_next x hx)
  · rcases suffix_cons_iff.mp hsuffix with heq | hsuffix
    · cases heq
    · exact h.dispatched batch earlier hsuffix

lemma take (h : Logged l batches log) (hpending : l.pending ≠ []) :
    Logged l.takePending.2 (l.pending.map Prod.fst :: batches) (.dispatched l.pending :: log) := by
  refine ⟨rfl, congrArg _ h.batches, ⟨h.numbered.nodup, h.numbered.lt_next⟩,
    fun batch earlier hsuffix => ?_⟩
  rcases suffix_cons_iff.mp hsuffix with heq | hsuffix
  · cases heq
    exact ⟨h.pending, hpending⟩
  · exact h.dispatched batch earlier hsuffix

lemma discard (h : Logged l batches log) : Logged l.takePending.2 batches (.discarded :: log) := by
  have hsub : ((dispatches log).flatten).Sublist (l.pending ++ (dispatches log).flatten) :=
    sublist_append_right ..
  refine ⟨rfl, h.batches, ⟨h.numbered.nodup.sublist (hsub.map _),
    fun x hx => h.numbered.lt_next x (hsub.subset hx)⟩, fun batch earlier hsuffix => ?_⟩
  rcases suffix_cons_iff.mp hsuffix with heq | hsuffix
  · cases heq
  · exact h.dispatched batch earlier hsuffix

end Logged

/-! ## What a turn preserves -/

section Turn

variable [DecidableEq K] {l l' : Loader K V} {load : LiveLoad K V} {t : Turn K V}
  {events : List (Event K V)} {held : List (Registration K)} {calls : List (BatchCall K V)}

def Turn.left (load : LiveLoad K V) : Turn K V → List (LiveLoad K V)
  | .pending phase => [{ load with phase }]
  | .done _ => []

/-- A key is cached once, and with its latest registration. -/
structure Loader.Ordered (l : Loader K V) (held : List (Registration K)) : Prop where
  nodup : (l.cache.map Prod.fst).Nodup
  newest : ∀ key r r', (key, r) ∈ l.pending ++ held → (key, r') ∈ l.cache → r ≤ r'

omit [DecidableEq K] in
lemma Loader.Ordered.mono (h : l.Ordered held) {held' : List (Registration K)}
    (hsenders : ∀ x ∈ l'.pending ++ held', x ∈ l.pending ++ held)
    (hcache : l'.cache.Sublist l.cache) : l'.Ordered held' :=
  ⟨h.nodup.sublist (hcache.map _), fun key r r' hr hr' =>
    h.newest key r r' (hsenders _ hr) (hcache.subset hr')⟩

omit [DecidableEq K] in
lemma Loader.Ordered.register (h : l.Ordered held) (hinv : l.Inv held calls) {key : K}
    (hnew : key ∉ l.cache.map Prod.fst) :
    ({ l with
      cache := (key, l.next) :: l.cache
      pending := l.pending ++ [(key, l.next)]
      isOpen := true
      next := l.next + 1 } : Loader K V).Ordered held := by
  refine ⟨nodup_cons.mpr ⟨hnew, h.nodup⟩, fun other r r' hr hr' => ?_⟩
  have hr : (other, r) ∈ l.pending ++ held ∨ (other, r) = (key, l.next) := by grind
  rcases mem_cons.mp hr' with heq | hr'
  · cases heq
    rcases hr with hr | heq
    · exact (hinv.lt_next _ hr).le
    · cases heq
      exact le_rfl
  · rcases hr with hr | heq
    · exact h.newest other r r' hr hr'
    · cases heq
      exact absurd (mem_map_of_mem hr') hnew

omit [DecidableEq K] in
@[simp]
lemma LiveLoad.taken_cache (load : LiveLoad K V) (l : Loader K V) :
    (load.taken l).cache = l.cache := by
  unfold LiveLoad.taken
  split_ifs <;> rfl

omit [DecidableEq K] in
lemma LiveLoad.taken_senders (load : LiveLoad K V) (l : Loader K V) :
    ((load.taken l).pending ++ (load.batch l ++ held)).Perm
      (l.pending ++ (load.phase.held ++ held)) := by
  unfold LiveLoad.taken LiveLoad.batch
  rcases load with ⟨id, key, fetch, _ | result | ⟨result, batch, f⟩ | result⟩ <;>
    simp [Phase.isCollecting, Phase.held, takePending]

lemma Loader.keptBy_sublist (l : Loader K V) (batch : List (Registration K))
    (outcome : Except RpcError (List V)) : (l.keptBy batch outcome).Sublist l.cache := by
  unfold keptBy
  split
  · exact List.Sublist.refl _
  · exact filter_sublist

omit [DecidableEq K] in
lemma Accounted.taken {others : List (LiveLoad K V)}
    (h : Accounted l others load.phase.held load.phase.isCollecting.toNat calls) :
    Accounted (load.taken l) others (load.batch l) 0 calls := by
  rcases load with ⟨id, key, fetch, _ | result | ⟨result, batch, f⟩ | result⟩
  · exact h
  · exact Accounted.take h
  · exact h
  · exact h

omit [DecidableEq K] in
lemma Guarded.taken {others : List (LiveLoad K V)} {key : K}
    (h : Guarded l others load.phase.held key) :
    Guarded (load.taken l) others (load.batch l) key := by
  rcases load with ⟨id, key, fetch, _ | result | ⟨result, batch, f⟩ | result⟩
  · exact h
  · exact Guarded.take h
  · exact h
  · exact h

namespace Turned

variable {others : List (LiveLoad K V)} {key : K} {batches : List (List K)}
  {log : List (Event K V)}

lemma ordered (hturned : Turned l load t l' events) (h : l.Ordered (load.phase.held ++ held))
    (hinv : l.Inv (load.phase.held ++ held) calls) :
    l'.Ordered (heldBy (t.left load) ++ held) := by
  cases hturned with
  | registers hidle hnew hphase =>
    rw [hidle.2] at h hinv
    rcases hphase with rfl | rfl <;> exact h.register hinv hnew
  | waits hidle _ =>
    rw [hidle.2] at h
    exact h
  | returns hidle _ _ =>
    rw [hidle.2] at h
    exact h
  | fetches =>
    refine h.mono (fun x hx => (load.taken_senders l).mem_iff.mp ?_) (by simp)
    simpa [heldBy, Turn.left, Phase.held] using hx
  | settles hmem hown =>
    rw [settle_eq]
    refine h.mono (fun x hx => (load.taken_senders l).mem_iff.mp ?_) ?_
    · simp only [heldBy, Turn.left, flatMap_nil, nil_append, mem_append] at hx ⊢
      tauto
    · exact (keptBy_sublist ..).trans (by simp)

lemma logged (hturned : Turned l load t l' events) (h : Logged l batches log)
    (hopen : load.phase.isCollecting → l.pending ≠ []) :
    Logged l' ((load.call l batches).map Prod.fst ++ batches) (events ++ log) := by
  have htaken : Logged (load.taken l) ((load.call l batches).map Prod.fst ++ batches)
      (load.dispatch l ++ log) := by
    unfold LiveLoad.taken LiveLoad.call LiveLoad.dispatch
    split_ifs with hcollecting
    · exact h.take (hopen hcollecting)
    · exact h
  have hidle : load.Idle → (load.call l batches).map Prod.fst ++ batches = batches := by
    intro hidle
    simp [LiveLoad.call, hidle.1]
  cases hturned with
  | registers hload _ _ =>
    rw [hidle hload]
    exact h.register load.key _
  | waits hload _ =>
    rw [hidle hload]
    exact h
  | returns hload _ _ =>
    rw [hidle hload]
    exact h.quiet (.inl ⟨_, _, rfl⟩) rfl rfl
  | fetches => exact htaken
  | settles _ _ =>
    rw [settle_eq]
    exact htaken.quiet (.inl ⟨_, _, rfl⟩) rfl rfl

section

variable (hturned : Turned l load t l' events)
  (hacc : Accounted l others load.phase.held load.phase.isCollecting.toNat calls)
  (hcache : (l.cache.map Prod.fst).Nodup) (h : Guarded l others load.phase.held key)

include hturned hacc hcache h

lemma holds (hholds : l.Holds key) : l'.Holds key := by
  have htaken : (load.taken l).Holds key := by
    unfold LiveLoad.taken
    split_ifs <;> exact hholds
  cases hturned with
  | registers _ _ _ =>
    obtain ⟨result, v, hmem, hvalue⟩ := hholds
    exact ⟨result, v, mem_cons_of_mem _ hmem, hvalue⟩
  | waits _ _ | returns _ _ _ => exact hholds
  | fetches => exact htaken
  | settles _ _ =>
    rw [settle_eq]
    exact htaken.release hacc.taken.loader (by simpa using hcache) h.taken.senders
      (spares_settle ..)

section

variable (hload : load.key = key → ∀ result, load.phase = .waiting result → l.Kept key result)

include hload

lemma holds_of_returned {v : V} (hmem : .returned key (.ok v) ∈ events) : l'.Holds key := by
  cases hturned with
  | registers _ _ _ | waits _ _ => simp at hmem
  | @returns result outcome _ hresult houtcome =>
    simp only [mem_singleton, Event.returned.injEq] at hmem
    obtain ⟨rfl, rfl⟩ := hmem
    rcases hresult with hphase | hcached
    · exact ⟨result, v, hload rfl result hphase v houtcome, houtcome⟩
    · exact ⟨result, v, hcached, houtcome⟩
  | fetches =>
    unfold LiveLoad.dispatch at hmem
    split_ifs at hmem <;> simp at hmem
  | @settles result outcome own hbatch hown =>
    have hreturned : Event.returned key (.ok v) = (.returned load.key own : Event K V) := by
      unfold LiveLoad.dispatch at hmem
      split_ifs at hmem <;> simpa using hmem
    cases hreturned
    have hsender : (load.key, result) ∈ (load.taken l).pending ++ (load.batch l ++ heldBy others) :=
      by simp [hbatch]
    have hnone := hacc.taken.loader.unsettled _ hsender
    have hkept : (load.taken l).Kept load.key result := by
      intro v hv
      rw [hnone] at hv
      cases hv
    have hafter := hkept.release hacc.taken.loader (by simpa using hcache) h.taken.senders
      (spares_settle (load.taken l) (load.batch l) outcome) fun _ => hsender
    rw [← settle_eq] at hafter
    exact ⟨result, v, hafter v hown, hown⟩

lemma guarded :
    Guarded l' others (heldBy (t.left load)) key ∧
      ∀ x ∈ t.left load, x.key = key → ∀ result, x.phase = .waiting result →
        l'.Kept key result := by
  cases hturned with
  | @registers phase hidle _ hphase =>
    rw [hidle.2] at h
    have hheld : heldBy ((Turn.pending phase).left load) = [] := by
      rcases hphase with rfl | rfl <;> rfl
    rw [hheld]
    refine ⟨h.register load.key, fun x hx _ result hwaiting v hv => ?_⟩
    -- The result is new, so nothing was settled under its number.
    cases mem_singleton.mp hx
    have hresult : result = l.next := by
      rcases hphase with rfl | rfl <;> cases hwaiting
      rfl
    have hunused := hacc.loader.unused l.next le_rfl
    rw [hresult] at hv
    exact absurd (hunused.symm.trans hv) (by simp)
  | @waits result hidle hresult =>
    rw [hidle.2] at h
    refine ⟨h, fun x hx hkey r hwaiting v hv => ?_⟩
    cases mem_singleton.mp hx
    cases hwaiting
    rcases hresult with hphase | hcached
    · exact hload hkey result hphase v hv
    · exact hkey ▸ hcached
  | returns hidle _ _ =>
    rw [hidle.2] at h
    exact ⟨h, by simp [Turn.left]⟩
  | fetches =>
    refine ⟨by simpa [heldBy, Turn.left, Phase.held] using h.taken, fun x hx _ r hwaiting => ?_⟩
    cases mem_singleton.mp hx
    cases hwaiting
  | settles _ _ =>
    rw [settle_eq]
    exact ⟨h.taken.release hacc.taken (by simpa using hcache) (spares_settle ..),
      by simp [Turn.left]⟩

end

end

/-- A turn makes a call for the batch that is being collected, or none. -/
lemma dispatched_suffix (hturned : Turned l load t l' events) {batch : List (Registration K)}
    {earlier : List (Event K V)} (hsuffix : .dispatched batch :: earlier <:+ events ++ log) :
    .dispatched batch :: earlier <:+ log ∨ batch = l.pending ∧ earlier = log := by
  have hdispatch : .dispatched batch :: earlier <:+ load.dispatch l ++ log →
      .dispatched batch :: earlier <:+ log ∨ batch = l.pending ∧ earlier = log := by
    intro hsuffix
    unfold LiveLoad.dispatch at hsuffix
    split_ifs at hsuffix
    · rcases suffix_cons_iff.mp hsuffix with heq | hsuffix
      · cases heq
        exact .inr ⟨rfl, rfl⟩
      · exact .inl hsuffix
    · exact .inl hsuffix
  have hother : ∀ {e : Event K V} {rest : List (Event K V)}, (∀ batch, e ≠ .dispatched batch) →
      .dispatched batch :: earlier <:+ e :: rest → .dispatched batch :: earlier <:+ rest := by
    intro e rest he hsuffix
    rcases suffix_cons_iff.mp hsuffix with heq | hsuffix
    · exact absurd (cons.inj heq).1.symm (he batch)
    · exact hsuffix
  cases hturned with
  | registers _ _ _ => exact .inl (hother (by simp) hsuffix)
  | waits _ _ => exact .inl hsuffix
  | returns _ _ _ => exact .inl (hother (by simp) hsuffix)
  | fetches => exact hdispatch hsuffix
  | settles _ _ => exact hdispatch (hother (by simp) hsuffix)

end Turned

lemma LiveLoad.drop_eq (load : LiveLoad K V) (l : Loader K V) :
    l.drop load.phase = (load.taken l).abandon (load.batch l) := by
  rcases load with ⟨id, key, fetch, _ | result | ⟨result, batch, f⟩ | result⟩
  · simp [LiveLoad.taken, LiveLoad.batch, Loader.drop, Loader.abandon, Loader.evict,
      Phase.isCollecting, Phase.held]
  · rfl
  · rfl
  · simp [LiveLoad.taken, LiveLoad.batch, Loader.drop, Loader.abandon, Loader.evict,
      Phase.isCollecting, Phase.held]

end Turn

/-! ## What a run preserves -/

namespace Chronicle

variable [DecidableEq K] {c c' : Chronicle K V} {before after : List (LiveLoad K V)}
  {load : LiveLoad K V} {key : K}

structure Inv (c : Chronicle K V) : Prop where
  history : c.toHistory.Inv
  ordered : c.session.loader.Ordered (heldBy c.session.loads)
  logged : Logged c.session.loader c.session.batches c.log

/-- What every step preserves of a key unless it clears it: whatever is still to come for it is
cached, its value is too once a load has returned it, and every batch has it at most once and not
at all after that. -/
structure Once (c : Chronicle K V) (key : K) : Prop where
  guarded : Guarded c.session.loader c.session.loads [] key
  holds : ∀ v, .returned key (.ok v) ∈ c.log → c.session.loader.Holds key
  dispatched : ∀ batch earlier, .dispatched batch :: earlier <:+ c.log →
    (∀ r r', (key, r) ∈ batch → (key, r') ∈ batch → r = r') ∧
      ∀ v, .returned key (.ok v) ∈ earlier → key ∉ batch.map Prod.fst

lemma turn_session (c : Chronicle K V) (before : List (LiveLoad K V)) (load : LiveLoad K V)
    (after : List (LiveLoad K V)) :
    (c.turn before load after).session =
      ⟨(Session.step load c.session.loader c.session.batches).2.1,
        before ++ (Session.step load c.session.loader c.session.batches).1.left load ++ after,
        (Session.step load c.session.loader c.session.batches).2.2⟩ := by
  simp only [turn, History.turn]
  rcases Session.step load c.session.loader c.session.batches with
    ⟨phase | outcome, l, batches⟩ <;> simp [Turn.left]

omit [DecidableEq K] in
/-- The others, and the load, which is to take a turn. -/
lemma Inv.focus (h : c.Inv) (hloads : c.session.loads = before ++ load :: after) :
    Accounted c.session.loader (before ++ after) load.phase.held load.phase.isCollecting.toNat
        c.calls ∧
      load.phase.Ok c.session.loader (load.phase.held ++ heldBy (before ++ after)) c.calls
        load.key := by
  have haccounted := h.history.accounted
  rw [hloads] at haccounted
  exact Accounted.focus_iff.mp haccounted

lemma Inv.turned (h : c.Inv) (hloads : c.session.loads = before ++ load :: after) :
    Turned c.session.loader load (Session.step load c.session.loader c.session.batches).1
      (Session.step load c.session.loader c.session.batches).2.1
      (load.events c.session.loader c.session.batches) :=
  load.turned _ (h.focus hloads).1 (h.focus hloads).2

omit [DecidableEq K] in
private lemma mem_heldBy_insert {left : List (LiveLoad K V)} {x : Registration K} :
    x ∈ heldBy (before ++ left ++ after) ↔ x ∈ heldBy left ++ heldBy (before ++ after) := by
  simp only [heldBy, flatMap_append, mem_append]
  tauto

omit [DecidableEq K] in
private lemma mem_heldBy_focus {x : Registration K} :
    x ∈ heldBy (before ++ load :: after) ↔
      x ∈ load.phase.held ++ heldBy (before ++ after) := by
  simp only [heldBy, flatMap_append, flatMap_cons, mem_append]
  tauto

omit [DecidableEq K] in
private lemma ordered_congr {l : Loader K V} {held held' : List (Registration K)}
    (h : l.Ordered held) (hheld : ∀ x, x ∈ held' ↔ x ∈ held) : l.Ordered held' := by
  refine h.mono (fun x hx => ?_) (List.Sublist.refl _)
  rw [mem_append, hheld x, ← mem_append] at hx
  exact hx

lemma Inv.turn (h : c.Inv) (hloads : c.session.loads = before ++ load :: after) :
    (c.turn before load after).Inv := by
  obtain ⟨hothers, hphase⟩ := h.focus hloads
  have hordered := h.ordered
  rw [hloads] at hordered
  refine ⟨(h.history.turn hloads).1, ?_, ?_⟩
  · rw [turn_session]
    refine ordered_congr ((h.turned hloads).ordered ?_ hothers.loader)
      fun x => mem_heldBy_insert
    exact ordered_congr hordered fun x => mem_heldBy_focus.symm
  · rw [turn_session, (hothers.step c.session.batches hphase).2]
    refine (h.turned hloads).logged h.logged fun hcollecting => ?_
    cases hload : load.phase with
    | collecting result =>
      rw [hload] at hphase
      exact ne_nil_of_mem hphase
    | fresh | fetching | waiting => simp [hload, Phase.isCollecting] at hcollecting

lemma Inv.drop (h : c.Inv) (hloads : c.session.loads = before ++ load :: after) :
    (c.drop before load after).Inv := by
  have hordered := h.ordered
  rw [hloads] at hordered
  refine ⟨⟨(h.focus hloads).1.drop, h.history.batches, h.history.returned⟩, ?_, ?_⟩
  · simp only [Chronicle.drop, load.drop_eq]
    refine hordered.mono (fun x hx => ?_) ?_
    · rw [mem_append, mem_heldBy_focus, ← mem_append]
      refine (load.taken_senders c.session.loader).mem_iff.mp ?_
      change x ∈ (load.taken c.session.loader).pending ++ heldBy (before ++ after) at hx
      simp only [mem_append] at hx ⊢
      tauto
    · refine List.Sublist.trans filter_sublist ?_
      rw [load.taken_cache]
  · simp only [Chronicle.drop, load.drop_eq]
    have htaken : Logged (load.taken c.session.loader) c.session.batches
        ((if load.phase.isCollecting then [.discarded] else []) ++ c.log) := by
      unfold LiveLoad.taken
      split_ifs
      · exact h.logged.discard
      · exact h.logged
    exact ⟨htaken.pending, htaken.batches, ⟨htaken.numbered.nodup, htaken.numbered.lt_next⟩,
      htaken.dispatched⟩

lemma Inv.next (h : c.Inv) (hstep : Step c c') : c'.Inv := by
  cases hstep with
  | turn hloads => exact h.turn hloads
  | drop hloads => exact h.drop hloads
  | begin id key fetch =>
    refine ⟨h.history.act (.begin id key fetch), ?_, h.logged⟩
    refine ordered_congr h.ordered fun x => ?_
    simp [Session.begin, heldBy, Phase.held]
  | clear key =>
    refine ⟨h.history.act (.clear key), ?_, h.logged.quiet (.inr ⟨key, rfl⟩) rfl rfl⟩
    exact h.ordered.mono (fun _ hx => hx) filter_sublist

lemma Reachable.inv (h : Reachable c) : c.Inv := by
  induction h with
  | start =>
    exact ⟨History.Inv.run [], ⟨nodup_nil, by simp [Chronicle.start, empty,
      Session.empty]⟩, Logged.start⟩
  | next _ hstep ih => exact ih.next hstep

/-! ## Keys that are not cleared -/

omit [DecidableEq K] in
lemma Once.focus (h : c.Once key) (hloads : c.session.loads = before ++ load :: after) :
    Guarded c.session.loader (before ++ after) load.phase.held key ∧
      (load.key = key → ∀ result, load.phase = .waiting result →
        c.session.loader.Kept key result) := by
  have hguarded := h.guarded
  rw [hloads] at hguarded
  exact Guarded.focus_iff.mp hguarded

lemma Once.turn (h : c.Once key) (hinv : c.Inv)
    (hloads : c.session.loads = before ++ load :: after) :
    (c.turn before load after).Once key := by
  obtain ⟨hothers, hload⟩ := h.focus hloads
  have hturned := hinv.turned hloads
  have hacc := (hinv.focus hloads).1
  have hcache := hinv.ordered.nodup
  refine ⟨?_, fun v hmem => ?_, fun batch earlier hsuffix => ?_⟩
  · obtain ⟨hguarded, hleft⟩ := hturned.guarded hacc hcache hothers hload
    rw [turn_session]
    refine ⟨fun r hr => hguarded.senders r ?_, fun x hx => ?_⟩
    · rw [nil_append, mem_append, mem_heldBy_insert, ← mem_append] at hr
      exact hr
    · simp only [mem_append] at hx
      rcases hx with (hx | hx) | hx
      · exact hguarded.kept x (mem_append_left _ hx)
      · exact hleft x hx
      · exact hguarded.kept x (mem_append_right _ hx)
  · rw [turn_session]
    rcases mem_append.mp hmem with hmem | hmem
    · exact hturned.holds_of_returned hacc hcache hothers hload hmem
    · exact hturned.holds hacc hcache hothers (h.holds v hmem)
  · rcases hturned.dispatched_suffix hsuffix with hsuffix | ⟨rfl, rfl⟩
    · exact h.dispatched batch earlier hsuffix
    · -- The batch is what is pending: all of it is cached, and cached values are not in it.
      have hexclusive := hothers.senders
      refine ⟨fun r r' hr hr' => ?_, fun v hmem hkey => ?_⟩
      · exact cached_unique hcache (hexclusive r (mem_append_left _ hr))
          (hexclusive r' (mem_append_left _ hr'))
      · refine (h.holds v hmem).not_mem_senders hacc.loader hcache hexclusive ?_
        rw [map_append]
        exact mem_append_left _ hkey

lemma Once.drop (h : c.Once key) (hinv : c.Inv)
    (hloads : c.session.loads = before ++ load :: after) :
    (c.drop before load after).Once key := by
  have hguarded := (h.focus hloads).1.taken
  have hacc := (hinv.focus hloads).1.taken
  have hcache : ((load.taken c.session.loader).cache.map Prod.fst).Nodup := by
    rw [load.taken_cache]
    exact hinv.ordered.nodup
  have hlog : ∀ {e : Event K V}, e ≠ .discarded → e ∈ (c.drop before load after).log →
      e ∈ c.log := by
    intro e he hmem
    simp only [Chronicle.drop] at hmem
    split_ifs at hmem
    · exact (mem_cons.mp hmem).resolve_left he
    · exact hmem
  refine ⟨?_, fun v hmem => ?_, fun batch earlier hsuffix => ?_⟩
  · simp only [Chronicle.drop, load.drop_eq]
    exact hguarded.release hacc hcache (spares_abandon ..)
  · have hholds : (load.taken c.session.loader).Holds key := by
      have hbefore := h.holds v (hlog (by simp) hmem)
      unfold LiveLoad.taken
      split_ifs <;> exact hbefore
    have hafter := hholds.release hacc.loader hcache hguarded.senders
      (spares_abandon _ (load.batch c.session.loader))
    simp only [Chronicle.drop, load.drop_eq]
    exact hafter
  · simp only [Chronicle.drop] at hsuffix
    split_ifs at hsuffix
    · rcases suffix_cons_iff.mp hsuffix with heq | hsuffix
      · cases heq
      · exact h.dispatched batch earlier hsuffix
    · exact h.dispatched batch earlier hsuffix

lemma Once.next (h : c.Once key) (hinv : c.Inv) (hstep : Step c c')
    (hclear : .cleared key ∉ c'.log) : c'.Once key := by
  cases hstep with
  | turn hloads => exact h.turn hinv hloads
  | drop hloads => exact h.drop hinv hloads
  | begin id other fetch =>
    refine ⟨⟨fun r hr => h.guarded.senders r ?_, fun load hload hkey result hphase => ?_⟩,
      h.holds, h.dispatched⟩
    · simpa [Session.begin, heldBy, Phase.held] using hr
    · rcases mem_append.mp hload with hload | hload
      · exact h.guarded.kept load hload hkey result hphase
      · cases mem_singleton.mp hload
        cases hphase
  | clear other =>
    have hne : key ∉ [other] := by
      rw [mem_singleton]
      rintro rfl
      exact hclear mem_cons_self
    refine ⟨h.guarded.evict hne, fun v hmem => ?_, fun batch earlier hsuffix => ?_⟩
    · obtain ⟨result, v, hcached, hvalue⟩ := h.holds v (by simpa using hmem)
      exact ⟨result, v, mem_evict_iff.mpr ⟨hcached, hne⟩, hvalue⟩
    · rcases suffix_cons_iff.mp hsuffix with heq | hsuffix
      · cases heq
      · exact h.dispatched batch earlier hsuffix

lemma Step.cleared_mem (hstep : Step c c') (h : .cleared key ∈ c.log) : .cleared key ∈ c'.log := by
  cases hstep with
  | begin => exact h
  | turn | drop => exact mem_append_right _ h
  | clear => exact mem_cons_of_mem _ h

lemma Reachable.once (h : Reachable c) (hclear : .cleared key ∉ c.log) : c.Once key := by
  induction h with
  | start =>
    exact ⟨⟨by simp [Loader.Exclusive, Chronicle.start, Session.empty, empty, heldBy],
      by simp [Chronicle.start, Session.empty]⟩, by simp [Chronicle.start],
      by simp [Chronicle.start]⟩
  | next hreach hstep ih =>
    exact (ih fun hmem => hclear (hstep.cleared_mem hmem)).next hreach.inv hstep hclear

/-- In a run in which no key is cleared, at any moment no key is twice among the registrations that
are still to come. Every batch that was fetched holds just the registrations that were made since
it was opened, in their order and each for another key, and none for a key of which a load had
returned a value by then. The calls that were made are these batches, one call for each: no
registration is in two of them. -/
theorem Reachable.one_request (h : Reachable c) (hclear : ∀ key, .cleared key ∉ c.log) :
    (c.session.senders.map Prod.fst).Nodup ∧
    (∀ batch earlier, .dispatched batch :: earlier <:+ c.log →
      batch = collected earlier ∧ batch ≠ [] ∧ (batch.map Prod.fst).Nodup ∧
      ∀ key v, .returned key (.ok v) ∈ earlier → key ∉ batch.map Prod.fst) ∧
    (dispatches c.log).map (·.map Prod.fst) = c.session.batches ∧
    ((dispatches c.log).flatten.map Prod.snd).Nodup := by
  have hinv := h.inv
  have honce : ∀ key, c.Once key := fun key => h.once (hclear key)
  refine ⟨?_, fun batch earlier hsuffix => ?_, hinv.logged.batches, ?_⟩
  · exact Loader.nodup_sender_keys hinv.history.accounted.loader hinv.ordered.nodup
      fun key => (honce key).guarded.senders
  · obtain ⟨hcollected, hne⟩ := hinv.logged.dispatched batch earlier hsuffix
    refine ⟨hcollected.symm, hne, ?_, fun key => ((honce key).dispatched batch earlier hsuffix).2⟩
    have hnumbers : (batch.map Prod.snd).Nodup := by
      have hmem : batch ∈ dispatches c.log :=
        List.mem_filterMap.mpr ⟨_, hsuffix.subset List.mem_cons_self, rfl⟩
      have hall := hinv.logged.numbered.nodup
      rw [List.map_append, List.nodup_append, List.map_flatten, List.nodup_flatten] at hall
      exact hall.2.1.1 _ (List.mem_map_of_mem hmem)
    refine hnumbers.of_map.map_on ?_
    rintro ⟨key, r⟩ hr ⟨key', r'⟩ hr' rfl
    rw [((honce key).dispatched batch earlier hsuffix).1 r r' hr hr']
  · have hall := hinv.logged.numbered.nodup
    rw [List.map_append] at hall
    exact hall.of_append_right

/-- Two loads share a key. The load that opened their batch is dropped, so they begin again, one
call fetches the key for both, and a later load of it makes none. -/
theorem Reachable.one_request_after_drop :
    let double : Nat → List Nat → Fetch Nat := fun _ keys => .after 0 (.ok (keys.map (· * 2)))
    let actions : List (Action Nat Nat) := [.begin "a" 7 double, .begin "b" 1 double,
      .begin "c" 1 double, .settle 1, .drop "a", .settle 2, .begin "d" 1 double,
      .begin "e" 2 double, .settle 2]
    ∃ c : Chronicle Nat Nat, Reachable c ∧ (∀ key, .cleared key ∉ c.log) ∧
      c.session = (Session.run actions).2 ∧
      (dispatches c.log).map (·.map Prod.fst) = [[2], [1]] ∧
      ((dispatches c.log).flatten.map Prod.snd).Nodup := by
  intro double actions
  obtain ⟨c, hc, -, hsession, hlog⟩ := exists_of_actions actions
  have hclear : ∀ key, .cleared key ∉ c.log := by
    intro key hmem
    simpa [actions] using hlog key hmem
  obtain ⟨-, -, hbatches, hnumbers⟩ := hc.one_request hclear
  have hrun : (Session.run actions).2.batches = [[2], [1]] := by cbv
  exact ⟨c, hc, hclear, hsession, by rw [hbatches, hsession, hrun], hnumbers⟩

end Chronicle

end Protobuf.Rpc
