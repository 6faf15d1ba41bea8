import Mathlib
import Protobuf.Schema.Check
import Protobuf.Schema.Registry

/-!
# What a registry of checked files holds

Every name stands for one entry, and every registered message, be it nested or not,
was checked.
-/

namespace Protobuf

open List

variable {ε α β : Type}

lemma exists_ok_of_any {x : Except ε α} {p : α → Bool} (h : x.toOption.any p) :
    ∃ a, x = .ok a ∧ p a := by
  cases x with
  | error e => exact absurd h Bool.false_ne_true
  | ok a => exact ⟨a, rfl, h⟩

variable {f : α → Except ε β} {as : List α} {bs : List β}

lemma ok_of_bind {x : Except ε α} {b : β} (h : x >>= f = .ok b) : ∃ a, x = .ok a ∧ f a = .ok b := by
  cases x with
  | error e => cases h
  | ok a => exact ⟨a, rfl, h⟩

lemma mapM_eq_ok_iff : as.mapM f = .ok bs ↔ List.Forall₂ (fun a b => f a = .ok b) as bs := by
  induction as generalizing bs with
  | nil =>
    constructor
    · intro h
      cases h
      exact .nil
    · intro h
      cases h
      rfl
  | cons a as ih =>
    rw [mapM_cons]
    constructor
    · intro h
      obtain ⟨b, hb, h⟩ := ok_of_bind h
      obtain ⟨bs', hbs, h⟩ := ok_of_bind h
      cases h
      exact .cons hb (ih.mp hbs)
    · rintro (_ | ⟨hb, hbs⟩)
      rw [hb, ih.mpr hbs]
      rfl

lemma exists_of_forall₂ {R : α → β → Prop} (h : List.Forall₂ R as bs) {b : β} (hb : b ∈ bs) :
    ∃ a ∈ as, R a b := by
  induction h with
  | nil => cases hb
  | cons hab _ ih =>
    rcases mem_cons.mp hb with rfl | hb
    · exact ⟨_, mem_cons_self .., hab⟩
    · obtain ⟨a, ha, hr⟩ := ih hb
      exact ⟨a, mem_cons_of_mem _ ha, hr⟩

lemma exists_of_mem_mapM (h : as.mapM f = .ok bs) : ∀ b ∈ bs, ∃ a ∈ as, f a = .ok b :=
  fun _ => exists_of_forall₂ (mapM_eq_ok_iff.mp h)

lemma map_eq_of_forall₂ {γ : Type} {f : α → γ} {g : β → γ}
    (h : List.Forall₂ (fun a b => f a = g b) as bs) : as.map f = bs.map g :=
  forall₂_eq_eq_eq ▸ forall₂_map_left_iff.mpr (forall₂_map_right_iff.mpr h)

/-- What each result shows of the element that it was made from, the list of them shows too. -/
lemma map_eq_of_mapM {γ : Type} {g : β → γ} {k : α → γ} (hf : ∀ a b, f a = .ok b → g b = k a)
    (h : as.mapM f = .ok bs) : bs.map g = as.map k :=
  map_eq_of_forall₂ ((mapM_eq_ok_iff.mp h).imp hf).flip

lemma exists_eq_map_of_perm_map {f : α → β} (h : bs.Perm (as.map f)) :
    ∃ as', as.Perm as' ∧ bs = as'.map f := by
  have hmap : List.Forall₂ (fun b a => b = f a) (as.map f) as :=
    forall₂_map_left_iff.mpr (forall₂_same.mpr fun _ _ => rfl)
  obtain ⟨as', hbs, has⟩ := perm_comp_forall₂ h hmap
  refine ⟨as', has.symm, ?_⟩
  rw [← forall₂_eq_eq_eq]
  exact forall₂_map_right_iff.mpr hbs

namespace Schema

/-! ## Checked messages -/

/-- What checking makes sure of in a message: its fields have numbers that a tag can carry, are
told apart by their places, and belong to oneofs that it declares. -/
structure Message.Checked (m : Message) : Prop where
  number_lt : ∀ f ∈ m.fields, f.number < 536870912
  nodup : m.fields.Nodup
  oneof_lt : ∀ f ∈ m.fields, ∀ group, f.oneof = some group → group < m.oneofs.length

def Entry.Checked (e : Entry) : Prop :=
  ∀ m, e.message? = some m → m.Checked

variable {path : SourcePath}

lemma checkField_eq_ok {owner : String} {d : Descriptor.Field} {f : Field}
    (h : checkField owner path d = .ok f) :
    (0 < f.number ∧ f.number < 536870912) ∧ f.path = path ∧
      (f.proto3Optional → f.oneof = none) := by
  by_cases hrange : d.number < 1 ∨ maxFieldNumber < d.number
  · simp only [checkField, hrange, if_true] at h
    cases h
  · simp only [checkField, hrange, if_false] at h
    obtain ⟨type, -, h⟩ := ok_of_bind h
    have hf : f.number = d.number.toNat ∧ f.path = path ∧
        (f.proto3Optional = true → f.oneof = none) := by
      split_ifs at h <;> cases h <;> exact ⟨rfl, rfl, by simp_all⟩
    simp only [maxFieldNumber] at hrange
    exact ⟨⟨by omega, by omega⟩, hf.2⟩

lemma nodup_numbered {α : Type} (parent : SourcePath) (step : Int) (items : List α) :
    ((numbered parent step items).map Prod.fst).Nodup := by
  have hindices : (items.zipIdx.map Prod.snd).Nodup := by
    rw [zipIdx_map_snd]
    exact nodup_range'
  have hpaths : (numbered parent step items).map Prod.fst =
      (items.zipIdx.map Prod.snd).map fun i : Nat => parent ++ [step, (i : Int)] := by
    simp only [numbered, map_map]
    rfl
  rw [hpaths]
  refine hindices.map fun i j hij => ?_
  simpa using hij

lemma checkOneofs_eq_ok {owner : String} {count : Nat} {fields : List Field}
    (h : checkOneofs owner count fields = .ok ()) :
    ∀ f ∈ fields, ∀ group, f.oneof = some group → group < count := by
  induction fields with
  | nil => simp
  | cons f fields ih =>
    unfold checkOneofs at h
    intro g hg group hgroup
    rcases mem_cons.mp hg with rfl | hg
    · simp only [hgroup] at h
      split_ifs at h with hlt
      exact hlt
    · split at h
      · split_ifs at h
        exact ih h g hg group hgroup
      · exact ih h g hg group hgroup

/-- What a checked message consists of. -/
lemma checkMessage_eq_ok {scope name : String} {fields : List Descriptor.Field}
    {messages : List Descriptor.Message} {enums : List Descriptor.Enum} {oneofs : List String}
    {mapEntry : Bool} {m : Message}
    (h : checkMessage scope path ⟨name, fields, messages, enums, oneofs, mapEntry⟩ = .ok m) :
    ∃ fields' messages',
      (numbered path 2 fields).mapM (fun (p, f) => checkField (qualify scope name) p f) =
        .ok fields' ∧
      checkMessages (qualify scope name) (path ++ [3]) 0 messages = .ok messages' ∧
      checkOneofs (qualify scope name) oneofs.length fields' = .ok () ∧
      m = ⟨name, fields', messages', (numbered path 4 enums).map fun (p, e) => placeEnum p e,
        (numbered path 8 oneofs).map fun (p, o) => ⟨o, p⟩, mapEntry && areMapFields fields',
        path⟩ := by
  unfold checkMessage at h
  obtain ⟨fields', hfields, h⟩ := ok_of_bind h
  obtain ⟨messages', hmessages, h⟩ := ok_of_bind h
  obtain ⟨⟨⟩, honeofs, h⟩ := ok_of_bind h
  exact ⟨fields', messages', hfields, hmessages, honeofs, (Except.ok.inj h).symm⟩

section

variable {scope : String} {d : Descriptor.Message} {m : Message}
  (h : checkMessage scope path d = .ok m)

include h

lemma checkMessage_checked : m.Checked := by
  obtain ⟨name, fields, messages, enums, oneofs, mapEntry⟩ := d
  obtain ⟨fields', -, hfields, -, honeofs, rfl⟩ := checkMessage_eq_ok h
  have hpaths : fields'.map Field.path = (numbered path 2 fields).map Prod.fst :=
    map_eq_of_mapM (fun _ _ hd => (checkField_eq_ok hd).2.1) hfields
  refine ⟨fun f hf => ?_, ?_, ?_⟩
  · obtain ⟨⟨p, d⟩, -, hd⟩ := exists_of_mem_mapM hfields f hf
    exact (checkField_eq_ok hd).1.2
  · apply List.Nodup.of_map Field.path
    rw [hpaths]
    exact nodup_numbered path 2 fields
  · simpa [numbered] using checkOneofs_eq_ok honeofs

/-- A message counts as a map entry only if its fields are called so. -/
lemma checkMessage_mapFields {key value : Field} (hfields : m.mapFields? = some (key, value)) :
    key.name = "key" ∧ value.name = "value" := by
  obtain ⟨name, fields, messages, enums, oneofs, mapEntry⟩ := d
  obtain ⟨fields', messages', -, -, -, rfl⟩ := checkMessage_eq_ok h
  unfold Message.mapFields? at hfields
  split at hfields
  · rename_i rest hentry hlist
    cases hfields
    simp only [Bool.and_eq_true] at hentry hlist
    rw [hlist] at hentry
    obtain ⟨-, hnames⟩ := hentry
    unfold areMapFields at hnames
    split at hnames
    · rename_i heq
      cases heq
      simpa using hnames
    · cases hnames
  · cases hfields

end

section

variable {P : Message → Prop}

mutual

/-- What checking makes sure of in a message holds of the messages nested in it as well. -/
theorem checkMessage_entries
    (hP : ∀ {scope path d m}, checkMessage scope path d = .ok m → P m)
    {scope : String} {path : SourcePath} :
    ∀ {d : Descriptor.Message} {m : Message}, checkMessage scope path d = .ok m →
      ∀ o scope' outer, ∀ e ∈ messageEntries o scope' outer m, ∀ m', e.message? = some m' → P m'
  | ⟨name, fields, messages, enums, oneofs, mapEntry⟩, m, h, o, scope', outer => by
    have hm := hP h
    obtain ⟨fields', messages', -, hmessages, -, rfl⟩ := checkMessage_eq_ok h
    have hinner := checkMessages_entries hP hmessages
    intro e he m' hm'
    simp only [messageEntries, mem_append, mem_map, mem_singleton] at he
    rcases he with (⟨enum, -, rfl⟩ | he) | rfl
    · cases hm'
    · exact hinner _ _ _ e he m' hm'
    · cases hm'
      exact hm

theorem checkMessages_entries
    (hP : ∀ {scope path d m}, checkMessage scope path d = .ok m → P m)
    {scope : String} {list : SourcePath} :
    ∀ {index : Nat} {ds : List Descriptor.Message} {ms : List Message},
      checkMessages scope list index ds = .ok ms →
      ∀ o scope' outer, ∀ e ∈ messagesEntries o scope' outer ms, ∀ m', e.message? = some m' → P m'
  | _, [], ms, h, o, scope', outer => by
    cases h
    simp [messagesEntries]
  | index, d :: ds, ms, h, o, scope', outer => by
    unfold checkMessages at h
    obtain ⟨m, hm, h⟩ := ok_of_bind h
    obtain ⟨ms', hms, h⟩ := ok_of_bind h
    cases h
    intro e he
    simp only [messagesEntries, mem_append] at he
    rcases he with he | he
    · exact checkMessage_entries hP hm o scope' outer e he
    · exact checkMessages_entries hP hms o scope' outer e he

end

/-- What a checked file consists of. -/
lemma File.check_eq_ok {d : Descriptor.File} {f : File} (h : File.check d = .ok f) :
    ∃ messages, checkMessages (packageScope d.package) [4] 0 d.messages = .ok messages ∧
      f = ⟨d.name, d.package, dialectOf d.dialect, messages,
        (numbered [] 5 d.enums).map fun (p, e) => placeEnum p e,
        (numbered [] 6 d.services).map fun (p, s) => placeService p s, d.dependencies,
        .ofLocations d.locations⟩ := by
  unfold File.check at h
  split_ifs at h
  · cases h
  · obtain ⟨messages, hmessages, h⟩ := ok_of_bind h
    cases h
    exact ⟨messages, hmessages, rfl⟩

lemma File.check_entries
    (hP : ∀ {scope path d m}, checkMessage scope path d = .ok m → P m)
    {d : Descriptor.File} {f : File} (h : File.check d = .ok f) :
    ∀ e ∈ f.entries, ∀ m, e.message? = some m → P m := by
  obtain ⟨messages, hmessages, rfl⟩ := check_eq_ok h
  intro e he
  simp only [File.entries, mem_append, mem_map] at he
  rcases he with ⟨enum, -, rfl⟩ | he
  · intro m hm
    cases hm
  · exact checkMessages_entries hP hmessages _ _ _ e he

end

/-! ## Names -/

namespace Registry

lemma mem_put {d e : Entry} {entries : List Entry} (h : d ∈ put e entries) :
    d = e ∨ d ∈ entries := by
  induction entries with
  | nil => exact .inl (mem_singleton.mp h)
  | cons c entries ih =>
    rw [put] at h
    split_ifs at h
    · rcases mem_cons.mp h with rfl | h
      · exact .inl rfl
      · exact .inr (by simp [h])
    · rcases mem_cons.mp h with rfl | h
      · exact .inr (by simp)
      · exact (ih h).imp_right fun h => by simp [h]

lemma nodup_put (e : Entry) {entries : List Entry}
    (h : (entries.map fun e => e.ref.qualifiedName).Nodup) :
    ((put e entries).map fun e => e.ref.qualifiedName).Nodup := by
  induction entries with
  | nil => simp [put]
  | cons c entries ih =>
    rw [map_cons, nodup_cons] at h
    rw [put]
    split_ifs with heq
    · rwa [map_cons, nodup_cons, ← heq]
    · rw [map_cons, nodup_cons]
      refine ⟨fun hmem => ?_, ih h.2⟩
      obtain ⟨d, hd, hname⟩ := mem_map.mp hmem
      rcases mem_put hd with rfl | hd
      · exact heq hname.symm
      · exact h.1 (mem_map.mpr ⟨d, hd, hname⟩)

lemma resolve_eq_ok {r : Registry} {name referencedBy : String} {e : Entry}
    (h : r.resolve name referencedBy = .ok e) : r.find? name = some e := by
  unfold resolve at h
  split at h
  · rename_i e' hfind
    rw [← Except.ok.inj h]
    exact hfind
  · cases h

lemma insert_entries (r : Registry) (e : Entry) : (insert r e).value.entries = put e r.entries := by
  unfold insert
  split <;> rfl

variable {files : List File}

/-- What holds of no types and is kept by registering one holds of every registry. -/
lemma ofFiles_induction {P : List Entry → Prop} (hnil : P [])
    (hput : ∀ e ∈ files.flatMap File.entries, ∀ entries, P entries → P (put e entries)) :
    P (ofFiles files).value.entries := by
  have h (es : List Entry) (hes : ∀ e ∈ es, e ∈ files.flatMap File.entries) (r : Registry)
      (hr : P r.entries) : P (es.foldlM insert r).value.entries := by
    induction es generalizing r with
    | nil => exact hr
    | cons e es ih =>
      refine ih (fun e he => hes e (by simp [he])) (insert r e).value ?_
      rw [insert_entries]
      exact hput e (hes e (by simp)) r.entries hr
  exact h _ (fun _ he => he) empty hnil

lemma ofFiles_nodup (files : List File) :
    ((ofFiles files).value.entries.map fun e => e.ref.qualifiedName).Nodup :=
  ofFiles_induction (P := fun entries => (entries.map fun e => e.ref.qualifiedName).Nodup)
    nodup_nil fun e _ _ h => nodup_put e h

/-- What checking makes sure of in a message holds of every message of checked files. -/
lemma ofFiles_messages {P : Message → Prop}
    (hP : ∀ {scope path d m}, checkMessage scope path d = .ok m → P m) {ds : List Descriptor.File}
    (h : ds.mapM File.check = .ok files) :
    ∀ e ∈ (ofFiles files).value.entries, ∀ m, e.message? = some m → P m := by
  refine ofFiles_induction (P := fun entries => ∀ e ∈ entries, ∀ m, e.message? = some m → P m)
    (by simp) ?_
  intro e he entries hentries d hd
  rcases mem_put hd with rfl | hd
  · obtain ⟨f, hf, hdf⟩ := mem_flatMap.mp he
    obtain ⟨df, -, hcheck⟩ := exists_of_mem_mapM h f hf
    exact File.check_entries hP hcheck d hdf
  · exact hentries d hd

lemma ofFiles_checked {ds : List Descriptor.File} (h : ds.mapM File.check = .ok files) :
    ∀ e ∈ (ofFiles files).value.entries, e.Checked :=
  ofFiles_messages checkMessage_checked h

lemma find?_of_mem {r : Registry} {e : Entry}
    (h : (r.entries.map fun e => e.ref.qualifiedName).Nodup) (he : e ∈ r.entries) :
    r.find? e.ref.qualifiedName = some e := by
  obtain ⟨entries⟩ := r
  change entries.find? _ = some e
  induction entries with
  | nil => cases he
  | cons c entries ih =>
    rw [map_cons, nodup_cons] at h
    rcases mem_cons.mp he with rfl | he
    · exact find?_cons_of_pos (beq_self_eq_true _)
    · refine (find?_cons_of_neg fun heq => ?_).trans (ih h.2 he)
      exact h.1 (mem_map.mpr ⟨e, he, (beq_iff_eq.mp heq).symm⟩)

end Registry

end Schema

end Protobuf
