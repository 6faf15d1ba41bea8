import Protobuf.Proofs.Codec.JsonForm
import Protobuf.Proofs.Codec.RoundTrip
import Protobuf.Proofs.Plan.JsonNames
import Protobuf.Proofs.Time.Rfc3339

/-!
# Members of a message as JSON

What a member holds, written as JSON, is read as the same if its values are. `Alike`
says what the same means: it identifies all not-a-numbers and the orders of the
entries of a map. Members are found in the object of their message because their
keys are distinct and no key is the other name of another field.
-/

open Protobuf.Json

namespace Protobuf.Codec

open Plan List

/-! ## The same message -/

mutual

/-- The same value, bit by bit, except for the payload of a not-a-number. -/
inductive Value.Alike : Value → Value → Prop
  | scalar {p q : Primitive} : p.Alike q → Value.Alike (.scalar p) (.scalar q)
  | choice (c : Choice) : Value.Alike (.choice c) (.choice c)
  | time (t : Time.Instant) : Value.Alike (.time t) (.time t)
  | message {slots slots' : List Slot} : SlotsAlike slots slots' →
      Value.Alike (.message slots) (.message slots')

/-- The same content of a member. The entries of a map have no order. -/
inductive Slot.Alike : Slot → Slot → Prop
  | plain {v v' : Value} : Value.Alike v v' → Slot.Alike (.plain v) (.plain v')
  | absent : Slot.Alike (.optional none) (.optional none)
  | present {v v' : Value} : Value.Alike v v' →
      Slot.Alike (.optional (some v)) (.optional (some v'))
  | repeated {vs vs' : List Value} : ValuesAlike vs vs' → Slot.Alike (.repeated vs) (.repeated vs')
  | map {entries ordered entries' : List (Primitive × Value)} : entries.Perm ordered →
      EntriesAlike ordered entries' → Slot.Alike (.map entries) (.map entries')
  | unset : Slot.Alike (.union none) (.union none)
  | chosen (number : Nat) {v v' : Value} : Value.Alike v v' →
      Slot.Alike (.union (some (number, v))) (.union (some (number, v')))

inductive SlotsAlike : List Slot → List Slot → Prop
  | nil : SlotsAlike [] []
  | cons {slot slot' : Slot} {slots slots' : List Slot} : Slot.Alike slot slot' →
      SlotsAlike slots slots' → SlotsAlike (slot :: slots) (slot' :: slots')

inductive ValuesAlike : List Value → List Value → Prop
  | nil : ValuesAlike [] []
  | cons {v v' : Value} {vs vs' : List Value} : Value.Alike v v' → ValuesAlike vs vs' →
      ValuesAlike (v :: vs) (v' :: vs')

/-- The same values under the same keys, one by one. -/
inductive EntriesAlike : List (Primitive × Value) → List (Primitive × Value) → Prop
  | nil : EntriesAlike [] []
  | cons (key : Primitive) {v v' : Value} {entries entries' : List (Primitive × Value)} :
      Value.Alike v v' → EntriesAlike entries entries' →
      EntriesAlike ((key, v) :: entries) ((key, v') :: entries')

end

namespace Schema

variable {s : Schema}

/-! ## Values -/

def ReadsBack (s : Schema) (kind : ValueKind) (v : Value) : Prop :=
  ∃ v', s.valueOfJson kind (s.valueToJson kind v) = .ok v' ∧ v.Alike v'

variable {kind : ValueKind}

lemma isNull_valueToJson {v : Value} (h : Fits s kind v) :
    (s.valueToJson kind v).isNull = false := by
  have hdouble (x : Numeric.Double) : (ofDouble x).isNull = false := by
    unfold ofDouble
    split_ifs <;> rfl
  have hscalar (style : LongStyle) (p : Primitive) : (scalarToJson style p).isNull = false := by
    cases p with
    | double x => exact hdouble x
    | float x => exact hdouble _
    | int64 | uint64 => cases style <;> rfl
    | _ => rfl
  cases h with
  | scalar | wrapper => exact hscalar ..
  | choice | time | message => rfl

lemma readsBack_scalar {t : Scalar} {p : Primitive} (hp : s.holdsScalar t p)
    (hc : s.Canonical t p) : s.ReadsBack (.scalar t) (.scalar p) := by
  obtain ⟨q, hread, hq⟩ := exists_scalarOfJson_longs hp hc
  have hwritten : s.valueToJson (.scalar t) (.scalar p) = scalarToJson s.options.longs p := rfl
  refine ⟨.scalar q, ?_, .scalar hq⟩
  rw [valueOfJson, hwritten, hread]
  rfl

lemma readsBack_wrapper {k : Wrapper} {p : Primitive} (hp : k.scalar.holds p) :
    s.ReadsBack (.wrapper k) (.scalar p) := by
  obtain ⟨q, hread, hq⟩ := exists_scalarOfJson hp .number
  refine ⟨.scalar q, ?_, .scalar hq⟩
  rw [valueOfJson, valueToJson, hread]
  rfl

lemma readsBack_choice {ref : Schema.TypeRef} {e : Schema.Enum} {c : Choice}
    (hc : e.has c) (hknown : c ≠ .unrecognized)
    (hnames : (e.values.map Schema.EnumValue.name).Nodup) :
    s.ReadsBack (.enum ref e) (.choice c) := by
  refine ⟨.choice c, ?_, .choice c⟩
  rw [valueOfJson, valueToJson, Schema.Enum.ofJson, Schema.Enum.ofName_jsonText hnames hc hknown]

lemma readsBack_time {t : Time.Instant} (hyear : 0 ≤ t.year ∧ t.year ≤ 9999) :
    s.ReadsBack .timestamp (.time t) := by
  refine ⟨.time t, ?_, .time t⟩
  rw [valueOfJson, valueToJson, toInstant, Time.parse_format hyear]
  rfl

lemma valuesOfJson_valuesToJson {vs : List Value} (h : ∀ v ∈ vs, s.ReadsBack kind v) :
    ∃ vs', s.valuesOfJson kind (s.valuesToJson kind vs) = .ok vs' ∧ ValuesAlike vs vs' := by
  induction vs with
  | nil =>
    refine ⟨[], ?_, .nil⟩
    rw [valuesToJson, valuesOfJson]
  | cons v vs ih =>
    obtain ⟨v', hv, halike⟩ := h v (mem_cons_self ..)
    obtain ⟨vs', hvs, hrest⟩ := ih fun v hv => h v (mem_cons_of_mem _ hv)
    refine ⟨v' :: vs', ?_, .cons halike hrest⟩
    rw [valuesToJson, valuesOfJson, hv, hvs]
    rfl

/-! ## Entries of a map -/

lemma entriesToJson_eq_map (kind : ValueKind) (entries : List (Primitive × Value)) :
    s.entriesToJson kind entries =
      entries.map fun e => (keyText e.1, s.valueToJson kind e.2) := by
  induction entries with
  | nil => rfl
  | cons e entries ih => rw [entriesToJson, ih, map_cons]

/-- What reading relies on in an entry: its key and its value are read back. -/
structure EntryReadsBack (s : Schema) (t : Scalar) (kind : ValueKind) (e : Primitive × Value) :
    Prop where
  key : s.keyOfJson t (keyText e.1) = .ok e.1
  value : s.ReadsBack kind e.2
  present : (s.valueToJson kind e.2).isNull = false

section

variable {t : Scalar} {entries : List (Primitive × Value)}
  (h : ∀ e ∈ entries, s.EntryReadsBack t kind e)

include h

/-- Entries with new keys are put after those that are there, in their order. -/
lemma entriesOfJson_entriesToJson (done : List (Primitive × Value))
    (hnodup : ((done ++ entries).map Prod.fst).Nodup) :
    ∃ entries', s.entriesOfJson (.scalar t) kind (s.entriesToJson kind entries) done =
      .ok (done ++ entries') ∧ EntriesAlike entries entries' := by
  induction entries generalizing done with
  | nil =>
    refine ⟨[], ?_, .nil⟩
    rw [entriesToJson, entriesOfJson, append_nil]
  | cons e entries ih =>
    obtain ⟨k, v⟩ := e
    obtain ⟨hkey, ⟨v', hv, halike⟩, hpresent⟩ := h (k, v) (mem_cons_self ..)
    have hnew : k ∉ done.map Prod.fst := by
      rw [map_append, map_cons, nodup_append] at hnodup
      exact fun hmem => hnodup.2.2 k hmem k (mem_cons_self ..) rfl
    obtain ⟨entries', hrest, hentries⟩ := ih (fun e he => h e (mem_cons_of_mem _ he))
      (done ++ [(k, v')]) (by simpa using hnodup)
    refine ⟨(k, v') :: entries', ?_, .cons k halike hentries⟩
    rw [entriesToJson, entriesOfJson, hpresent, if_neg Bool.false_ne_true]
    simp only [hkey, hv, bind, Except.bind, putEntry_of_not_mem hnew, hrest]
    simp

lemma exists_entriesOfJson (hnodup : (entries.map Prod.fst).Nodup) :
    ∃ ordered entries', entries.Perm ordered ∧ EntriesAlike ordered entries' ∧
      s.entriesOfJson (.scalar t) kind (Json.sortMembers (s.entriesToJson kind entries)) [] =
        .ok entries' := by
  have hkeys : ((s.entriesToJson kind entries).map Prod.fst).Nodup := by
    rw [entriesToJson_eq_map, map_map]
    refine List.Nodup.of_map (s.keyOfJson t) ?_
    have hread : ((entries.map (Prod.fst ∘ fun e => (keyText e.1, s.valueToJson kind e.2))).map
        (s.keyOfJson t)) = (entries.map Prod.fst).map Except.ok := by
      rw [map_map, map_map]
      exact map_congr_left fun e he => (h e he).key
    rw [hread]
    exact hnodup.map fun _ _ => Except.ok.inj
  obtain ⟨ordered, hordered, hsorted⟩ : ∃ ordered, entries.Perm ordered ∧
      sortMembers (s.entriesToJson kind entries) = s.entriesToJson kind ordered := by
    have hperm := sortMembers_perm hkeys
    simp only [entriesToJson_eq_map] at hperm ⊢
    exact exists_eq_map_of_perm_map hperm
  have hread (e : Primitive × Value) (he : e ∈ ordered) : s.EntryReadsBack t kind e :=
    h e (hordered.mem_iff.mpr he)
  obtain ⟨entries', hentries, halike⟩ := entriesOfJson_entriesToJson hread []
    ((hordered.map Prod.fst).nodup_iff.mp hnodup)
  exact ⟨ordered, entries', hordered, halike, hsorted ▸ hentries⟩

end

end Schema

/-! ## Members of an object -/

def DistinctKeys (members : List Member) : Prop :=
  (members.flatMap Member.jsonNames).Nodup

namespace Schema

variable {s : Schema}

variable {members : List (String × Json)} {slots : List Slot} {p : FieldPlan} {value : Json}

/-- The member that stands under one of two names, where the second one is no key of its own. -/
lemma field?_jsonNames {jsonName fieldName : String}
    (h : jsonName ≠ fieldName → Json.member? fieldName members = none) :
    Json.field? members (jsonNames jsonName fieldName) =
      (Json.member? jsonName members).filter fun value => !value.isNull := by
  unfold jsonNames
  split_ifs with heq
  · rw [Json.field?_cons, Json.field?, Option.or_none]
  · rw [Json.field?_cons, Json.field?_cons, Json.field?, h heq, Option.filter_none, Option.or_none,
      Option.or_none]

def Shows (members : List (String × Json)) (m : Member) (own : List (String × Json)) : Prop :=
  ∀ pair ∈ m.names, Json.field? members (jsonNames pair.1 pair.2) =
    (own.lookup pair.1).filter fun value => !value.isNull

lemma slotToJson_cases (m : Member) (slot : Slot) :
    s.slotToJson m slot = [] ∨
      ∃ key value, key ∈ m.jsonNames ∧ s.slotToJson m slot = [(key, value)] := by
  have hfield (p : FieldPlan) : p.jsonName ∈ (Member.field p).jsonNames := mem_cons_self ..
  cases m with
  | field p =>
    cases slot with
    | plain v => exact .inr ⟨_, _, hfield p, rfl⟩
    | optional v =>
      cases v with
      | none =>
        rw [slotToJson]
        split_ifs
        · exact .inl rfl
        · exact .inr ⟨_, _, hfield p, rfl⟩
      | some v => exact .inr ⟨_, _, hfield p, rfl⟩
    | repeated vs => exact .inr ⟨_, _, hfield p, rfl⟩
    | map entries =>
      rw [slotToJson]
      split
      · exact .inr ⟨_, _, hfield p, rfl⟩
      · exact .inl rfl
    | union v => cases v <;> exact .inl rfl
  | union u =>
    cases slot with
    | union v =>
      cases v with
      | none => exact .inl rfl
      | some chosen =>
        obtain ⟨number, v⟩ := chosen
        rw [slotToJson]
        split
        · rename_i variant hvariant
          refine .inr ⟨_, _, ?_, rfl⟩
          rw [Member.jsonNames, Member.names, map_map]
          exact mem_map.mpr ⟨variant, mem_of_find?_eq_some hvariant, rfl⟩
        · exact .inl rfl
    | optional v => cases v <;> exact .inl rfl
    | _ => exact .inl rfl

lemma slotsToJson_nil (slots : List Slot) : s.slotsToJson [] slots = [] := by
  cases slots <;> rfl

lemma mem_jsonNames_of_mem_slotToJson {m : Member} {slot : Slot} {key : String}
    (h : key ∈ (s.slotToJson m slot).map Prod.fst) : key ∈ m.jsonNames := by
  rcases s.slotToJson_cases m slot with hnil | ⟨own, value, hown, hone⟩
  · rw [hnil] at h
    cases h
  · rw [hone] at h
    rw [mem_singleton.mp h]
    exact hown

lemma mem_jsonNames_of_mem_slotsToJson {members : List Member} {key : String}
    (h : key ∈ (s.slotsToJson members slots).map Prod.fst) :
    key ∈ members.flatMap Member.jsonNames := by
  induction members generalizing slots with
  | nil =>
    rw [slotsToJson_nil] at h
    cases h
  | cons m members ih =>
    cases slots with
    | nil => cases h
    | cons slot slots =>
      rw [slotsToJson, map_append, mem_append] at h
      rw [flatMap_cons, mem_append]
      exact h.imp mem_jsonNames_of_mem_slotToJson ih

section

variable {members : List Member} (h : DistinctKeys members)

include h

lemma nodup_keys_slotsToJson (slots : List Slot) :
    ((s.slotsToJson members slots).map Prod.fst).Nodup := by
  induction members generalizing slots with
  | nil =>
    rw [slotsToJson_nil]
    exact nodup_nil
  | cons m members ih =>
    cases slots with
    | nil => exact nodup_nil
    | cons slot slots =>
      obtain ⟨-, hrest, hapart⟩ := nodup_append.mp h
      have hown : ((s.slotToJson m slot).map Prod.fst).Nodup := by
        rcases s.slotToJson_cases m slot with hnil | ⟨key, value, -, hone⟩
        · simp [hnil]
        · simp [hone]
      rw [slotsToJson, map_append, nodup_append]
      exact ⟨hown, ih hrest slots, fun a ha b hb => hapart a (mem_jsonNames_of_mem_slotToJson ha) b
        (mem_jsonNames_of_mem_slotsToJson hb)⟩

/-- Each member of a message is found by its own keys, whatever stands before it. -/
lemma lookup_slotsToJson (hslots : SlotsFit s members slots) (before : List (String × Json))
    (hbefore : ∀ key ∈ members.flatMap Member.jsonNames, before.lookup key = none) :
    List.Forall₂ (fun m slot => ∀ key ∈ m.jsonNames,
      (before ++ s.slotsToJson members slots).lookup key = (s.slotToJson m slot).lookup key)
      members slots := by
  induction members generalizing slots before with
  | nil =>
    cases hslots
    exact .nil
  | cons m members ih =>
    cases hslots with
    | @cons _ slot _ slots _ hslots =>
      obtain ⟨-, hrest, hapart⟩ := nodup_append.mp h
      rw [flatMap_cons] at hbefore
      have hnone {own : List (String × Json)} {key : String} (hkey : key ∉ own.map Prod.fst) :
          own.lookup key = none := by
        rw [lookup_eq_none_iff]
        intro e he
        have hne : key ≠ e.1 := fun heq => hkey (heq ▸ mem_map_of_mem he)
        simpa using hne
      rw [slotsToJson]
      constructor
      · intro key hkey
        have hlater : (s.slotsToJson members slots).lookup key = none :=
          hnone fun hmem => hapart key hkey key (mem_jsonNames_of_mem_slotsToJson hmem) rfl
        have hfirst := hbefore key (mem_append_left _ hkey)
        rw [lookup_append, lookup_append, hfirst, hlater, Option.none_or, Option.or_none]
      · rw [← append_assoc]
        refine ih hrest hslots _ fun key hkey => ?_
        have hearlier : (s.slotToJson m slot).lookup key = none :=
          hnone fun hmem => hapart key (mem_jsonNames_of_mem_slotToJson hmem) key hkey rfl
        have hfirst := hbefore key (mem_append_right _ hkey)
        rw [lookup_append, hfirst, hearlier, Option.none_or]

/-- The object of a message shows all its members: their keys are distinct, and the name that the
schema gives a field is not the key of another one. -/
lemma shows_sortMembers {style : NameStyle} (hslots : SlotsFit s members slots)
    (hstyle : ∀ m ∈ members, ∀ pair ∈ m.names, pair.1 = Naming.jsonName style pair.2) :
    List.Forall₂ (fun m slot => Shows (Json.sortMembers (s.slotsToJson members slots)) m
      (s.slotToJson m slot)) members slots := by
  have hnodup := s.nodup_keys_slotsToJson h slots
  have hlookup := lookup_slotsToJson h hslots [] fun _ _ => rfl
  refine ((forall₂_and_left members slots).mpr ⟨hstyle, hlookup⟩).imp ?_
  rintro m slot ⟨hm, hown⟩ pair hpair
  rw [field?_jsonNames, member?_sortMembers hnodup]
  · exact congrArg _ (hown pair.1 (mem_map_of_mem hpair))
  · intro hne
    rw [member?_sortMembers hnodup, lookup_eq_none_iff]
    intro e he
    obtain ⟨m', hm', hkey⟩ := mem_flatMap.mp
      (mem_jsonNames_of_mem_slotsToJson (mem_map_of_mem (f := Prod.fst) he))
    obtain ⟨pair', hpair', heq⟩ := mem_map.mp hkey
    have hother : pair.2 ≠ e.1 := by
      intro hsame
      apply hne
      rw [hm pair hpair, hsame, ← heq, hstyle m' hm' pair' hpair', Naming.jsonName_jsonName]
    simpa using hother

end

/-- What a member holds is read back from every object that shows it. -/
def SlotReadsBack (s : Schema) (m : Member) (slot : Slot) : Prop :=
  ∀ members, Shows members m (s.slotToJson m slot) →
    ∃ slot', s.slotOfJson members m = .ok slot' ∧ slot.Alike slot'

lemma slotOfJson_of_some
    (h : Json.field? members (jsonNames p.jsonName p.field.name) = some value) :
    s.slotOfJson members (.field p) = s.fieldOfJson p value := by
  rw [slotOfJson]
  split
  · rename_i value' hvalue
    rw [h] at hvalue
    cases hvalue
    rfl
  · rename_i hnone
    rw [h] at hnone
    cases hnone

lemma slotOfJson_of_none (h : Json.field? members (jsonNames p.jsonName p.field.name) = none) :
    s.slotOfJson members (.field p) = .ok (s.zeroSlot (.field p)) := by
  rw [slotOfJson]
  split
  · rename_i value hvalue
    rw [h] at hvalue
    cases hvalue
  · rfl

lemma unionOfJson_of_some {variant : VariantPlan} {variants : List VariantPlan}
    (h : Json.field? members (jsonNames variant.jsonName variant.field.name) = some value) :
    s.unionOfJson members (variant :: variants) =
      (s.valueOfJson variant.kind value).map fun v => some (variant.field.number, v) := by
  rw [unionOfJson]
  split
  · rename_i value' hvalue
    rw [h] at hvalue
    cases hvalue
    rfl
  · rename_i hnone
    rw [h] at hnone
    cases hnone

lemma unionOfJson_append {before : List VariantPlan}
    (h : ∀ v ∈ before, Json.field? members (jsonNames v.jsonName v.field.name) = none)
    (variants : List VariantPlan) :
    s.unionOfJson members (before ++ variants) = s.unionOfJson members variants := by
  induction before with
  | nil => rfl
  | cons v before ih =>
    have hnone := h v (mem_cons_self ..)
    rw [cons_append, unionOfJson]
    split
    · rename_i value hvalue
      rw [hnone] at hvalue
      cases hvalue
    · exact ih fun v hv => h v (mem_cons_of_mem _ hv)

lemma slotReadsBack_field {slot slot' : Slot}
    (hown : s.slotToJson (.field p) slot = [(p.jsonName, value)]) (hnull : value.isNull = false)
    (hread : s.fieldOfJson p value = .ok slot') (halike : slot.Alike slot') :
    s.SlotReadsBack (.field p) slot := by
  intro members hshows
  have hfield := hshows (p.jsonName, p.field.name) (mem_cons_self ..)
  rw [hown, lookup_cons_self, Option.filter_some, hnull] at hfield
  exact ⟨slot', by rw [slotOfJson_of_some hfield, hread], halike⟩

/-- An unset field is left out or null, which is the same to the reader. -/
lemma slotReadsBack_absent (hlayout : p.layout = .optional) :
    s.SlotReadsBack (.field p) (.optional none) := by
  intro members hshows
  have hfield := hshows (p.jsonName, p.field.name) (mem_cons_self ..)
  have hnone : ((s.slotToJson (.field p) (.optional none)).lookup p.jsonName).filter
      (fun value => !value.isNull) = none := by
    rw [slotToJson]
    split_ifs
    · rfl
    · simp [isNull]
  rw [hnone] at hfield
  refine ⟨.optional none, ?_, .absent⟩
  rw [slotOfJson_of_none hfield, zeroSlot, hlayout]

lemma slotReadsBack_unset (u : UnionPlan) : s.SlotReadsBack (.union u) (.union none) := by
  intro members hshows
  have hnone : ∀ v ∈ u.variants,
      field? members (jsonNames v.jsonName v.field.name) = none := fun v hv =>
    hshows (v.jsonName, v.field.name) (mem_map.mpr ⟨v, hv, rfl⟩)
  have hread : s.unionOfJson members (u.variants ++ []) = .ok none := by
    rw [unionOfJson_append hnone, unionOfJson]
  rw [append_nil] at hread
  refine ⟨.union none, ?_, .unset⟩
  rw [slotOfJson, hread]
  rfl

/-- Of a union the one member that was written is found. -/
lemma slotReadsBack_chosen {u : UnionPlan} {number : Nat} {kind : ValueKind} {v : Value}
    (hnames : (Member.union u).jsonNames.Nodup)
    (hkind : (Member.union u).kind? number = some kind) (hback : s.ReadsBack kind v)
    (hnull : (s.valueToJson kind v).isNull = false) :
    s.SlotReadsBack (.union u) (.union (some (number, v))) := by
  intro members hshows
  obtain ⟨variant, hfind, rfl⟩ := Option.map_eq_some_iff.mp hkind
  obtain ⟨v', hread, halike⟩ := hback
  have hnumber : variant.field.number = number := by simpa using find?_some hfind
  have hown : s.slotToJson (.union u) (.union (some (number, v))) =
      [(variant.jsonName, s.valueToJson variant.kind v)] := by
    rw [slotToJson, hfind]
  rw [hown] at hshows
  obtain ⟨before, after, hvariants⟩ := append_of_mem (mem_of_find?_eq_some hfind)
  have hother : ∀ w ∈ before, w.jsonName ≠ variant.jsonName := by
    rw [Member.jsonNames, Member.names, hvariants, map_map, map_append,
      nodup_append] at hnames
    exact fun w hw => hnames.2.2 _ (mem_map_of_mem hw) _ (mem_cons_self ..)
  have hmem {w : VariantPlan} (hw : w ∈ before ++ variant :: after) :
      (w.jsonName, w.field.name) ∈ (Member.union u).names :=
    mem_map.mpr ⟨w, hvariants ▸ hw, rfl⟩
  have hskip : ∀ w ∈ before,
      field? members (jsonNames w.jsonName w.field.name) = none := by
    intro w hw
    have hnone := hshows _ (hmem (mem_append_left _ hw))
    simpa [lookup_cons, beq_eq_false_iff_ne.mpr (hother w hw)] using hnone
  have hfound := hshows _ (hmem (mem_append_right _ (mem_cons_self ..)))
  rw [lookup_cons_self, Option.filter_some, hnull] at hfound
  refine ⟨.union (some (number, v')), ?_, .chosen number halike⟩
  rw [slotOfJson, hvariants, unionOfJson_append hskip, unionOfJson_of_some hfound, hread, hnumber]
  rfl

end Schema

end Protobuf.Codec
