import Protobuf.Proofs.Codec.JsonMembers

/-!
# The round trip through JSON

A message of a compiled schema, written as JSON, is read as the same message, if
every part of it has a text of its own. The proof follows the message: a value is
read back if its members are, a member if its values are.
-/

namespace Protobuf.Codec

open Plan

/-! ## Values with a text of their own -/

/-- A scalar of a kind is canonical if it is a number held as text. -/
def Schema.CanonicalAs (s : Schema) (kind : ValueKind) (p : Primitive) : Prop :=
  match kind with
  | .scalar t => s.Canonical t p
  | _ => True

mutual

/-- Every part of a value has a text of its own: numbers held as text are canonical and in range,
values of enums are declared and no two of one enum have one name, the years of instants have four
digits, and the members of messages have distinct keys. -/
def valueExpressible (s : Schema) (kind : ValueKind) : Value → Prop
  | .scalar p => s.CanonicalAs kind p
  | .choice c =>
    match kind with
    | .enum _ e => c ≠ .unrecognized ∧ (e.values.map Schema.EnumValue.name).Nodup
    | _ => True
  | .time t => 0 ≤ t.year ∧ t.year ≤ 9999
  | .message slots =>
    match kind with
    | .message ref =>
      DistinctKeys (s.members ref.qualifiedName) ∧
        slotsExpressible s (s.members ref.qualifiedName) slots
    | _ => True

/-- Every part of what a member holds has a text of its own. -/
def slotExpressible (s : Schema) (m : Member) : Slot → Prop
  | .plain v =>
    match m with
    | .field p => valueExpressible s p.kind v
    | .union _ => True
  | .optional none => True
  | .optional (some v) =>
    match m with
    | .field p => valueExpressible s p.kind v
    | .union _ => True
  | .repeated vs =>
    match m with
    | .field p => valuesExpressible s p.kind vs
    | .union _ => True
  | .map entries =>
    match m with
    | .field p =>
      match p.layout with
      | .map _ key value => entriesExpressible s key.kind value.kind entries
      | _ => True
    | .union _ => True
  | .union none => True
  | .union (some (number, v)) =>
    match m.kind? number with
    | some kind => valueExpressible s kind v
    | none => True

/-- Every part of what the members hold has a text of its own. -/
def slotsExpressible (s : Schema) : List Member → List Slot → Prop
  | m :: members, slot :: slots => slotExpressible s m slot ∧ slotsExpressible s members slots
  | _, _ => True

def valuesExpressible (s : Schema) (kind : ValueKind) : List Value → Prop
  | [] => True
  | v :: vs => valueExpressible s kind v ∧ valuesExpressible s kind vs

/-- Every key and every part of a value of some entries has a text of its own. -/
def entriesExpressible (s : Schema) (key kind : ValueKind) : List (Primitive × Value) → Prop
  | [] => True
  | (k, v) :: entries =>
    s.CanonicalAs key k ∧ valueExpressible s kind v ∧ entriesExpressible s key kind entries

end

namespace Schema

variable {s : Schema}

/-! ## Messages -/

/-- What reading JSON relies on in a schema: the JSON names are made in one style, and the keys of
maps are of kinds that can be keys. -/
structure Readable (s : Schema) : Prop where
  style : ∃ style, ∀ name, ∀ m ∈ s.members name, ∀ pair ∈ m.names,
    pair.1 = Naming.jsonName style pair.2
  keyKind : ∀ name p entry key value, .field p ∈ s.members name →
    p.layout = .map entry key value → Scope.isKeyKind key.kind = true

/-- The keys of a map are read back if they are canonical. -/
lemma keys_readBack {t : Scalar} {kind : ValueKind} {entries : List (Primitive × Value)}
    (ht : Scope.isKeyKind (.scalar t)) (hkeys : ∀ e ∈ entries, s.holdsScalar t e.1)
    (he : entriesExpressible s (.scalar t) kind entries) :
    ∀ e ∈ entries, s.keyOfJson t (keyText e.1) = .ok e.1 := by
  induction entries with
  | nil => simp
  | cons e entries ih =>
    obtain ⟨k, v⟩ := e
    obtain ⟨hcanonical, -, hrest⟩ := he
    rw [List.forall_mem_cons] at hkeys ⊢
    exact ⟨keyOfJson_keyText ht hkeys.1 hcanonical, ih hkeys.2 hrest⟩

mutual

theorem readsBack (hs : s.Readable) : ∀ (v : Value) {kind : ValueKind}, Fits s kind v →
    valueExpressible s kind v → s.ReadsBack kind v
  | .scalar p, _, h, he => by
    cases h with
    | scalar hp => exact readsBack_scalar hp he
    | wrapper hp => exact readsBack_wrapper hp
  | .choice c, _, h, he => by
    cases h with
    | choice hc => exact readsBack_choice hc he.1 he.2
  | .time t, _, h, he => by
    cases h with
    | time => exact readsBack_time he
  | .message slots, _, h, he => by
    cases h with
    | @message ref _ hslots =>
      obtain ⟨style, hstyle⟩ := hs.style
      obtain ⟨slots', hread, halike⟩ := slots_readBack hs slots hslots (fun _ hm => hm) he.1 he.2
        (shows_sortMembers he.1 hslots (hstyle ref.qualifiedName))
      refine ⟨.message slots', ?_, .message halike⟩
      rw [valueToJson, Json.ofMembers, valueOfJson]
      simp only [hread, bind, Except.bind]
      rfl

theorem slot_readsBack (hs : s.Readable) : ∀ (slot : Slot) {name : String} {m : Member},
    m ∈ s.members name → m.jsonNames.Nodup → SlotFits s m slot → slotExpressible s m slot →
    s.SlotReadsBack m slot
  | .plain v, _, _, _, _, h, he => by
    cases h with
    | plain hlayout hv =>
      obtain ⟨v', hread, halike⟩ := readsBack hs v hv he
      refine slotReadsBack_field rfl (isNull_valueToJson hv) ?_ (.plain halike)
      unfold fieldOfJson
      simp only [hlayout, hread]
      rfl
  | .optional none, _, _, _, _, h, _ => by
    cases h with
    | absent hlayout => exact slotReadsBack_absent hlayout
  | .optional (some v), _, _, _, _, h, he => by
    cases h with
    | present hlayout hv =>
      obtain ⟨v', hread, halike⟩ := readsBack hs v hv he
      refine slotReadsBack_field rfl (isNull_valueToJson hv) ?_ (.present halike)
      unfold fieldOfJson
      simp only [hlayout, hread]
      rfl
  | .repeated vs, _, _, _, _, h, he => by
    cases h with
    | repeated hlayout hvs =>
      obtain ⟨vs', hread, halike⟩ := valuesOfJson_valuesToJson (values_readBack hs vs hvs he)
      refine slotReadsBack_field rfl rfl ?_ (.repeated halike)
      unfold fieldOfJson
      simp only [hlayout, hread]
      rfl
  | .map entries, name, _, hm, _, h, he => by
    cases h with
    | @map p key value entry t _ hlayout hkey hkeys hvalues hnodup =>
      simp only [slotExpressible, hlayout, hkey] at he
      have ht := hs.keyKind name p entry key value hm hlayout
      rw [hkey] at ht
      have hreadKeys := keys_readBack ht hkeys he
      have hreadValues := entries_readBack hs entries hvalues he
      have hdistinct : (entries.map Prod.fst).Nodup := by
        refine List.Nodup.of_map (s.normScalar t) ?_
        rwa [List.map_map]
      obtain ⟨ordered, entries', hordered, halike, hread⟩ := exists_entriesOfJson
        (fun e he => ⟨hreadKeys e he, hreadValues e he, isNull_valueToJson (hvalues e he)⟩)
        hdistinct
      have hown : s.slotToJson (.field p) (.map entries) =
          [(p.jsonName, .object (Json.sortMembers (s.entriesToJson value.kind entries)))] := by
        rw [slotToJson, hlayout]
        rfl
      refine slotReadsBack_field hown rfl ?_ (.map hordered halike)
      unfold fieldOfJson
      simp only [hlayout, hkey, hread]
      rfl
  | .union none, _, _, _, _, h, _ => by
    cases h with
    | unset u => exact slotReadsBack_unset u
  | .union (some (number, v)), _, _, _, hnames, h, he => by
    cases h with
    | @chosen u _ kind _ hkind hv =>
      have hexpressible : valueExpressible s kind v := by
        simpa only [slotExpressible, hkind] using he
      exact slotReadsBack_chosen hnames hkind (readsBack hs v hv hexpressible)
        (isNull_valueToJson hv)

theorem slots_readBack (hs : s.Readable) : ∀ (slots : List Slot) {name : String}
    {plans : List Member} {members : List (String × Json)}, SlotsFit s plans slots →
    plans ⊆ s.members name → DistinctKeys plans → slotsExpressible s plans slots →
    List.Forall₂ (fun m slot => Shows members m (s.slotToJson m slot)) plans slots →
    ∃ slots', s.slotsOfJson members plans = .ok slots' ∧ SlotsAlike slots slots'
  | [], _, _, _, h, _, _, _, _ => by
    cases h
    refine ⟨[], ?_, .nil⟩
    rw [slotsOfJson]
  | slot :: slots, _, _, members, h, hplans, hkeys, he, hshows => by
    cases h with
    | cons hslot hslots =>
      cases hshows with
      | cons hshow hshows =>
        obtain ⟨hown, hrest, -⟩ := List.nodup_append.mp hkeys
        obtain ⟨slot', hread, halike⟩ :=
          slot_readsBack hs slot (hplans (List.mem_cons_self ..)) hown hslot he.1 members hshow
        obtain ⟨slots', hreads, halikes⟩ := slots_readBack hs slots hslots
          (fun _ hm => hplans (List.mem_cons_of_mem _ hm)) hrest he.2 hshows
        refine ⟨slot' :: slots', ?_, .cons halike halikes⟩
        rw [slotsOfJson, hread, hreads]
        rfl

theorem values_readBack (hs : s.Readable) : ∀ (vs : List Value) {kind : ValueKind},
    (∀ v ∈ vs, Fits s kind v) → valuesExpressible s kind vs → ∀ v ∈ vs, s.ReadsBack kind v
  | [], _, _, _ => by simp
  | v :: vs, _, h, he => by
    rw [List.forall_mem_cons] at h ⊢
    exact ⟨readsBack hs v h.1 he.1, values_readBack hs vs h.2 he.2⟩

theorem entries_readBack (hs : s.Readable) : ∀ (entries : List (Primitive × Value))
    {key kind : ValueKind}, (∀ e ∈ entries, Fits s kind e.2) →
    entriesExpressible s key kind entries → ∀ e ∈ entries, s.ReadsBack kind e.2
  | [], _, _, _, _ => by simp
  | (k, v) :: entries, _, _, h, he => by
    rw [List.forall_mem_cons] at h ⊢
    exact ⟨readsBack hs v h.1 he.2.1, entries_readBack hs entries h.2 he.2.2⟩

end

variable {files : List Descriptor.File} {options : Options}

lemma ofFiles_readable (h : ofFiles files options = .ok s) : s.Readable where
  style := ofFiles_jsonName h
  keyKind _ _ _ _ _ hp hlayout := ofFiles_isKeyKind h hp hlayout

/-- A message of a compiled schema, all parts of which have a text of their own, is read back from
its JSON. -/
theorem ofJson_toJson (hs : ofFiles files options = .ok s) {name : String} {m : Message}
    (hm : SlotsFit s (s.members name) m) (hkeys : DistinctKeys (s.members name))
    (he : slotsExpressible s (s.members name) m) :
    ∃ m', s.ofJson name (s.toJson name m) = .ok m' ∧ SlotsAlike m m' := by
  have hreadable := ofFiles_readable hs
  obtain ⟨style, hstyle⟩ := hreadable.style
  exact slots_readBack hreadable m hm (fun _ h => h) hkeys he
    (shows_sortMembers hkeys hm (hstyle name))

/-- A file with one message, an entry of a log. -/
private def eventFile : Descriptor.File :=
  { name := "event.proto"
    package := "log"
    dialect := "proto3"
    messages := [{
      name := "Event"
      fields := [Sample.scalar .int64 "long_id" 1, Sample.scalar .double "ratio" 2,
        Sample.message Timestamp.typeName "happened_at" 3,
        Sample.many (Sample.message ".log.Event.CountsEntry" "counts" 4)]
      messages := [Sample.mapEntry "CountsEntry" (Sample.scalar .int64) (Sample.scalar .int32)] }] }

/-- Options under which long integers are held as text. -/
private def eventOptions : Options := { longs := .decimal }

private def eventSchema : Schema := planned [Sample.timestampFile, eventFile] eventOptions

/-- Whether the members are those of an entry of a log. -/
private def isEvent : List Member → Bool
  | [.field p, .field q, .field _, .field c] =>
    p.kind == .scalar .int64 && q.kind == .scalar .double &&
      match c.layout with
      | .map _ key value => key.kind == .scalar .int64 && value.kind == .scalar .int32
      | _ => false
  | _ => false

/-- An entry during a leap second, with a not-a-number and with counts out of order. -/
private def leapEvent : Message :=
  [.plain (.scalar (.string "-7")), .plain (.scalar (.double ⟨0xfff0000000000001⟩)),
    .optional (some (.time ⟨1483228799, 1500000000, by decide⟩)),
    .map [(.string "12", .scalar (.int32 1)), (.string "-3", .scalar (.int32 0))]]

private lemma leapEvent_expressible :
    slotsExpressible eventSchema (eventSchema.members ".log.Event") leapEvent := by
  have hlong {text : String} (n : Int) (hn : Numeric.Width.int64.holds n)
      (hnumeral : text = Text.intText n) :
      eventSchema.CanonicalAs (.scalar .int64) (.string text) := by
    rintro width ⟨⟩
    exact ⟨n, hn, congrArg _ hnumeral⟩
  have hother (t : Scalar) (ht : t.isLong = false) (p : Primitive) :
      eventSchema.CanonicalAs (.scalar t) p := by
    intro width hwidth
    simp [textWidth?, ht] at hwidth
  have hevent : isEvent (eventSchema.members ".log.Event") := by decide +kernel
  unfold isEvent at hevent
  split at hevent
  · rename_i p q r c hmembers
    simp only [Bool.and_eq_true, beq_iff_eq] at hevent
    obtain ⟨⟨hp, hq⟩, hc⟩ := hevent
    split at hc
    · rename_i entry key value hlayout
      rw [Bool.and_eq_true, beq_iff_eq, beq_iff_eq] at hc
      rw [hmembers]
      simp only [leapEvent, slotsExpressible, slotExpressible, valueExpressible,
        entriesExpressible, hp, hq, hlayout, hc]
      exact ⟨hlong (-7) (by decide) (by decide +kernel), hother .double rfl _, by decide,
        ⟨hlong 12 (by decide) (by decide +kernel), hother .int32 rfl _,
          hlong (-3) (by decide) (by decide +kernel), hother .int32 rfl _, trivial⟩, trivial⟩
    · cases hc
  · cases hevent

/-- The entry comes back from its JSON. -/
theorem ofJson_toJson_leapEvent : ∃ s : Schema,
    ofFiles [Sample.timestampFile, eventFile] eventOptions = .ok s ∧
      SlotsFit s (s.members ".log.Event") leapEvent ∧ DistinctKeys (s.members ".log.Event") ∧
      slotsExpressible s (s.members ".log.Event") leapEvent ∧
      ∃ m', s.ofJson ".log.Event" (s.toJson ".log.Event" leapEvent) = .ok m' ∧
        SlotsAlike leapEvent m' := by
  have hs : ofFiles [Sample.timestampFile, eventFile] eventOptions = .ok eventSchema :=
    ofFiles_eq_planned (by decide +kernel)
  have hfits : SlotsFit eventSchema (eventSchema.members ".log.Event") leapEvent :=
    slotsFit_sound _ (by decide +kernel)
  have hdistinct : DistinctKeys (eventSchema.members ".log.Event") := by
    unfold DistinctKeys
    decide +kernel
  exact ⟨eventSchema, hs, hfits, hdistinct, leapEvent_expressible,
    ofJson_toJson hs hfits hdistinct leapEvent_expressible⟩

end Schema

end Protobuf.Codec
