import Protobuf.Proofs.Codec.JsonMembers

/-!
# What is read from a JSON object

Reading a message from JSON looks up its fields, reads the parts of each value that
it finds and reads the keys of maps. `ReadsKey` says which keys are read as the
numerals of numbers that are held as texts, in a message and in all messages inside
it. If reading succeeds, all of this has been read.
-/

namespace Protobuf

lemma exists_of_map_eq_ok {ε α β : Type} {f : α → β} {x : Except ε α} {b : β}
    (h : x.map f = .ok b) : ∃ a, x = .ok a := by
  cases x with
  | error e => cases h
  | ok a => exact ⟨a, rfl⟩

namespace Codec

open Plan

namespace Schema

/-- The field that a member is read as and the value that is found for it. Of a union that is the
first member that is present. -/
def found? (members : List (String × Json)) : Member → Option (FieldPlan × Json)
  | .field p => (Json.field? members (jsonNames p.jsonName p.field.name)).map (p, ·)
  | .union u => u.variants.findSome? fun v =>
      (Json.field? members (jsonNames v.jsonName v.field.name)).map (v.toField, ·)

/-- The members of an object that become entries of a map. -/
def entered (members : List (String × Json)) : List (String × Json) :=
  members.filter fun e => !e.2.isNull

def parts (p : FieldPlan) (value : Json) : List (ValueKind × Json) :=
  match p.layout, value with
  | .plain, _ | .optional, _ => [(p.kind, value)]
  | .repeated, .array items => items.map (p.kind, ·)
  | .map _ _ entry, .object members => (entered members).map fun e => (entry.kind, e.2)
  | _, _ => []

/-- The keys that a field is read from, if numbers in their place are held as texts. -/
def numeralKeys (s : Schema) (p : FieldPlan) (value : Json) : List String :=
  match p.layout, value with
  | .map _ key _, .object members =>
    match key.kind with
    | .scalar t => if (s.textWidth? t).isSome then (entered members).map Prod.fst else []
    | _ => []
  | _, _ => []

/-- Reading a message of the type with a qualified name from the members of an object reads the
key as a numeral. -/
inductive ReadsKey (s : Schema) : String → List (String × Json) → String → Prop
  | own {name key : String} {members : List (String × Json)} {m : Member} {p : FieldPlan}
      {value : Json} : m ∈ s.members name → found? members m = some (p, value) →
      key ∈ s.numeralKeys p value → ReadsKey s name members key
  | inside {name key : String} {members inner : List (String × Json)} {m : Member}
      {p : FieldPlan} {value : Json} {ref : Schema.TypeRef} : m ∈ s.members name →
      found? members m = some (p, value) → (.message ref, .object inner) ∈ parts p value →
      ReadsKey s ref.qualifiedName inner key → ReadsKey s name members key

variable {s : Schema} {members : List (String × Json)} {p : FieldPlan} {value : Json}

variable {key : String} {slot : Slot}

lemma mem_numeralKeys : key ∈ s.numeralKeys p value ↔
    ∃ entry keyPlan content members t, p.layout = .map entry keyPlan content ∧
      value = .object members ∧ keyPlan.kind = .scalar t ∧ (s.textWidth? t).isSome ∧
      key ∈ (entered members).map Prod.fst := by
  constructor
  · intro h
    unfold numeralKeys at h
    split at h
    · rename_i entry keyPlan content members hlayout
      split at h
      · rename_i t hkind
        split_ifs at h with htext
        · exact ⟨entry, keyPlan, content, members, t, hlayout, rfl, hkind, htext, h⟩
        · cases h
      · cases h
    · cases h
  · rintro ⟨entry, keyPlan, content, members, t, hlayout, rfl, hkind, htext, h⟩
    simpa only [numeralKeys, hlayout, hkind, htext, if_true] using h

/-! ## How values and fields are read -/

lemma valueOfJson_of_message (ref : Schema.TypeRef) (value : Json) :
    s.valueOfJson (.message ref) value = (Json.asObject value).bind fun members =>
      (s.slotsOfJson members (s.members ref.qualifiedName)).map .message := by
  unfold valueOfJson
  cases value with
  | object members =>
    change (s.slotsOfJson members (s.members ref.qualifiedName)).bind _ = Except.map _ _
    cases s.slotsOfJson members (s.members ref.qualifiedName) <;> rfl
  | _ => rfl

lemma fieldOfJson_of_plain (h : p.layout = .plain) (value : Json) :
    s.fieldOfJson p value = (s.valueOfJson p.kind value).map .plain := by
  unfold fieldOfJson
  rw [h]

lemma fieldOfJson_of_optional (h : p.layout = .optional) (value : Json) :
    s.fieldOfJson p value = (s.valueOfJson p.kind value).map fun v => .optional (some v) := by
  unfold fieldOfJson
  rw [h]

lemma fieldOfJson_of_repeated (h : p.layout = .repeated) (value : Json) :
    s.fieldOfJson p value =
      (Json.asArray value).bind fun items => (s.valuesOfJson p.kind items).map .repeated := by
  unfold fieldOfJson
  rw [h]
  cases value <;> rfl

lemma fieldOfJson_of_map {entry : Schema.TypeRef} {key content : FieldPlan}
    (h : p.layout = .map entry key content) (value : Json) :
    s.fieldOfJson p value = (Json.asObject value).bind fun members =>
      (s.entriesOfJson key.kind content.kind members []).map .map := by
  unfold fieldOfJson
  rw [h]
  cases value <;> rfl

section

variable {name : String} {item : Json} {kind : ValueKind} {entries : List (Primitive × Value)}

lemma entriesOfJson_of_null (hitem : item.isNull) (key : ValueKind) :
    s.entriesOfJson key kind ((name, item) :: members) entries =
      s.entriesOfJson key kind members entries := by
  rw [entriesOfJson, if_pos hitem]

lemma entriesOfJson_of_scalar (hitem : item.isNull = false) (t : Scalar) :
    s.entriesOfJson (.scalar t) kind ((name, item) :: members) entries =
      (s.keyOfJson t name).bind fun k => (s.valueOfJson kind item).bind fun v =>
        s.entriesOfJson (.scalar t) kind members (putEntry k v entries) := by
  rw [entriesOfJson, if_neg (by simp [hitem])]
  rfl

lemma entriesOfJson_of_not_scalar (hitem : item.isNull = false) {key : ValueKind}
    (hkey : ∀ t, key ≠ .scalar t) :
    s.entriesOfJson key kind ((name, item) :: members) entries = .error (.mapKey name) := by
  rw [entriesOfJson, if_neg (by simp [hitem])]
  cases key with
  | scalar t => exact absurd rfl (hkey t)
  | _ => rfl

end

/-! ## What has been read -/

lemma exists_valueOfJson_of_mem {kind : ValueKind} {items : List Json} {vs : List Value}
    (h : s.valuesOfJson kind items = .ok vs) :
    ∀ item ∈ items, ∃ v, s.valueOfJson kind item = .ok v := by
  induction items generalizing vs with
  | nil => simp
  | cons item items ih =>
    rw [valuesOfJson] at h
    obtain ⟨v, hv, h⟩ := ok_of_bind h
    obtain ⟨vs', hvs, -⟩ := ok_of_bind h
    intro other hother
    rcases List.mem_cons.mp hother with rfl | hother
    · exact ⟨v, hv⟩
    · exact ih hvs other hother

lemma entered_cons (e : String × Json) : entered (e :: members) =
    if e.2.isNull then entered members else e :: entered members := by
  cases h : e.2.isNull <;> simp [entered, h]

lemma exists_entryOfJson_of_mem {key kind : ValueKind}
    {entries entries' : List (Primitive × Value)}
    (h : s.entriesOfJson key kind members entries = .ok entries') :
    ∀ e ∈ entered members, (∃ t k, key = .scalar t ∧ s.keyOfJson t e.1 = .ok k) ∧
      ∃ v, s.valueOfJson kind e.2 = .ok v := by
  induction members generalizing entries with
  | nil => simp [entered]
  | cons e members ih =>
    obtain ⟨name, item⟩ := e
    by_cases hitem : item.isNull
    · rw [entriesOfJson_of_null hitem] at h
      simpa [entered, hitem] using ih h
    · rw [Bool.not_eq_true] at hitem
      obtain ⟨t, rfl⟩ : ∃ t, key = .scalar t := by
        by_contra hkey
        rw [entriesOfJson_of_not_scalar hitem (by simpa using hkey)] at h
        cases h
      rw [entriesOfJson_of_scalar hitem] at h
      obtain ⟨k, hk, h⟩ := ok_of_bind h
      obtain ⟨v, hv, h⟩ := ok_of_bind h
      intro other hother
      rw [entered_cons, if_neg (by simp [hitem])] at hother
      rcases List.mem_cons.mp hother with rfl | hother
      · exact ⟨⟨t, k, rfl, hk⟩, v, hv⟩
      · exact ih h other hother

/-- If a field could be read, so could the values that it is read from. -/
lemma exists_valueOfJson_of_mem_parts (h : s.fieldOfJson p value = .ok slot) :
    ∀ part ∈ parts p value, ∃ v, s.valueOfJson part.1 part.2 = .ok v := by
  unfold parts
  cases hlayout : p.layout with
  | plain =>
    rw [fieldOfJson_of_plain hlayout] at h
    simpa using exists_of_map_eq_ok h
  | optional =>
    rw [fieldOfJson_of_optional hlayout] at h
    simpa using exists_of_map_eq_ok h
  | repeated =>
    rw [fieldOfJson_of_repeated hlayout] at h
    cases value with
    | array items =>
      obtain ⟨vs, hvs⟩ := exists_of_map_eq_ok h
      simpa using exists_valueOfJson_of_mem hvs
    | _ => simp
  | map entry key content =>
    rw [fieldOfJson_of_map hlayout] at h
    cases value with
    | object members =>
      obtain ⟨entries, hentries⟩ := exists_of_map_eq_ok h
      intro part hpart
      obtain ⟨e, he, rfl⟩ := List.mem_map.mp hpart
      exact (exists_entryOfJson_of_mem hentries e he).2
    | _ => simp

lemma exists_keyOfJson_of_mem_numeralKeys {reader : Schema}
    (h : reader.fieldOfJson p value = .ok slot) (hkey : key ∈ s.numeralKeys p value) :
    ∃ t k, (s.textWidth? t).isSome ∧ reader.keyOfJson t key = .ok k := by
  obtain ⟨entry, keyPlan, content, members, t, hlayout, rfl, hkind, htext, hmem⟩ :=
    mem_numeralKeys.mp hkey
  rw [fieldOfJson_of_map hlayout, hkind] at h
  obtain ⟨entries, hentries⟩ := exists_of_map_eq_ok h
  obtain ⟨e, he, rfl⟩ := List.mem_map.mp hmem
  obtain ⟨⟨t', k, ht, hk⟩, -⟩ := exists_entryOfJson_of_mem hentries e he
  cases ht
  exact ⟨t, k, htext, hk⟩

lemma slotOfJson_union_of_none {u : UnionPlan} (h : found? members (.union u) = none) :
    s.slotOfJson members (.union u) = .ok (.union none) := by
  have hnone : ∀ v ∈ u.variants,
      Json.field? members (jsonNames v.jsonName v.field.name) = none := by
    simpa [found?] using h
  rw [slotOfJson, ← List.append_nil u.variants, unionOfJson_append hnone, unionOfJson]
  rfl

lemma slotOfJson_union_of_some {u : UnionPlan} (h : found? members (.union u) = some (p, value)) :
    (∃ variant ∈ u.variants, p = variant.toField) ∧
      ∀ s : Schema, s.slotOfJson members (.union u) =
        (s.valueOfJson p.kind value).map fun x => .union (some (p.field.number, x)) := by
  obtain ⟨before, v, after, hvariants, hv, hnone⟩ := List.findSome?_eq_some_iff.mp h
  obtain ⟨value', hvalue, heq⟩ := Option.map_eq_some_iff.mp hv
  cases heq
  have hbefore : ∀ w ∈ before,
      Json.field? members (jsonNames w.jsonName w.field.name) = none := by
    simpa using hnone
  refine ⟨⟨v, by simp [hvariants], rfl⟩, fun s => ?_⟩
  rw [slotOfJson, hvariants, unionOfJson_append hbefore, unionOfJson_of_some hvalue]
  change ((s.valueOfJson v.kind value).map _).map _ = (s.valueOfJson v.kind value).map _
  cases s.valueOfJson v.kind value <;> rfl

/-- If a member could be read, so could the field that was found for it. -/
lemma exists_fieldOfJson_of_found? {m : Member} (h : s.slotOfJson members m = .ok slot)
    (hfound : found? members m = some (p, value)) : ∃ slot', s.fieldOfJson p value = .ok slot' := by
  cases m with
  | field q =>
    obtain ⟨value', hvalue, heq⟩ := Option.map_eq_some_iff.mp hfound
    cases heq
    rw [slotOfJson_of_some hvalue] at h
    exact ⟨slot, h⟩
  | union u =>
    obtain ⟨⟨variant, -, rfl⟩, hslot⟩ := slotOfJson_union_of_some hfound
    rw [hslot] at h
    obtain ⟨x, hx⟩ := exists_of_map_eq_ok h
    refine ⟨.optional (some x), ?_⟩
    rw [fieldOfJson_of_optional (by rfl)]
    exact congrArg (Except.map fun v => Slot.optional (some v)) hx

lemma exists_slotOfJson_of_mem {plans : List Member} {slots : List Slot}
    (h : s.slotsOfJson members plans = .ok slots) :
    ∀ m ∈ plans, ∃ slot, s.slotOfJson members m = .ok slot := by
  induction plans generalizing slots with
  | nil => simp
  | cons m plans ih =>
    rw [slotsOfJson] at h
    obtain ⟨slot, hslot, h⟩ := ok_of_bind h
    obtain ⟨slots', hslots, -⟩ := ok_of_bind h
    intro other hother
    rcases List.mem_cons.mp hother with rfl | hother
    · exact ⟨slot, hslot⟩
    · exact ih hslots other hother

/-- If a message could be read, so could all numerals in it. -/
lemma ReadsKey.exists_keyOfJson {name : String} (hread : s.ReadsKey name members key)
    (reader : Schema) (hmembers : reader.members = s.members) {m : Message}
    (h : reader.slotsOfJson members (s.members name) = .ok m) :
    ∃ t k, (s.textWidth? t).isSome ∧ reader.keyOfJson t key = .ok k := by
  induction hread generalizing m with
  | own hm hfound hkey =>
    obtain ⟨slot, hslot⟩ := exists_slotOfJson_of_mem h _ hm
    obtain ⟨slot', hslot'⟩ := exists_fieldOfJson_of_found? hslot hfound
    exact exists_keyOfJson_of_mem_numeralKeys hslot' hkey
  | inside hm hfound hpart hinner ih =>
    obtain ⟨slot, hslot⟩ := exists_slotOfJson_of_mem h _ hm
    obtain ⟨slot', hslot'⟩ := exists_fieldOfJson_of_found? hslot hfound
    obtain ⟨v, hv⟩ := exists_valueOfJson_of_mem_parts hslot' _ hpart
    rw [valueOfJson_of_message, hmembers] at hv
    obtain ⟨slots, hslots⟩ := exists_of_map_eq_ok hv
    exact ih hslots

end Schema

end Codec

end Protobuf
