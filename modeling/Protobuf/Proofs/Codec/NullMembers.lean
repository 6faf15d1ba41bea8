import Protobuf.Proofs.Codec.NumeralReads
import Protobuf.Proofs.Json.Nulls

/-!
# Null is as good as absent

A message is read from an object as it is read without the null members of all
objects in it: fields, members of unions and entries of maps that are null count as
absent. The one exception are timestamps that are given as objects. `ReadsNullTime`
says that reading comes to one with a part that is null, which is then refused.
-/

open Protobuf.Json

namespace Protobuf.Codec

open Plan

/-! ## One result -/

/-- The two computations have one result, unless the first one fails and the condition holds. -/
def SameUnless {α : Type} (K : Prop) (x y : Except Json.Error α) : Prop :=
  x = y ∨ K ∧ ∃ e, x = .error e

namespace SameUnless

variable {α β : Type} {K L : Prop} {x y : Except Json.Error α}

lemma refl (x : Except Json.Error α) : SameUnless K x x :=
  .inl rfl

lemma mono (h : SameUnless K x y) (hK : K → L) : SameUnless L x y :=
  h.imp id fun hfail => ⟨hK hfail.1, hfail.2⟩

lemma bind (h : SameUnless K x y) {f g : α → Except Json.Error β}
    (hf : ∀ a, SameUnless K (f a) (g a)) : SameUnless K (x.bind f) (y.bind g) := by
  rcases h with rfl | ⟨hK, e, rfl⟩
  · cases x with
    | error e => exact refl _
    | ok a => exact hf a
  · exact .inr ⟨hK, e, rfl⟩

lemma map (h : SameUnless K x y) (f : α → β) : SameUnless K (x.map f) (y.map f) := by
  rcases h with rfl | ⟨hK, e, rfl⟩
  · exact refl _
  · exact .inr ⟨hK, e, rfl⟩

end SameUnless

lemma scalarOfJson_withoutNulls (text : Option Numeric.Width) (t : Scalar) (value : Json) :
    scalarOfJson text t value.withoutNulls = scalarOfJson text t value := by
  unfold scalarOfJson
  simp only [toDouble_withoutNulls, toSingle_withoutNulls, toBool_withoutNulls,
    toText_withoutNulls, toIntegerText_withoutNulls, toInteger_withoutNulls]

namespace Schema

variable {s : Schema} {K : Prop} {members : List (String × Json)} {kind : ValueKind}

/-- The value is read as it is without the null members in it, unless the condition holds. -/
def SameValue (s : Schema) (K : Prop) (kind : ValueKind) (value : Json) : Prop :=
  SameUnless K (s.valueOfJson kind value) (s.valueOfJson kind value.withoutNulls)

lemma valuesOfJson_withoutNulls {items : List Json}
    (h : ∀ item ∈ items, s.SameValue K kind item) :
    SameUnless K (s.valuesOfJson kind items)
      (s.valuesOfJson kind (Json.itemsWithoutNulls items)) := by
  induction items with
  | nil => exact .refl _
  | cons item items ih =>
    rw [itemsWithoutNulls, valuesOfJson, valuesOfJson]
    refine SameUnless.bind (h item (by simp)) fun v => ?_
    exact SameUnless.bind (ih fun other hother => h other (by simp [hother])) fun vs => .refl _

/-- Entries that are null are passed over. -/
lemma entriesOfJson_withoutNulls (key : ValueKind)
    (h : ∀ e ∈ entered members, s.SameValue K kind e.2) (entries : List (Primitive × Value)) :
    SameUnless K (s.entriesOfJson key kind members entries)
      (s.entriesOfJson key kind (Json.membersWithoutNulls members) entries) := by
  induction members generalizing entries with
  | nil => exact .refl _
  | cons e members ih =>
    obtain ⟨name, item⟩ := e
    cases hitem : item.isNull with
    | true =>
      rw [entered_cons, if_pos hitem] at h
      rw [membersWithoutNulls, if_pos hitem, entriesOfJson_of_null hitem]
      exact ih h entries
    | false =>
      rw [entered_cons, if_neg (by simp [hitem])] at h
      have hitem' : item.withoutNulls.isNull = false := by rw [isNull_withoutNulls, hitem]
      rw [membersWithoutNulls, if_neg (by simp [hitem])]
      by_cases hkey : ∃ t, key = .scalar t
      · obtain ⟨t, rfl⟩ := hkey
        rw [entriesOfJson_of_scalar hitem, entriesOfJson_of_scalar hitem']
        refine SameUnless.bind (.refl _) fun k => ?_
        refine SameUnless.bind (h (name, item) (by simp)) fun v => ?_
        exact ih (fun e he => h e (by simp [he])) _
      · have hother : ∀ t, key ≠ .scalar t := not_exists.mp hkey
        rw [entriesOfJson_of_not_scalar hitem hother, entriesOfJson_of_not_scalar hitem' hother]
        exact .refl _

variable {p : FieldPlan} {value : Json}

lemma fieldOfJson_withoutNulls (h : ∀ part ∈ parts p value, s.SameValue K part.1 part.2) :
    SameUnless K (s.fieldOfJson p value) (s.fieldOfJson p value.withoutNulls) := by
  unfold parts at h
  cases hlayout : p.layout with
  | plain =>
    rw [fieldOfJson_of_plain hlayout, fieldOfJson_of_plain hlayout]
    exact (h (p.kind, value) (by simp [hlayout])).map _
  | optional =>
    rw [fieldOfJson_of_optional hlayout, fieldOfJson_of_optional hlayout]
    exact (h (p.kind, value) (by simp [hlayout])).map _
  | repeated =>
    rw [fieldOfJson_of_repeated hlayout, fieldOfJson_of_repeated hlayout]
    cases value with
    | array items =>
      refine (valuesOfJson_withoutNulls fun item hitem => ?_).map _
      exact h (p.kind, item) (by simpa [hlayout] using hitem)
    | _ => exact .refl _
  | map entry key content =>
    rw [fieldOfJson_of_map hlayout, fieldOfJson_of_map hlayout]
    cases value with
    | object members =>
      refine (entriesOfJson_withoutNulls key.kind (fun e he => ?_) []).map _
      exact h (content.kind, e.2) (by simpa [hlayout] using ⟨e.1, he⟩)
    | _ => exact .refl _

/-! ## What is found -/

/-- What is found for a member is found as before, without the null members in it. -/
lemma found?_membersWithoutNulls (hkeys : (members.map Prod.fst).Nodup) (m : Member) :
    found? (Json.membersWithoutNulls members) m =
      (found? members m).map fun f => (f.1, f.2.withoutNulls) := by
  cases m with
  | field p => simp [found?, field?_membersWithoutNulls hkeys, Function.comp_def]
  | union u =>
    simp only [found?, field?_membersWithoutNulls hkeys, List.map_findSome?, Option.map_map,
      Function.comp_def]

lemma slotOfJson_withoutNulls (hkeys : (members.map Prod.fst).Nodup) {m : Member}
    (h : ∀ p value, found? members m = some (p, value) →
      ∀ part ∈ parts p value, s.SameValue K part.1 part.2) :
    SameUnless K (s.slotOfJson members m)
      (s.slotOfJson (Json.membersWithoutNulls members) m) := by
  have hfound' := found?_membersWithoutNulls hkeys m
  cases m with
  | field p =>
    cases hfield : field? members (jsonNames p.jsonName p.field.name) with
    | none =>
      have hfield' := field?_membersWithoutNulls hkeys (jsonNames p.jsonName p.field.name)
      rw [hfield] at hfield'
      rw [slotOfJson_of_none hfield, slotOfJson_of_none hfield']
      exact .refl _
    | some value =>
      have hfield' := field?_membersWithoutNulls hkeys (jsonNames p.jsonName p.field.name)
      rw [hfield] at hfield'
      rw [slotOfJson_of_some hfield, slotOfJson_of_some hfield']
      exact fieldOfJson_withoutNulls (h p value (by simp [found?, hfield]))
  | union u =>
    cases hfound : found? members (.union u) with
    | none =>
      rw [hfound] at hfound'
      rw [slotOfJson_union_of_none hfound, slotOfJson_union_of_none hfound']
      exact .refl _
    | some f =>
      obtain ⟨p, value⟩ := f
      rw [hfound] at hfound'
      obtain ⟨⟨variant, -, rfl⟩, hslot⟩ := slotOfJson_union_of_some hfound
      rw [hslot, (slotOfJson_union_of_some hfound').2]
      exact (h _ value hfound (variant.kind, value) (List.mem_singleton_self _)).map _

lemma slotsOfJson_withoutNulls (hkeys : (members.map Prod.fst).Nodup) {plans : List Member}
    (h : ∀ m ∈ plans, ∀ p value, found? members m = some (p, value) →
      ∀ part ∈ parts p value, s.SameValue K part.1 part.2) :
    SameUnless K (s.slotsOfJson members plans)
      (s.slotsOfJson (Json.membersWithoutNulls members) plans) := by
  induction plans with
  | nil =>
    rw [slotsOfJson, slotsOfJson]
    exact .refl _
  | cons m plans ih =>
    rw [slotsOfJson, slotsOfJson]
    refine SameUnless.bind (slotOfJson_withoutNulls hkeys (h m (by simp))) fun slot => ?_
    exact SameUnless.bind (ih fun other hother => h other (by simp [hother])) fun slots => .refl _

/-! ## Timestamps with a null part -/

/-- Reading a message of the type with a qualified name from the members of an object comes to a
timestamp object with a part that is null. -/
inductive ReadsNullTime (s : Schema) : String → List (String × Json) → Prop
  | own {name : String} {members inner : List (String × Json)} {m : Member} {p : FieldPlan}
      {value : Json} : m ∈ s.members name → found? members m = some (p, value) →
      (.timestamp, .object inner) ∈ parts p value → Json.HasNullPart inner →
      ReadsNullTime s name members
  | inside {name : String} {members inner : List (String × Json)} {m : Member} {p : FieldPlan}
      {value : Json} {ref : Schema.TypeRef} : m ∈ s.members name →
      found? members m = some (p, value) → (.message ref, .object inner) ∈ parts p value →
      ReadsNullTime s ref.qualifiedName inner → ReadsNullTime s name members

lemma ReadsNullTime.slotsOfJson_ne_ok {name : String} (h : s.ReadsNullTime name members)
    (m : Message) : s.slotsOfJson members (s.members name) ≠ .ok m := by
  intro hread
  induction h generalizing m with
  | own hm hfound hpart hnull =>
    obtain ⟨slot, hslot⟩ := exists_slotOfJson_of_mem hread _ hm
    obtain ⟨slot', hslot'⟩ := exists_fieldOfJson_of_found? hslot hfound
    obtain ⟨v, hv⟩ := exists_valueOfJson_of_mem_parts hslot' _ hpart
    obtain ⟨e, he⟩ := toInstant_of_hasNullPart hnull
    rw [valueOfJson, he] at hv
    cases hv
  | inside hm hfound hpart hinner ih =>
    obtain ⟨slot, hslot⟩ := exists_slotOfJson_of_mem hread _ hm
    obtain ⟨slot', hslot'⟩ := exists_fieldOfJson_of_found? hslot hfound
    obtain ⟨v, hv⟩ := exists_valueOfJson_of_mem_parts hslot' _ hpart
    rw [valueOfJson_of_message] at hv
    obtain ⟨slots, hslots⟩ := exists_of_map_eq_ok hv
    exact ih slots hslots

/-- Reading a value comes to a timestamp object with a part that is null. -/
def ValueReadsNullTime (s : Schema) (kind : ValueKind) (value : Json) : Prop :=
  match kind, value with
  | .timestamp, .object members => Json.HasNullPart members
  | .message ref, .object members => s.ReadsNullTime ref.qualifiedName members
  | _, _ => False

lemma readsNullTime_of_found? {name : String} {m : Member} {part : ValueKind × Json}
    (hm : m ∈ s.members name) (hfound : found? members m = some (p, value))
    (hpart : part ∈ parts p value) (h : s.ValueReadsNullTime part.1 part.2) :
    s.ReadsNullTime name members := by
  obtain ⟨kind, item⟩ := part
  unfold ValueReadsNullTime at h
  split at h
  · rename_i hkind hitem
    cases hkind
    cases hitem
    exact .own hm hfound hpart h
  · rename_i hkind hitem
    cases hkind
    cases hitem
    exact .inside hm hfound hpart h
  · cases h

lemma hasDistinctKeys_parts (h : value.hasDistinctKeys) :
    ∀ part ∈ parts p value, part.2.hasDistinctKeys := by
  unfold parts
  split
  · simpa using h
  · simpa using h
  · simpa using hasDistinctKeys_array.mp h
  · intro part hpart
    obtain ⟨e, he, rfl⟩ := List.mem_map.mp hpart
    exact (hasDistinctKeys_object.mp h).2 e (List.mem_of_mem_filter he)
  · simp

lemma hasDistinctKeys_found? {m : Member} (h : (Json.object members).hasDistinctKeys)
    (hfound : found? members m = some (p, value)) : value.hasDistinctKeys := by
  obtain ⟨names, hfield⟩ : ∃ names, field? members names = some value := by
    cases m with
    | field q =>
      obtain ⟨value', hvalue, heq⟩ := Option.map_eq_some_iff.mp hfound
      cases heq
      exact ⟨_, hvalue⟩
    | union u =>
      obtain ⟨v, -, hv⟩ := List.exists_of_findSome?_eq_some hfound
      obtain ⟨value', hvalue, heq⟩ := Option.map_eq_some_iff.mp hv
      cases heq
      exact ⟨_, hvalue⟩
  obtain ⟨key, hmem⟩ := exists_mem_of_field? hfield
  exact (hasDistinctKeys_object.mp h).2 _ hmem

/-- Whatever it is to be, a value is read as without the null members in it, but for timestamps
with a part that is null. -/
lemma sameValue (kind : ValueKind) {value : Json} (hkeys : value.hasDistinctKeys) :
    s.SameValue (s.ValueReadsNullTime kind value) kind value := by
  unfold SameValue
  cases kind with
  | scalar t =>
    rw [valueOfJson, valueOfJson, scalarOfJson_withoutNulls]
    exact .refl _
  | enum ref e =>
    rw [valueOfJson, valueOfJson]
    cases value <;> exact .refl _
  | wrapper k =>
    rw [valueOfJson, valueOfJson, scalarOfJson_withoutNulls]
    exact .refl _
  | timestamp =>
    rw [valueOfJson, valueOfJson]
    by_cases hnull : ∃ members, value = .object members ∧ Json.HasNullPart members
    · obtain ⟨members, rfl, hpart⟩ := hnull
      obtain ⟨e, he⟩ := toInstant_of_hasNullPart hpart
      rw [he]
      exact .inr ⟨hpart, e, rfl⟩
    · rw [toInstant_withoutNulls hkeys fun members hvalue hpart =>
        hnull ⟨members, hvalue, hpart⟩]
      exact .refl _
  | message ref =>
    rw [valueOfJson_of_message, valueOfJson_of_message]
    cases value with
    | object members =>
      have hnodup := (hasDistinctKeys_object.mp hkeys).1
      refine (slotsOfJson_withoutNulls hnodup fun m hm p value hfound part hpart => ?_).map _
      -- A part is smaller than the object it was found in.
      have hvalue := sizeOf_found?_lt hfound
      have hle := sizeOf_parts_le part hpart
      refine (sameValue part.1 ?_).mono (readsNullTime_of_found? hm hfound hpart)
      exact hasDistinctKeys_parts (hasDistinctKeys_found? hkeys hfound) part hpart
    | _ => exact .refl _
termination_by sizeOf value
decreasing_by
  subst_vars
  simp only [object.sizeOf_spec]
  omega

/-- A message is read from a value if and only if it is read from the value without the null
members of all objects in it, and reading does not come to a timestamp object with a part that is
null. If it does not come to one, the two readings agree, also in their errors. -/
theorem ofJson_withoutNulls (s : Schema) (name : String) {value : Json}
    (hkeys : value.hasDistinctKeys = true) :
    (∀ m, s.ofJson name value = .ok m ↔ s.ofJson name value.withoutNulls = .ok m ∧
      ∀ members, value = .object members → ¬ s.ReadsNullTime name members) ∧
    ((∀ members, value = .object members → ¬ s.ReadsNullTime name members) →
      s.ofJson name value = s.ofJson name value.withoutNulls) := by
  cases value with
  | object members =>
    have hnodup := (Json.hasDistinctKeys_object.mp hkeys).1
    have hsame : SameUnless (s.ReadsNullTime name members)
        (s.slotsOfJson members (s.members name))
        (s.slotsOfJson (Json.membersWithoutNulls members) (s.members name)) := by
      refine slotsOfJson_withoutNulls hnodup fun m hm p value hfound part hpart => ?_
      refine (sameValue part.1 ?_).mono (readsNullTime_of_found? hm hfound hpart)
      exact hasDistinctKeys_parts (hasDistinctKeys_found? hkeys hfound) part hpart
    have hagree : ¬ s.ReadsNullTime name members →
        s.ofJson name (.object members) = s.ofJson name (Json.object members).withoutNulls := by
      intro hnot
      rcases hsame with heq | ⟨hnull, -⟩
      · exact heq
      · exact absurd hnull hnot
    refine ⟨fun m => ⟨fun hm => ?_, fun ⟨hm, hnot⟩ => ?_⟩, fun hnot => hagree (hnot members rfl)⟩
    · have hnot : ¬ s.ReadsNullTime name members := fun hnull => hnull.slotsOfJson_ne_ok m hm
      refine ⟨hagree hnot ▸ hm, ?_⟩
      rintro inner ⟨⟩
      exact hnot
    · rw [hagree (hnot members rfl), hm]
  | _ =>
    refine ⟨fun m => ⟨fun hm => ?_, fun hm => ?_⟩, fun _ => rfl⟩
    · cases hm
    · cases hm.1

/-! ## A visit -/

/-- A file with one message, which holds a time and a text. -/
private def visitFile : Descriptor.File :=
  { name := "desk.proto"
    package := "desk"
    dialect := "proto3"
    messages := [{
      name := "Visit"
      fields := [Sample.message Timestamp.typeName "at" 1, Sample.scalar .string "room" 2] }] }

private def visitSchema : Schema := planned [Sample.timestampFile, visitFile] {}

private lemma ofFiles_visit : ofFiles [Sample.timestampFile, visitFile] {} = .ok visitSchema :=
  ofFiles_eq_planned (by decide +kernel)

private def isVisit : List Member → Bool
  | [.field time, .field room] => decide (
      jsonNames time.jsonName time.field.name = ["at"] ∧ time.layout.shape = .optional ∧
        time.kind = .timestamp ∧ jsonNames room.jsonName room.field.name = ["room"] ∧
        visitSchema.zeroSlot (.field room) = .plain (.scalar (.string "")))
  | _ => false

/-- A visit at a time that is given in parts, without a room. -/
private lemma ofJson_visit {members inner : List (String × Json)}
    (htime : Json.field? members ["at"] = some (.object inner))
    (hroom : Json.field? members ["room"] = none) :
    visitSchema.ofJson ".desk.Visit" (.object members) =
      (Json.toInstant (.object inner)).map fun t =>
        [.optional (some (.time t)), .plain (.scalar (.string ""))] := by
  have hvisit : isVisit (visitSchema.members ".desk.Visit") := by decide +kernel
  unfold isVisit at hvisit
  split at hvisit
  · rename_i time room hmembers
    obtain ⟨hat, hshape, hkind, hdesk, hzero⟩ := of_decide_eq_true hvisit
    change visitSchema.slotsOfJson members (visitSchema.members ".desk.Visit") = _
    rw [hmembers, slotsOfJson, slotOfJson_of_some (hat ▸ htime),
      fieldOfJson_of_optional (Layout.shape_eq_optional.mp hshape), hkind, valueOfJson,
      slotsOfJson, slotOfJson_of_none (hdesk ▸ hroom), hzero, slotsOfJson]
    cases toInstant (.object inner) <;> rfl
  · cases hvisit

/-- A visit whose seconds are null is refused; without them it is at the epoch. -/
theorem ofJson_null_seconds : ∃ (s : Schema) (value : Json),
    ofFiles [Sample.timestampFile, visitFile] {} = .ok s ∧ value.hasDistinctKeys = true ∧
    s.ofJson ".desk.Visit" value = .error (.unexpected .integer .null) ∧
    s.ofJson ".desk.Visit" value.withoutNulls =
      .ok [.optional (some (.time .epoch)), .plain (.scalar (.string ""))] := by
  refine ⟨visitSchema, .object [("at", .object [("seconds", .null)])], ofFiles_visit, by decide,
    ?_, ?_⟩
  · rw [ofJson_visit rfl rfl]
    rfl
  · have hstripped : (Json.object [("at", .object [("seconds", .null)])]).withoutNulls =
        .object [("at", .object [])] := by
      simp [Json.withoutNulls, Json.membersWithoutNulls, Json.isNull]
    rw [hstripped, ofJson_visit rfl rfl]
    rfl

/-- A visit with a null room, at a time with a null zone, is the visit without either. -/
theorem ofJson_withoutNulls_visit : ∃ (s : Schema) (value : Json),
    ofFiles [Sample.timestampFile, visitFile] {} = .ok s ∧
    value = .object [("at", .object [("seconds", .ofInt 5), ("zone", .null)]), ("room", .null)] ∧
    value.withoutNulls = .object [("at", .object [("seconds", .ofInt 5)])] ∧
    value.hasDistinctKeys = true ∧
    s.ofJson ".desk.Visit" value.withoutNulls =
      .ok [.optional (some (.time ⟨5, 0, by decide⟩)), .plain (.scalar (.string ""))] := by
  have hkeys : (Json.object [("at", .object [("seconds", .ofInt 5), ("zone", .null)]),
      ("room", .null)]).hasDistinctKeys = true := by decide
  have htime : Json.field? [("at", .object [("seconds", .ofInt 5), ("zone", .null)]),
      ("room", .null)] ["at"] = some (.object [("seconds", .ofInt 5), ("zone", .null)]) := rfl
  have hread := ofJson_visit htime rfl
  refine ⟨visitSchema, _, ofFiles_visit, rfl, ?_, hkeys, ?_⟩
  · simp [Json.withoutNulls, Json.membersWithoutNulls, Json.isNull, Json.ofInt]
  · exact (((ofJson_withoutNulls visitSchema ".desk.Visit" hkeys).1 _).mp hread).1

end Schema

end Protobuf.Codec
