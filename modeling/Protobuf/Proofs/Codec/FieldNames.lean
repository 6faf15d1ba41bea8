import Protobuf.Proofs.Codec.NullMembers

/-!
# Either name of a field

A field is given in JSON under its JSON name or under the name that the schema gives
it. A name of one field is never a name of another one, so the objects of messages
in a value can be respelled, at any depth, without a difference to what is read:
a key can be replaced by the other name of its field, and of two keys for one field
one is passed over.
-/

open List Protobuf.Json

namespace Protobuf.Json

variable {members members' before after : List (String × Json)} {key : String}
  {value value' : Json}

lemma field?_congr {names : List String}
    (h : ∀ name ∈ names, member? name members' = member? name members) :
    field? members' names = field? members names := by
  induction names with
  | nil => rfl
  | cons name names ih =>
    rw [forall_mem_cons] at h
    rw [field?_cons, field?_cons, h.1, ih h.2]

/-- A function that does not tell two values apart does not tell where one of them stands for the
other. -/
lemma map_field?_replace {α : Type} {f : Json → α} (hf : f value' = f value)
    (hnull : value'.isNull = value.isNull) (names : List String) :
    (field? (before ++ (key, value') :: after) names).map f =
      (field? (before ++ (key, value) :: after) names).map f := by
  induction names with
  | nil => rfl
  | cons name names ih =>
    rw [field?_cons, field?_cons, Option.map_or, Option.map_or, ih]
    congr 1
    rw [member?, member?, lookup_append, lookup_append, lookup_cons,
      lookup_cons]
    cases before.lookup name with
    | some other => rfl
    | none =>
      cases name == key with
      | false => rfl
      | true => cases h : value.isNull <;> simp [Option.filter, hnull, h, hf]

lemma member?_middle {other : String} (hother : other ≠ key) :
    member? other (before ++ (key, value) :: after) = member? other (before ++ after) := by
  rw [member?, member?, lookup_append, lookup_append, lookup_cons,
    beq_eq_false_iff_ne.mpr hother]

lemma member?_perm (h : members'.Perm members) (hnodup : (members.map Prod.fst).Nodup)
    (key : String) : member? key members' = member? key members := by
  have hnodup' : (members'.map Prod.fst).Nodup := (h.map Prod.fst).nodup_iff.mpr hnodup
  apply Option.ext
  intro value
  rw [member?, member?, lookup_eq_some_iff_mem hnodup', lookup_eq_some_iff_mem hnodup, h.mem_iff]

lemma member?_eq_none (h : key ∉ members.map Prod.fst) : member? key members = none := by
  refine lookup_eq_none_iff.mpr fun e he => ?_
  rw [bne_iff_ne]
  rintro rfl
  exact h (mem_map_of_mem he)

/-- Without the members under a key nothing is found under it, and all else is. -/
lemma member?_filter (key dropped : String) (members : List (String × Json)) :
    member? key (members.filter fun e => e.1 != dropped) =
      if key = dropped then none else member? key members := by
  unfold member?
  induction members with
  | nil => simp
  | cons e members ih =>
    obtain ⟨k, v⟩ := e
    by_cases hk : k = dropped
    · rw [filter_cons_of_neg (by simp [hk]), ih, lookup_cons]
      by_cases hkey : key = dropped
      · rw [if_pos hkey, if_pos hkey]
      · rw [if_neg hkey, if_neg hkey, hk, beq_eq_false_iff_ne.mpr hkey]
    · rw [filter_cons_of_pos (by simp [hk]), lookup_cons, lookup_cons, ih]
      by_cases hkey : key = k
      · simp [hkey, hk]
      · simp [beq_eq_false_iff_ne.mpr hkey]

/-- The keys of an object and those of a value in it are distinct independently. -/
lemma hasDistinctKeys_object_middle :
    (Json.object (before ++ (key, value) :: after)).hasDistinctKeys ↔
      (Json.object (before ++ (key, .null) :: after)).hasDistinctKeys ∧
        value.hasDistinctKeys := by
  have hnull : null.hasDistinctKeys := rfl
  simp only [hasDistinctKeys_object, map_append, map_cons, forall_mem_append,
    forall_mem_cons, hnull]
  tauto

lemma hasDistinctKeys_array_middle {before after : List Json} :
    (Json.array (before ++ value :: after)).hasDistinctKeys ↔
      (Json.array (before ++ .null :: after)).hasDistinctKeys ∧
        value.hasDistinctKeys := by
  have hnull : null.hasDistinctKeys := rfl
  simp only [hasDistinctKeys_array, forall_mem_append, forall_mem_cons, hnull]
  tauto

end Protobuf.Json

namespace Protobuf.Plan

def Member.fields : Member → List FieldPlan
  | .field p => [p]
  | .union u => u.variants.map VariantPlan.toField

lemma Member.names_eq_map_fields (m : Member) :
    m.names = m.fields.map fun p => (p.jsonName, p.field.name) := by
  cases m with
  | field p => rfl
  | union u => simp [names, fields, VariantPlan.toField]

end Protobuf.Plan

namespace Protobuf.Codec.Schema

open Plan

def fields (s : Schema) (name : String) : List FieldPlan :=
  (s.members name).flatMap Member.fields

def keys (p : FieldPlan) : List String :=
  jsonNames p.jsonName p.field.name

variable {s : Schema} {files : List Descriptor.File} {options : Options}

/-! ## No field has a name of another one -/

variable {p : FieldPlan} {key name : String} {value value' : Json}

lemma mem_keys : key ∈ keys p ↔ key = p.jsonName ∨ key = p.field.name := by
  unfold keys jsonNames
  split_ifs with h <;> simp [h]

lemma keys_of_ne (h : p.jsonName ≠ p.field.name) : keys p = [p.jsonName, p.field.name] :=
  if_neg h

lemma jsonName_of_mem_keys (hs : ofFiles files options = .ok s) (hp : p ∈ s.fields name)
    (hkey : key ∈ keys p) : Naming.jsonName options.names key = p.jsonName := by
  obtain ⟨m, hm, hpm⟩ := mem_flatMap.mp hp
  have hmem : (p.jsonName, p.field.name) ∈ m.names := by
    rw [m.names_eq_map_fields]
    exact mem_map_of_mem hpm
  have hjson : p.jsonName = Naming.jsonName options.names p.field.name :=
    ofFiles_jsonName_eq hs hm _ hmem
  rcases mem_keys.mp hkey with rfl | rfl
  · rw [hjson, Naming.jsonName_jsonName]
  · exact hjson.symm

/-- Where JSON names are distinct, so are all names of different fields. -/
lemma eq_of_mem_keys (hs : ofFiles files options = .ok s)
    (hdistinct : DistinctKeys (s.members name)) {q : FieldPlan} (hp : p ∈ s.fields name)
    (hq : q ∈ s.fields name) (hkey : key ∈ keys p) (hkey' : key ∈ keys q) : p = q := by
  have hnodup : ((s.fields name).map FieldPlan.jsonName).Nodup := by
    have heq : (s.fields name).map FieldPlan.jsonName =
        (s.members name).flatMap Member.jsonNames := by
      rw [fields, map_flatMap]
      refine congrArg (fun f => (s.members name).flatMap f) (funext fun m => ?_)
      rw [Member.jsonNames, m.names_eq_map_fields, map_map]
      rfl
    rw [heq]
    exact hdistinct
  refine inj_on_of_nodup_map hnodup hp hq ?_
  rw [← jsonName_of_mem_keys hs hp hkey, jsonName_of_mem_keys hs hq hkey']

/-! ## What is found in an object -/

variable {members members' : List (String × Json)}

/-- Reading the field does not tell the objects apart. -/
def FindsSame (s : Schema) (members members' : List (String × Json)) (p : FieldPlan) : Prop :=
  (Json.field? members' (keys p)).map (s.fieldOfJson p) =
    (Json.field? members (keys p)).map (s.fieldOfJson p)

lemma slotOfJson_field (p : FieldPlan) : s.slotOfJson members (.field p) =
    ((Json.field? members (keys p)).map (s.fieldOfJson p)).getD (.ok (s.zeroSlot (.field p))) := by
  cases h : field? members (keys p) with
  | none => exact slotOfJson_of_none h
  | some value => exact slotOfJson_of_some h

/-- The value of a member of a union is read as that of an optional field. -/
lemma valueOfJson_eq_of_toField {v : VariantPlan}
    (h : s.fieldOfJson v.toField value' = s.fieldOfJson v.toField value) :
    s.valueOfJson v.kind value' = s.valueOfJson v.kind value := by
  have hlayout : v.toField.layout = .optional := rfl
  rw [fieldOfJson_of_optional hlayout, fieldOfJson_of_optional hlayout] at h
  change (s.valueOfJson v.kind value').map _ = (s.valueOfJson v.kind value).map _ at h
  cases hv : s.valueOfJson v.kind value <;> cases hv' : s.valueOfJson v.kind value' <;>
    rw [hv, hv'] at h <;> cases h <;> rfl

lemma unionOfJson_congr {variants : List VariantPlan}
    (h : ∀ v ∈ variants, s.FindsSame members members' v.toField) :
    s.unionOfJson members' variants = s.unionOfJson members variants := by
  induction variants with
  | nil => rw [unionOfJson, unionOfJson]
  | cons v variants ih =>
    have hv := h v (by simp)
    have hrest := ih fun w hw => h w (by simp [hw])
    unfold FindsSame at hv
    cases hfound : field? members (keys v.toField) with
    | none =>
      rw [hfound, Option.map_none, Option.map_eq_none_iff] at hv
      have hskip (ms : List (String × Json)) (hms : field? ms (keys v.toField) = none) :
          s.unionOfJson ms (v :: variants) = s.unionOfJson ms variants := by
        refine unionOfJson_append (fun w (hw : w ∈ [v]) => ?_) variants
        rw [mem_singleton.mp hw]
        exact hms
      rw [hskip members' hv, hskip members hfound, hrest]
    | some value =>
      rw [hfound, Option.map_some] at hv
      obtain ⟨value', hfound', heq⟩ := Option.map_eq_some_iff.mp hv
      rw [unionOfJson_of_some hfound', unionOfJson_of_some hfound, valueOfJson_eq_of_toField heq]

lemma slotOfJson_congr {m : Member} (h : ∀ p ∈ m.fields, s.FindsSame members members' p) :
    s.slotOfJson members' m = s.slotOfJson members m := by
  cases m with
  | field p =>
    have hp : s.FindsSame members members' p := h p (by simp [Member.fields])
    unfold FindsSame at hp
    rw [slotOfJson_field, slotOfJson_field, hp]
  | union u =>
    rw [slotOfJson, slotOfJson, unionOfJson_congr]
    exact fun v hv => h _ (mem_map_of_mem hv)

lemma slotsOfJson_congr {plans : List Member}
    (h : ∀ p ∈ plans.flatMap Member.fields, s.FindsSame members members' p) :
    s.slotsOfJson members' plans = s.slotsOfJson members plans := by
  induction plans with
  | nil => rw [slotsOfJson, slotsOfJson]
  | cons m plans ih =>
    rw [flatMap_cons, forall_mem_append] at h
    rw [slotsOfJson, slotsOfJson, slotOfJson_congr h.1, ih h.2]

/-! ## Objects inside a value -/

/-- A field holds a message at a place in its value. -/
inductive Frame (p : FieldPlan) (ref : Schema.TypeRef) : (Json → Json) → Prop
  | plain : p.layout = .plain → p.kind = .message ref → Frame p ref fun value => value
  | optional : p.layout = .optional → p.kind = .message ref → Frame p ref fun value => value
  | item (before after : List Json) : p.layout = .repeated → p.kind = .message ref →
      Frame p ref fun value => .array (before ++ value :: after)
  | entry {type : Schema.TypeRef} {key content : FieldPlan} (before after : List (String × Json))
      (entryKey : String) : p.layout = .map type key content → content.kind = .message ref →
      Frame p ref fun value => .object (before ++ (entryKey, value) :: after)

lemma valuesOfJson_replace {kind : ValueKind} (before after : List Json)
    (h : s.valueOfJson kind value' = s.valueOfJson kind value) :
    s.valuesOfJson kind (before ++ value' :: after) =
      s.valuesOfJson kind (before ++ value :: after) := by
  induction before with
  | nil => rw [nil_append, nil_append, valuesOfJson, valuesOfJson, h]
  | cons item before ih => rw [cons_append, cons_append, valuesOfJson, valuesOfJson, ih]

lemma entriesOfJson_replace {key kind : ValueKind} {entryKey : String}
    (before after : List (String × Json)) (entries : List (Primitive × Value))
    (h : s.valueOfJson kind value' = s.valueOfJson kind value)
    (hnull : value'.isNull = value.isNull) :
    s.entriesOfJson key kind (before ++ (entryKey, value') :: after) entries =
      s.entriesOfJson key kind (before ++ (entryKey, value) :: after) entries := by
  induction before generalizing entries with
  | nil =>
    rw [nil_append, nil_append, entriesOfJson, entriesOfJson, hnull]
    simp only [h]
  | cons e before ih =>
    obtain ⟨name, item⟩ := e
    rw [cons_append, cons_append, entriesOfJson, entriesOfJson]
    simp only [ih]

/-- A field is read as before if the message at a place in its value is. -/
lemma Frame.fieldOfJson_congr {ref : Schema.TypeRef} {frame : Json → Json}
    (hframe : Frame p ref frame)
    (h : s.valueOfJson (.message ref) value' = s.valueOfJson (.message ref) value)
    (hnull : value'.isNull = value.isNull) :
    s.fieldOfJson p (frame value') = s.fieldOfJson p (frame value) := by
  cases hframe with
  | plain hlayout hkind =>
    rw [fieldOfJson_of_plain hlayout, fieldOfJson_of_plain hlayout, hkind, h]
  | optional hlayout hkind =>
    rw [fieldOfJson_of_optional hlayout, fieldOfJson_of_optional hlayout, hkind, h]
  | item before after hlayout hkind =>
    rw [fieldOfJson_of_repeated hlayout, fieldOfJson_of_repeated hlayout, hkind]
    simp only [asArray, Except.bind, valuesOfJson_replace before after h]
  | entry before after entryKey hlayout hkind =>
    rw [fieldOfJson_of_map hlayout, fieldOfJson_of_map hlayout, hkind]
    simp only [asObject, Except.bind, entriesOfJson_replace before after [] h hnull]

lemma Frame.hasDistinctKeys_iff {ref : Schema.TypeRef} {frame : Json → Json}
    (hframe : Frame p ref frame) : (frame value).hasDistinctKeys ↔
      (frame .null).hasDistinctKeys ∧ value.hasDistinctKeys := by
  have hnull : null.hasDistinctKeys := rfl
  cases hframe with
  | plain | optional => simp only [hnull, true_and]
  | item => exact hasDistinctKeys_array_middle
  | entry => exact hasDistinctKeys_object_middle

lemma valueOfJson_message_eq (ref : Schema.TypeRef) (value : Json) :
    s.valueOfJson (.message ref) value = (s.ofJson ref.qualifiedName value).map .message := by
  rw [valueOfJson_of_message]
  cases value <;> rfl

/-- One object of a message is replaced, which stands in the place of the message with a qualified
name or in that of a message inside it. -/
inductive Within (s : Schema)
    (B : String → List (String × Json) → List (String × Json) → Prop) : String → Json → Json → Prop
  | here {name : String} {members members' : List (String × Json)} :
      DistinctKeys (s.members name) → B name members members' →
      Within s B name (.object members) (.object members')
  | inside {name key : String} {before after : List (String × Json)} {p : FieldPlan}
      {ref : Schema.TypeRef} {frame : Json → Json} {value value' : Json} :
      DistinctKeys (s.members name) → p ∈ s.fields name → key ∈ keys p → Frame p ref frame →
      Within s B ref.qualifiedName value value' →
      Within s B name (.object (before ++ (key, frame value) :: after))
        (.object (before ++ (key, frame value') :: after))

namespace Within

variable {B : String → List (String × Json) → List (String × Json) → Prop} {name : String}
  {value value' : Json}

lemma isNull_eq (h : s.Within B name value value') : value'.isNull = value.isNull := by
  cases h <;> rfl

lemma frame_isNull {p : FieldPlan} {ref : Schema.TypeRef} {frame : Json → Json}
    (hframe : Frame p ref frame) (h : s.Within B name value value') :
    (frame value').isNull = (frame value).isNull := by
  cases hframe with
  | plain | optional => exact h.isNull_eq
  | item | entry => rfl

/-- If every field finds in an object that replaces another one what it finds in that one, a value
in which an object is replaced is read as before. -/
lemma ofJson_eq (hs : ofFiles files options = .ok s)
    (hB : ∀ {name : String} {members members' : List (String × Json)},
      (Json.object members).hasDistinctKeys → DistinctKeys (s.members name) →
      B name members members' →
      ∀ p ∈ s.fields name, Json.field? members' (keys p) = Json.field? members (keys p))
    (h : s.Within B name value value') (hkeys : value.hasDistinctKeys) :
    s.ofJson name value' = s.ofJson name value := by
  induction h with
  | here hdistinct hreplaced =>
    refine slotsOfJson_congr fun p hp => ?_
    rw [FindsSame, hB hkeys hdistinct hreplaced p hp]
  | @inside name key before after p ref frame value value' hdistinct hp hkey hframe h ih =>
    have hplaced := (hasDistinctKeys_object_middle.mp hkeys).2
    have hinner := (hframe.hasDistinctKeys_iff.mp hplaced).2
    have hvalue : s.valueOfJson (.message ref) value' = s.valueOfJson (.message ref) value := by
      rw [valueOfJson_message_eq, valueOfJson_message_eq, ih hinner]
    have hfield := hframe.fieldOfJson_congr hvalue h.isNull_eq
    refine slotsOfJson_congr fun q hq => ?_
    by_cases hother : key ∈ keys q
    · obtain rfl := eq_of_mem_keys hs hdistinct hp hq hkey hother
      exact map_field?_replace hfield (h.frame_isNull hframe) _
    · rw [FindsSame, field?_congr]
      intro other hmem
      have hne : other ≠ key := fun heq => hother (heq ▸ hmem)
      rw [member?_middle hne, member?_middle hne]

/-- If an object that replaces another one has each of its keys once, so do all objects in a value
in which it does. -/
lemma hasDistinctKeys
    (hB : ∀ {name : String} {members members' : List (String × Json)},
      (Json.object members).hasDistinctKeys → B name members members' →
      (Json.object members').hasDistinctKeys)
    (h : s.Within B name value value') (hkeys : value.hasDistinctKeys) :
    value'.hasDistinctKeys := by
  induction h with
  | here _ hreplaced => exact hB hkeys hreplaced
  | inside _ _ _ hframe _ ih =>
    obtain ⟨houter, hplaced⟩ := hasDistinctKeys_object_middle.mp hkeys
    obtain ⟨hframed, hinner⟩ := hframe.hasDistinctKeys_iff.mp hplaced
    refine hasDistinctKeys_object_middle.mpr ⟨houter, ?_⟩
    exact hframe.hasDistinctKeys_iff.mpr ⟨hframed, ih hinner⟩

end Within

/-! ## The other name of a field -/

/-- The JSON name of a field is replaced by its other name, which was no key of the object. The
members of an object have no order. -/
inductive RenamesKey (s : Schema) (name : String) :
    List (String × Json) → List (String × Json) → Prop
  | intro {p : FieldPlan} {value : Json} {before after members' : List (String × Json)} :
      p ∈ s.fields name →
      p.field.name ∉ (before ++ (p.jsonName, value) :: after).map Prod.fst →
      members'.Perm (before ++ (p.field.name, value) :: after) →
      RenamesKey s name (before ++ (p.jsonName, value) :: after) members'

lemma RenamesKey.hasDistinctKeys (h : s.RenamesKey name members members')
    (hkeys : (Json.object members).hasDistinctKeys) :
    (Json.object members').hasDistinctKeys := by
  cases h with
  | @intro p value before after _ hp hnew hperm =>
    obtain ⟨hnodup, hvalues⟩ := hasDistinctKeys_object.mp hkeys
    refine hasDistinctKeys_object.mpr ⟨(hperm.map Prod.fst).nodup_iff.mpr ?_, ?_⟩
    · rw [map_append, map_cons] at hnodup hnew ⊢
      rw [perm_middle.nodup_iff, nodup_cons] at hnodup ⊢
      rw [perm_middle.mem_iff, mem_cons, not_or] at hnew
      exact ⟨hnew.2, hnodup.2⟩
    · intro e he
      rcases mem_append.mp (hperm.mem_iff.mp he) with he | he
      · exact hvalues e (by simp [he])
      · rcases mem_cons.mp he with rfl | he
        · exact hvalues (p.jsonName, value) (by simp)
        · exact hvalues e (by simp [he])

/-- What was found under the JSON name of a field is found under its other name, and no other
field is concerned. -/
lemma RenamesKey.field?_eq (hs : ofFiles files options = .ok s)
    (hkeys : (Json.object members).hasDistinctKeys)
    (hdistinct : DistinctKeys (s.members name)) (h : s.RenamesKey name members members') :
    ∀ q ∈ s.fields name, Json.field? members' (keys q) = Json.field? members (keys q) := by
  have hnodup := (hasDistinctKeys_object.mp hkeys).1
  have hnodup' := (hasDistinctKeys_object.mp (h.hasDistinctKeys hkeys)).1
  cases h with
  | @intro p value before after _ hp hnew hperm =>
    have hne : p.jsonName ≠ p.field.name := by
      intro heq
      rw [← heq] at hnew
      simp at hnew
    intro q hq
    by_cases hqp : q = p
    · -- The field itself finds its value under one name or the other.
      subst hqp
      have hold : member? q.jsonName (before ++ (q.jsonName, value) :: after) = some value :=
        (lookup_eq_some_iff_mem hnodup).mpr (by simp)
      have hold' : member? q.field.name members' = some value :=
        (lookup_eq_some_iff_mem hnodup').mpr (hperm.mem_iff.mpr (by simp))
      have hgone : member? q.jsonName members' = none := by
        refine member?_eq_none fun hmem => ?_
        rw [(hperm.map Prod.fst).mem_iff] at hmem
        rw [map_append, map_cons, perm_middle.nodup_iff, nodup_cons,
          mem_append] at hnodup
        simp only [map_append, map_cons, mem_append, mem_cons] at hmem
        tauto
      rw [keys_of_ne hne]
      simp only [field?_cons, hold, hold', hgone, member?_eq_none hnew]
      simp [Json.field?]
    · refine field?_congr fun other hmem => ?_
      have hother : other ∉ keys p := fun hp' => hqp (eq_of_mem_keys hs hdistinct hq hp hmem hp')
      rw [mem_keys, not_or] at hother
      have hperm' := member?_perm hperm.symm hnodup' other
      rw [← hperm', member?_middle hother.1, member?_middle hother.2]

/-! ## Both names of a field -/

/-- Of two members for one field one is left out: that under the JSON name if it is null, and
otherwise that under the other name. -/
inductive LeavesOut (s : Schema) (name : String) :
    List (String × Json) → List (String × Json) → Prop
  | intro {p : FieldPlan} {value other : Json} {members : List (String × Json)} :
      p ∈ s.fields name → p.jsonName ≠ p.field.name → (p.jsonName, value) ∈ members →
      (p.field.name, other) ∈ members →
      LeavesOut s name members (members.filter fun e =>
        e.1 != if value.isNull then p.jsonName else p.field.name)

lemma LeavesOut.field?_eq (hs : ofFiles files options = .ok s)
    (hkeys : (Json.object members).hasDistinctKeys)
    (hdistinct : DistinctKeys (s.members name)) (h : s.LeavesOut name members members') :
    ∀ q ∈ s.fields name, Json.field? members' (keys q) = Json.field? members (keys q) := by
  have hnodup := (hasDistinctKeys_object.mp hkeys).1
  cases h with
  | @intro p value other _ hp hne hvalue hother =>
    intro q hq
    by_cases hqp : q = p
    · subst hqp
      have hfound : member? q.jsonName members = some value :=
        (lookup_eq_some_iff_mem hnodup).mpr hvalue
      rw [keys_of_ne hne]
      simp only [field?_cons, member?_filter, hfound]
      cases hnull : value.isNull <;> simp [Option.filter, hnull, hne, hne.symm, Json.field?]
    · refine field?_congr fun key hmem => ?_
      have hkey : key ∉ keys p := fun hp' => hqp (eq_of_mem_keys hs hdistinct hq hp hmem hp')
      rw [mem_keys, not_or] at hkey
      rw [member?_filter, if_neg]
      split_ifs
      · exact hkey.1
      · exact hkey.2

/-- In a value whose objects have each key once, the objects of messages may be given under either
name of a field: replacing JSON names by the other names, one after another, in objects at any
depth that do not have that name already, is no difference to what is read, be it a message or an
error. Of two members for one field, in an object at any depth, that under the JSON name is read
unless it is null. -/
theorem ofJson_either_name (hs : ofFiles files options = .ok s) {name : String}
    {value value' : Json} (hkeys : value.hasDistinctKeys = true) :
    (Relation.ReflTransGen (s.Within s.RenamesKey name) value value' →
      s.ofJson name value' = s.ofJson name value) ∧
    (s.Within s.LeavesOut name value value' → s.ofJson name value' = s.ofJson name value) := by
  refine ⟨fun h => ?_, fun h => h.ofJson_eq hs (LeavesOut.field?_eq hs) hkeys⟩
  have hboth : value'.hasDistinctKeys = true ∧ s.ofJson name value' = s.ofJson name value := by
    induction h with
    | refl => exact ⟨hkeys, rfl⟩
    | tail _ hstep ih =>
      refine ⟨hstep.hasDistinctKeys (fun hkeys h => h.hasDistinctKeys hkeys) ih.1, ?_⟩
      rw [hstep.ofJson_eq hs (RenamesKey.field?_eq hs) ih.1, ih.2]
  exact hboth.2

/-! ## Boxes in boxes -/

/-- A file with one message, which holds a label and other messages of its type. -/
private def boxFile : Descriptor.File :=
  { name := "shelf.proto"
    package := "shelf"
    dialect := "proto3"
    messages := [{
      name := "Box"
      fields := [Sample.scalar .string "full_label" 1,
        Sample.many (Sample.message ".shelf.Box" "inner_boxes" 2)] }] }

private def boxRef : Schema.TypeRef :=
  ⟨["shelf"], "shelf", "Box", ".shelf.Box"⟩

private def boxSchema : Schema := planned [boxFile] {}

private lemma exists_label : ∃ p ∈ boxSchema.fields ".shelf.Box",
    p.jsonName = "fullLabel" ∧ p.field.name = "full_label" := by
  decide +kernel

private lemma exists_boxes : ∃ p ∈ boxSchema.fields ".shelf.Box", p.jsonName = "innerBoxes" ∧
    p.field.name = "inner_boxes" ∧ p.layout.shape = .repeated ∧ p.kind = .message boxRef := by
  decide +kernel

/-- A box in a box is found under either name, and so is its label. A label that is null gives way
to the one under the other name. -/
theorem ofJson_either_name_box : ∃ s : Schema, ofFiles [boxFile] {} = .ok s ∧
    s.ofJson ".shelf.Box"
        (.object [("inner_boxes", .array [.object [("full_label", .string "lid")]])]) =
      s.ofJson ".shelf.Box"
        (.object [("innerBoxes", .array [.object [("fullLabel", .string "lid")]])]) ∧
    s.ofJson ".shelf.Box" (.object [("full_label", .string "lid")]) =
      s.ofJson ".shelf.Box" (.object [("fullLabel", .null), ("full_label", .string "lid")]) := by
  have hs : ofFiles [boxFile] {} = .ok boxSchema := ofFiles_eq_planned (by decide +kernel)
  have hdistinct : DistinctKeys (boxSchema.members ".shelf.Box") := by
    unfold DistinctKeys
    decide +kernel
  obtain ⟨label, hlabel, hlabelJson, hlabelName⟩ := exists_label
  obtain ⟨boxes, hboxes, hboxesJson, hboxesName, hshape, hkind⟩ := exists_boxes
  have hinner : boxSchema.RenamesKey ".shelf.Box" [("fullLabel", .string "lid")]
      [("full_label", .string "lid")] := by
    have hrename := @RenamesKey.intro boxSchema ".shelf.Box" label (.string "lid") [] []
      [("full_label", .string "lid")] hlabel (by simp [hlabelJson, hlabelName])
      (by simp [hlabelName])
    simpa [hlabelJson] using hrename
  have houter : boxSchema.RenamesKey ".shelf.Box"
      [("innerBoxes", .array [.object [("full_label", .string "lid")]])]
      [("inner_boxes", .array [.object [("full_label", .string "lid")]])] := by
    have hrename := @RenamesKey.intro boxSchema ".shelf.Box" boxes
      (.array [.object [("full_label", .string "lid")]]) [] []
      [("inner_boxes", .array [.object [("full_label", .string "lid")]])] hboxes
      (by simp [hboxesJson, hboxesName]) (by simp [hboxesName])
    simpa [hboxesJson] using hrename
  have hdeep : boxSchema.Within boxSchema.RenamesKey ".shelf.Box"
      (.object [("innerBoxes", .array [.object [("fullLabel", .string "lid")]])])
      (.object [("innerBoxes", .array [.object [("full_label", .string "lid")]])]) :=
    @Within.inside _ _ ".shelf.Box" "innerBoxes" [] [] boxes boxRef _ _ _ hdistinct hboxes
      (by simp [mem_keys, hboxesJson]) (.item [] [] (Layout.shape_eq_repeated.mp hshape) hkind)
      (.here hdistinct hinner)
  have hleft : boxSchema.LeavesOut ".shelf.Box"
      [("fullLabel", .null), ("full_label", .string "lid")] [("full_label", .string "lid")] := by
    have hdrop := @LeavesOut.intro boxSchema ".shelf.Box" label .null (.string "lid")
      [("fullLabel", .null), ("full_label", .string "lid")] hlabel
      (by simp [hlabelJson, hlabelName]) (by simp [hlabelJson]) (by simp [hlabelName])
    simpa [hlabelJson, Json.isNull] using hdrop
  refine ⟨boxSchema, hs, ?_, ?_⟩
  · exact (ofJson_either_name hs (by decide)).1 (.tail (.single hdeep) (.here hdistinct houter))
  · exact (ofJson_either_name hs (by decide)).2 (.here hdistinct hleft)

end Protobuf.Codec.Schema
