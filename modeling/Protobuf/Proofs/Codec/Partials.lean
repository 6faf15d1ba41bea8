import Protobuf.Codec.Partial
import Protobuf.Proofs.Codec.Merging

/-!
# Messages given in part

A partial message is completed member by member. A message that is given in full
is completed to itself: `SlotsLift` relates it to the partial messages that give all
of it. What is not given is left as in the message in which nothing was set, and
entries of a map that have no value are dropped.
-/

namespace Protobuf.Codec

open Plan List

/-! ## Messages in full -/

mutual

inductive Formed (s : Schema) : ValueKind → Value → Prop
  | scalar (kind : ValueKind) (p : Primitive) : Formed s kind (.scalar p)
  | choice (kind : ValueKind) (c : Choice) : Formed s kind (.choice c)
  | time (kind : ValueKind) (t : Time.Instant) : Formed s kind (.time t)
  | message {ref : Schema.TypeRef} {slots : List Slot} :
      SlotsFormed s (s.members ref.qualifiedName) slots → Formed s (.message ref) (.message slots)

/-- The slot is laid out as the member says. The keys of a map are distinct. -/
inductive SlotFormed (s : Schema) : Member → Slot → Prop
  | plain {p : FieldPlan} {v : Value} :
      p.layout = .plain → Formed s p.kind v → SlotFormed s (.field p) (.plain v)
  | absent {p : FieldPlan} : p.layout = .optional → SlotFormed s (.field p) (.optional none)
  | present {p : FieldPlan} {v : Value} :
      p.layout = .optional → Formed s p.kind v → SlotFormed s (.field p) (.optional (some v))
  | repeated {p : FieldPlan} {vs : List Value} :
      p.layout = .repeated → (∀ v ∈ vs, Formed s p.kind v) → SlotFormed s (.field p) (.repeated vs)
  | map {p key value : FieldPlan} {entry : Schema.TypeRef} {entries : List (Primitive × Value)} :
      p.layout = .map entry key value → (∀ e ∈ entries, Formed s value.kind e.2) →
      (entries.map Prod.fst).Nodup → SlotFormed s (.field p) (.map entries)
  | unset (u : UnionPlan) : SlotFormed s (.union u) (.union none)
  | chosen {u : UnionPlan} {number : Nat} {kind : ValueKind} {v : Value} :
      (Member.union u).kind? number = some kind → Formed s kind v →
      SlotFormed s (.union u) (.union (some (number, v)))

inductive SlotsFormed (s : Schema) : List Member → List Slot → Prop
  | nil : SlotsFormed s [] []
  | cons {m : Member} {slot : Slot} {members : List Member} {slots : List Slot} :
      SlotFormed s m slot → SlotsFormed s members slots →
      SlotsFormed s (m :: members) (slot :: slots)

end

mutual

inductive Value.Lifts : Value → Partial → Prop
  | scalar (p : Primitive) : Value.Lifts (.scalar p) (.scalar p)
  | choice (c : Choice) : Value.Lifts (.choice c) (.choice c)
  | time (t : Time.Instant) : Value.Lifts (.time t) (.time t)
  | message {slots : List Slot} {fields : List PartialField} : SlotsLift slots fields →
      Value.Lifts (.message slots) (.message fields)

/-- All of the slot is given. Where it has no value nothing is given, or an empty collection. -/
inductive Slot.Lifts : Slot → PartialField → Prop
  | plain {v : Value} {given : Partial} : v.Lifts given → Slot.Lifts (.plain v) (.value given)
  | absent : Slot.Lifts (.optional none) .missing
  | present {v : Value} {given : Partial} : v.Lifts given →
      Slot.Lifts (.optional (some v)) (.value given)
  | noValues : Slot.Lifts (.repeated []) .missing
  | values {vs : List Value} {given : List Partial} : ValuesLift vs given →
      Slot.Lifts (.repeated vs) (.values given)
  | noEntries : Slot.Lifts (.map []) .missing
  | entries {entries : List (Primitive × Value)} {given : List (Primitive × Option Partial)} :
      EntriesLift entries given → Slot.Lifts (.map entries) (.entries given)
  | unset : Slot.Lifts (.union none) .missing
  | chosen (number : Nat) {v : Value} {given : Partial} : v.Lifts given →
      Slot.Lifts (.union (some (number, v))) (.member number given)

inductive SlotsLift : List Slot → List PartialField → Prop
  | nil : SlotsLift [] []
  | cons {slot : Slot} {field : PartialField} {slots : List Slot} {fields : List PartialField} :
      slot.Lifts field → SlotsLift slots fields → SlotsLift (slot :: slots) (field :: fields)

inductive ValuesLift : List Value → List Partial → Prop
  | nil : ValuesLift [] []
  | cons {v : Value} {given : Partial} {vs : List Value} {more : List Partial} : v.Lifts given →
      ValuesLift vs more → ValuesLift (v :: vs) (given :: more)

/-- All of the entries is given, under their keys. -/
inductive EntriesLift : List (Primitive × Value) → List (Primitive × Option Partial) → Prop
  | nil : EntriesLift [] []
  | cons (key : Primitive) {v : Value} {given : Partial} {entries : List (Primitive × Value)}
      {more : List (Primitive × Option Partial)} : v.Lifts given → EntriesLift entries more →
      EntriesLift ((key, v) :: entries) ((key, some given) :: more)

end

mutual

def Value.lift : Value → Partial
  | .scalar p => .scalar p
  | .choice c => .choice c
  | .time t => .time t
  | .message slots => .message (liftSlots slots)

def Slot.lift : Slot → PartialField
  | .plain v => .value v.lift
  | .optional none => .missing
  | .optional (some v) => .value v.lift
  | .repeated vs => .values (liftValues vs)
  | .map entries => .entries (liftEntries entries)
  | .union none => .missing
  | .union (some (number, v)) => .member number v.lift

def liftSlots : List Slot → List PartialField
  | [] => []
  | slot :: slots => slot.lift :: liftSlots slots

def liftValues : List Value → List Partial
  | [] => []
  | v :: vs => v.lift :: liftValues vs

def liftEntries : List (Primitive × Value) → List (Primitive × Option Partial)
  | [] => []
  | (key, v) :: entries => (key, some v.lift) :: liftEntries entries

end

mutual

theorem Value.lifts_lift (v : Value) : v.Lifts v.lift := by
  cases v with
  | scalar p => exact .scalar p
  | choice c => exact .choice c
  | time t => exact .time t
  | message slots => exact .message (slotsLift_liftSlots slots)

theorem Slot.lifts_lift (slot : Slot) : slot.Lifts slot.lift := by
  cases slot with
  | plain v => exact .plain v.lifts_lift
  | optional v =>
    cases v with
    | none => exact .absent
    | some v => exact .present v.lifts_lift
  | repeated vs => exact .values (valuesLift_liftValues vs)
  | map entries => exact .entries (entriesLift_liftEntries entries)
  | union v =>
    cases v with
    | none => exact .unset
    | some v =>
      obtain ⟨number, v⟩ := v
      exact .chosen number v.lifts_lift

theorem slotsLift_liftSlots (slots : List Slot) : SlotsLift slots (liftSlots slots) := by
  cases slots with
  | nil => exact .nil
  | cons slot slots => exact .cons slot.lifts_lift (slotsLift_liftSlots slots)

theorem valuesLift_liftValues (vs : List Value) : ValuesLift vs (liftValues vs) := by
  cases vs with
  | nil => exact .nil
  | cons v vs => exact .cons v.lifts_lift (valuesLift_liftValues vs)

theorem entriesLift_liftEntries (entries : List (Primitive × Value)) :
    EntriesLift entries (liftEntries entries) := by
  cases entries with
  | nil => exact .nil
  | cons e entries =>
    obtain ⟨key, v⟩ := e
    exact .cons key v.lifts_lift (entriesLift_liftEntries entries)

end

namespace Schema

variable {s : Schema}

/-! ## What completing does -/

/-- A partial value is converted: messages are completed, and all else stays as it is. -/
inductive Converts (s : Schema) : ValueKind → Partial → Value → Prop
  | scalar (kind : ValueKind) (p : Primitive) : Converts s kind (.scalar p) (.scalar p)
  | choice (kind : ValueKind) (c : Choice) : Converts s kind (.choice c) (.choice c)
  | time (kind : ValueKind) (t : Time.Instant) : Converts s kind (.time t) (.time t)
  | message (ref : Schema.TypeRef) (fields : List PartialField) :
      Converts s (.message ref) (.message fields) (.message (s.complete ref.qualifiedName fields))

def given (es : List (Primitive × Option Partial)) : List (Primitive × Partial) :=
  es.filterMap fun e => e.2.map (e.1, ·)

inductive Makes (s : Schema) : Member → PartialField → Slot → Prop
  | missing (m : Member) : Makes s m .missing (s.zeroSlot m)
  | plain {p : FieldPlan} {v : Partial} {x : Value} : p.layout = .plain →
      Converts s p.kind v x → Makes s (.field p) (.value v) (.plain x)
  | optional {p : FieldPlan} {v : Partial} {x : Value} : p.layout = .optional →
      Converts s p.kind v x → Makes s (.field p) (.value v) (.optional (some x))
  | repeated {p : FieldPlan} {vs : List Partial} {xs : List Value} : p.layout = .repeated →
      List.Forall₂ (Converts s p.kind) vs xs → Makes s (.field p) (.values vs) (.repeated xs)
  | map {p key value : FieldPlan} {entry : Schema.TypeRef}
      {es : List (Primitive × Option Partial)} {entries : List (Primitive × Value)} :
      p.layout = .map entry key value → (es.map Prod.fst).Nodup →
      List.Forall₂ (fun e e' => e'.1 = e.1 ∧ Converts s value.kind e.2 e'.2) (given es) entries →
      Makes s (.field p) (.entries es) (.map entries)
  | union {u : UnionPlan} {number : Nat} {kind : ValueKind} {v : Partial} {x : Value} :
      (Member.union u).kind? number = some kind → Converts s kind v x →
      Makes s (.union u) (.member number v) (.union (some (number, x)))

variable (members : List Member) (fields : List PartialField)

/-- A member holds what is given for it, and nothing else plays a part. -/
lemma getElem?_completeFields (i : Nat) :
    (s.completeFields members fields)[i]? =
      members[i]?.map fun m => s.completeField m (fields[i]?.getD .missing) := by
  induction members generalizing fields i with
  | nil => simp [completeFields]
  | cons m members ih =>
    cases fields with
    | nil =>
      change ((m :: members).map s.zeroSlot)[i]? = _
      rw [getElem?_map, getElem?_nil]
      rfl
    | cons field fields =>
      rw [completeFields]
      cases i with
      | zero => rfl
      | succ i => simpa using ih fields i

lemma length_completeFields : (s.completeFields members fields).length = members.length := by
  induction members generalizing fields with
  | nil => simp [completeFields]
  | cons m members ih =>
    cases fields with
    | nil => simp [completeFields]
    | cons field fields => rw [completeFields, length_cons, ih, length_cons]

lemma completeValues_eq_map (kind : ValueKind) (vs : List Partial) :
    s.completeValues kind vs = vs.map (s.completeValue kind) := by
  induction vs with
  | nil => rfl
  | cons v vs ih => rw [completeValues, ih, map_cons]

lemma completeEntries_eq_append (kind : ValueKind) {es : List (Primitive × Option Partial)}
    {done : List (Primitive × Value)} (h : (done.map Prod.fst ++ es.map Prod.fst).Nodup) :
    s.completeEntries kind es done =
      done ++ (given es).map fun e => (e.1, s.completeValue kind e.2) := by
  induction es generalizing done with
  | nil => simp [completeEntries, given]
  | cons e es ih =>
    obtain ⟨key, v⟩ := e
    rw [map_cons] at h
    cases v with
    | none =>
      rw [completeEntries, ih (h.sublist ((sublist_cons_self ..).append_left _))]
      rfl
    | some v =>
      have hnew : key ∉ done.map Prod.fst := by
        rw [nodup_append] at h
        intro hmem
        exact h.2.2 key hmem key (by simp) rfl
      rw [completeEntries, putEntry_of_not_mem hnew, ih (by simpa using h)]
      simp [given]

lemma Converts.completeValue_eq {kind : ValueKind} {v : Partial} {x : Value}
    (h : s.Converts kind v x) : s.completeValue kind v = x := by
  cases h <;> rfl

/-- Completing makes of what is given for a member what it is meant to make. -/
lemma Makes.completeField_eq {m : Member} {field : PartialField} {slot : Slot}
    (h : s.Makes m field slot) : s.completeField m field = slot := by
  cases h with
  | missing => rfl
  | plain hlayout hv | optional hlayout hv =>
    simp only [completeField, hlayout, hv.completeValue_eq]
  | @repeated p vs xs hlayout hvs =>
    have hmap : vs.map (s.completeValue p.kind) = xs := by
      induction hvs with
      | nil => rfl
      | cons hv _ ih => rw [map_cons, hv.completeValue_eq, ih]
    rw [completeField, completeValues_eq_map, hmap]
  | @map p key value entry es entries hlayout hnodup hes =>
    have hmap : ((given es).map fun e => (e.1, s.completeValue value.kind e.2)) = entries := by
      generalize given es = kept at hes
      induction hes with
      | nil => rfl
      | cons he _ ih => rw [map_cons, ih, he.2.completeValue_eq, ← he.1]
    have hentries : s.completeEntries value.kind es [] = [] ++ entries := by
      rw [completeEntries_eq_append value.kind (by simpa using hnodup), hmap]
    simp only [completeField, hlayout, hentries, nil_append]
  | union hkind hv => simp only [completeField, hkind, hv.completeValue_eq]

end Schema

/-! ## Messages given in full -/

open Protobuf.Codec.Schema

variable {s : Schema}

lemma EntriesLift.keys_eq {entries : List (Primitive × Value)}
    {es : List (Primitive × Option Partial)} (h : EntriesLift entries es) :
    es.map Prod.fst = entries.map Prod.fst := by
  induction entries generalizing es with
  | nil =>
    cases h
    rfl
  | cons e entries ih =>
    cases h with
    | cons key _ hrest => rw [map_cons, map_cons, ih hrest]

mutual

theorem Value.Lifts.completeValue_eq {kind : ValueKind} {v : Value} {p : Partial} (h : v.Lifts p)
    (hv : Formed s kind v) : s.completeValue kind p = v := by
  cases h with
  | scalar p | choice c | time t => rfl
  | message hslots =>
    cases hv with
    | message hformed => rw [completeValue, hslots.completeFields_eq hformed]

theorem Slot.Lifts.completeField_eq {m : Member} {slot : Slot} {field : PartialField}
    (h : slot.Lifts field) (hslot : SlotFormed s m slot) : s.completeField m field = slot := by
  cases h with
  | plain h =>
    cases hslot with
    | plain hlayout hv => simp only [completeField, hlayout, h.completeValue_eq hv]
  | absent =>
    cases hslot with
    | absent hlayout => simp only [completeField, zeroSlot, hlayout]
  | present h =>
    cases hslot with
    | present hlayout hv => simp only [completeField, hlayout, h.completeValue_eq hv]
  | noValues =>
    cases hslot with
    | repeated hlayout _ => simp only [completeField, zeroSlot, hlayout]
  | values h =>
    cases hslot with
    | repeated hlayout hvs => rw [completeField, h.completeValues_eq hvs]
  | noEntries =>
    cases hslot with
    | map hlayout _ _ => simp only [completeField, zeroSlot, hlayout]
  | entries h =>
    cases hslot with
    | map hlayout hvalues hnodup =>
      have hkeys := h.keys_eq
      simp only [completeField, hlayout]
      rw [completeEntries_eq_append _ (by simpa [hkeys] using hnodup), nil_append,
        h.given_eq hvalues]
  | unset =>
    cases hslot with
    | unset u => rfl
  | chosen number h =>
    cases hslot with
    | chosen hkind hv => simp only [completeField, hkind, h.completeValue_eq hv]

theorem SlotsLift.completeFields_eq {members : List Member} {slots : List Slot}
    {fields : List PartialField} (h : SlotsLift slots fields)
    (hslots : SlotsFormed s members slots) : s.completeFields members fields = slots := by
  cases h with
  | nil =>
    cases hslots
    rfl
  | cons h hrest =>
    cases hslots with
    | cons hslot hslots =>
      rw [completeFields, h.completeField_eq hslot, hrest.completeFields_eq hslots]

theorem ValuesLift.completeValues_eq {kind : ValueKind} {vs : List Value} {ps : List Partial}
    (h : ValuesLift vs ps) (hvs : ∀ v ∈ vs, Formed s kind v) : s.completeValues kind ps = vs := by
  cases h with
  | nil => rfl
  | cons h hrest =>
    rw [forall_mem_cons] at hvs
    rw [completeValues, h.completeValue_eq hvs.1, hrest.completeValues_eq hvs.2]

theorem EntriesLift.given_eq {kind : ValueKind} {entries : List (Primitive × Value)}
    {es : List (Primitive × Option Partial)} (h : EntriesLift entries es)
    (hvalues : ∀ e ∈ entries, Formed s kind e.2) :
    ((given es).map fun e => (e.1, s.completeValue kind e.2)) = entries := by
  cases h with
  | nil => rfl
  | cons key h hrest =>
    rw [forall_mem_cons] at hvalues
    have hgiven := hrest.given_eq hvalues.2
    simp only [given, filterMap_cons, Option.map_some, map_cons,
      h.completeValue_eq hvalues.1] at hgiven ⊢
    rw [hgiven]

end

/-- A message that is given in full is completed to itself, and every message can be given in full.
Each member of a completed message depends on what is given for it alone: it is as in the message
in which nothing was set if nothing is given, and otherwise what the given makes. -/
theorem complete_lift (s : Schema) (name : String) :
    (∀ m : Message, SlotsFormed s (s.members name) m →
      (∃ p, SlotsLift m p) ∧ ∀ p, SlotsLift m p → s.complete name p = m) ∧
    ∀ p : List PartialField, (s.complete name p).length = (s.members name).length ∧
      ∀ (i : Nat) (m : Member), (s.members name)[i]? = some m →
        (∀ p' : List PartialField, p'[i]? = p[i]? →
          (s.complete name p')[i]? = (s.complete name p)[i]?) ∧
        ∀ slot, s.Makes m (p[i]?.getD .missing) slot → (s.complete name p)[i]? = some slot := by
  refine ⟨fun m hm => ⟨⟨liftSlots m, slotsLift_liftSlots m⟩, fun p h => h.completeFields_eq hm⟩,
    fun p => ⟨length_completeFields _ p, fun i m hi => ⟨fun p' hp => ?_, fun slot h => ?_⟩⟩⟩
  · rw [complete, complete, getElem?_completeFields, getElem?_completeFields, hp]
  · rw [complete, getElem?_completeFields, hi, Option.map_some, h.completeField_eq]

private def folderPart (name : String) (number : Nat) (kind : ValueKind)
    (layout : Layout FieldPlan) : FieldPlan :=
  ⟨⟨name, number, .scalar .string, .optional, none, none, false, []⟩, ⟨false, name⟩, name, kind,
    layout, false, false⟩

private def folderRef : Schema.TypeRef :=
  ⟨[], "disk", "Folder", ".disk.Folder"⟩

/-- A folder holds folders by their names. -/
private def folderPlan : FieldPlan :=
  folderPart "folders" 1 (.message folderRef) <|
    .map ⟨[], "disk", "Folder_FoldersEntry", ".disk.Folder.FoldersEntry"⟩
      (folderPart "key" 1 (.scalar .string) .plain)
      (folderPart "value" 2 (.message folderRef) .plain)

private def folderSchema : Schema :=
  ⟨.standard, fun _ => [.field folderPlan]⟩

private def folderInFolder : Message :=
  [.map [(.string "in", .message [.map []])]]

/-- Whether its empty folder is given as an empty collection or not at all, a folder is completed to
itself; a name without a folder is dropped. -/
theorem complete_lift_folder :
    SlotsFormed folderSchema (folderSchema.members ".disk.Folder") folderInFolder ∧
    SlotsLift folderInFolder [.entries [(.string "in", some (.message [.missing]))]] ∧
    folderSchema.complete ".disk.Folder" [.entries [(.string "in", some (.message [.missing]))]] =
      folderInFolder ∧
    (folderSchema.complete ".disk.Folder"
      [.entries [(.string "out", none), (.string "in", some (.message []))]])[0]? =
      some (.map [(.string "in", .message [.map []])]) := by
  have hempty : Formed folderSchema (.message folderRef) (.message [.map []]) :=
    .message (.cons (.map rfl (by simp) (by simp)) .nil)
  have hformed : SlotsFormed folderSchema (folderSchema.members ".disk.Folder") folderInFolder :=
    .cons (.map rfl (List.forall_mem_singleton.mpr hempty) (by simp)) .nil
  have hlift : SlotsLift folderInFolder
      [.entries [(.string "in", some (.message [.missing]))]] :=
    .cons (.entries (.cons _ (.message (.cons .noEntries .nil)) .nil)) .nil
  have hmakes : folderSchema.Makes (.field folderPlan)
      (.entries [(.string "out", none), (.string "in", some (.message []))])
      (.map [(.string "in", .message [.map []])]) :=
    .map rfl (by decide) (.cons ⟨rfl, .message folderRef []⟩ .nil)
  obtain ⟨hfull, hpart⟩ := complete_lift folderSchema ".disk.Folder"
  exact ⟨hformed, hlift, (hfull _ hformed).2 _ hlift, ((hpart _).2 0 _ rfl).2 _ hmakes⟩

end Protobuf.Codec
