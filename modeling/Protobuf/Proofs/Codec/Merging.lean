import Protobuf.Proofs.Codec.Presentation
import Protobuf.Proofs.Codec.UnknownFields

/-!
# Merging messages

Records that are read into a message which holds something already are merged into
it: a value that is set replaces the one before it, also if it is a message, many
values are put after those that were there, and the entries of a map replace the
entries with the same keys. Merging is associative, and the message in which nothing
was set changes nothing on either side.
-/

lemma Protobuf.Primitive.isZero_positive (p : Primitive) : p.positive.isZero = p.isZero := by
  cases p with
  | double x =>
    by_cases h : x.isZero
    · simp only [positive, isZero, h, if_true]
      rfl
    · simp only [positive, isZero, h, Bool.false_eq_true, if_false]
  | float x =>
    by_cases h : x.isZero
    · simp only [positive, isZero, h, if_true]
      rfl
    · simp only [positive, isZero, h, Bool.false_eq_true, if_false]
  | _ => rfl

namespace Protobuf.Codec

open Plan Wire List

/-! ## Entries -/

variable {entries more : List (Primitive × Value)} {k : Primitive}

lemma Schema.putEntry_of_not_mem {key : Primitive} {value : Value}
    (h : key ∉ entries.map Prod.fst) : putEntry key value entries = entries ++ [(key, value)] := by
  induction entries with
  | nil => rfl
  | cons e entries ih =>
    simp only [map_cons, mem_cons, not_or] at h
    rw [putEntry, if_neg (Ne.symm h.1), ih h.2]
    rfl

lemma mem_putEntry {v : Value} {e : Primitive × Value} (h : e ∈ putEntry k v entries) :
    e = (k, v) ∨ e ∈ entries := by
  induction entries with
  | nil => exact .inl (mem_singleton.mp h)
  | cons d entries ih =>
    unfold putEntry at h
    split_ifs at h
    · rcases mem_cons.mp h with rfl | h
      · exact .inl rfl
      · exact .inr (mem_cons_of_mem _ h)
    · rcases mem_cons.mp h with rfl | h
      · exact .inr (mem_cons_self ..)
      · exact (ih h).imp_right (mem_cons_of_mem _)

lemma mem_keys_putEntry {l : Primitive} {v : Value} :
    l ∈ (putEntry k v entries).map Prod.fst ↔ l = k ∨ l ∈ entries.map Prod.fst := by
  induction entries with
  | nil => simp [putEntry]
  | cons d entries ih =>
    unfold putEntry
    split_ifs with hkey
    · simp [← hkey]
    · rw [map_cons, mem_cons, ih, map_cons, mem_cons]
      tauto

lemma nodup_putEntry {v : Value} (h : (entries.map Prod.fst).Nodup) :
    ((putEntry k v entries).map Prod.fst).Nodup := by
  induction entries with
  | nil => simp [putEntry]
  | cons d entries ih =>
    rw [map_cons, nodup_cons] at h
    unfold putEntry
    split_ifs with hkey
    · rw [map_cons, nodup_cons, ← hkey]
      exact h
    · rw [map_cons, nodup_cons, mem_keys_putEntry]
      exact ⟨fun hmem => hmem.elim hkey h.1, ih h.2⟩

lemma putEntry_putEntry (k : Primitive) (v w : Value) (entries : List (Primitive × Value)) :
    putEntry k v (putEntry k w entries) = putEntry k v entries := by
  induction entries with
  | nil => simp [putEntry]
  | cons d entries ih =>
    by_cases hkey : d.1 = k
    · simp [putEntry, hkey]
    · simp [putEntry, hkey, ih]

/-- Entries with different keys can be put in either order, if one of them takes the place of an
entry that is there. -/
lemma putEntry_comm {l : Primitive} (v w : Value) (hne : k ≠ l)
    (hmem : k ∈ entries.map Prod.fst) :
    putEntry k v (putEntry l w entries) = putEntry l w (putEntry k v entries) := by
  induction entries with
  | nil => cases hmem
  | cons d entries ih =>
    by_cases hk : d.1 = k
    · simp [putEntry, hk, hne]
    · have hmem : k ∈ entries.map Prod.fst := by
        rcases mem_cons.mp hmem with h | h
        · exact absurd h.symm hk
        · exact h
      by_cases hl : d.1 = l
      · simp [putEntry, hl, Ne.symm hne]
      · simp [putEntry, hk, hl, ih hmem]

/-- Map entries after others were put in. -/
def putEntries (entries more : List (Primitive × Value)) : List (Primitive × Value) :=
  more.foldl (fun entries e => putEntry e.1 e.2 entries) entries

@[simp] lemma putEntries_nil (entries : List (Primitive × Value)) :
    putEntries entries [] = entries :=
  rfl

@[simp] lemma putEntries_cons (entries more : List (Primitive × Value)) (e : Primitive × Value) :
    putEntries entries (e :: more) = putEntries (putEntry e.1 e.2 entries) more :=
  rfl

lemma putEntries_of_nodup (h : ((entries ++ more).map Prod.fst).Nodup) :
    putEntries entries more = entries ++ more := by
  induction more generalizing entries with
  | nil => simp
  | cons e more ih =>
    have hnew : e.1 ∉ entries.map Prod.fst := by
      rw [map_append, nodup_append] at h
      intro hmem
      exact h.2.2 _ hmem _ (by simp) rfl
    rw [putEntries_cons, Schema.putEntry_of_not_mem hnew, ih (by simpa using h)]
    simp

/-- An entry that takes the place of one that is there can be put before entries with other keys or
after them. -/
lemma putEntry_putEntries (v : Value) (hmem : k ∈ entries.map Prod.fst)
    (hnew : k ∉ more.map Prod.fst) :
    putEntry k v (putEntries entries more) = putEntries (putEntry k v entries) more := by
  induction more generalizing entries with
  | nil => rfl
  | cons e more ih =>
    simp only [map_cons, mem_cons, not_or] at hnew
    have hstays := mem_keys_putEntry (k := e.1) (v := e.2) |>.mpr (.inr hmem)
    rw [putEntries_cons, putEntries_cons, ih hstays hnew.2, putEntry_comm v e.2 hnew.1 hmem]

lemma putEntries_putEntry (k : Primitive) (v : Value) (entries : List (Primitive × Value))
    (h : (more.map Prod.fst).Nodup) :
    putEntries entries (putEntry k v more) = putEntry k v (putEntries entries more) := by
  induction more generalizing entries with
  | nil => rfl
  | cons e more ih =>
    rw [map_cons, nodup_cons] at h
    by_cases hkey : e.1 = k
    · subst hkey
      have hput : putEntry e.1 v (e :: more) = (e.1, v) :: more := if_pos rfl
      rw [hput, putEntries_cons, putEntries_cons,
        putEntry_putEntries v (mem_keys_putEntry.mpr (.inl rfl)) h.1, putEntry_putEntry]
    · have hput : putEntry k v (e :: more) = e :: putEntry k v more := if_neg hkey
      rw [hput, putEntries_cons, putEntries_cons, ih _ h.2]

lemma putEntries_assoc (a : List (Primitive × Value)) {b : List (Primitive × Value)}
    (c : List (Primitive × Value)) (h : (b.map Prod.fst).Nodup) :
    putEntries (putEntries a b) c = putEntries a (putEntries b c) := by
  induction c generalizing b with
  | nil => rfl
  | cons e c ih =>
    rw [putEntries_cons, putEntries_cons, ← putEntries_putEntry e.1 e.2 a h,
      ih (nodup_putEntry h)]

/-! ## Messages -/

namespace Shaped

variable {p key value : FieldPlan} {entry : Schema.TypeRef} {slot : Slot}

lemma exists_values (h : Shaped (.field p) slot) (hlayout : p.layout = .repeated) :
    ∃ vs, slot = .repeated vs := by
  cases h with
  | repeated vs _ => exact ⟨vs, rfl⟩
  | _ =>
    rename_i hother
    rw [hlayout] at hother
    cases hother

lemma exists_entries (h : Shaped (.field p) slot) (hlayout : p.layout = .map entry key value) :
    ∃ entries, slot = .map entries := by
  cases h with
  | map entries _ => exact ⟨entries, rfl⟩
  | _ =>
    rename_i hother
    rw [hlayout] at hother
    cases hother

end Shaped

lemma SlotFits.shaped {s : Schema} {m : Member} {slot : Slot} (h : SlotFits s m slot) :
    Shaped m slot := by
  cases h with
  | plain hlayout _ => exact .plain _ hlayout
  | absent hlayout | present hlayout _ => exact .optional _ hlayout
  | repeated hlayout _ => exact .repeated _ hlayout
  | map hlayout _ _ _ _ => exact .map _ hlayout
  | unset u => exact .union u _
  | chosen _ _ => exact .union _ _

lemma SlotsFit.shaped {s : Schema} {members : List Member} {slots : List Slot}
    (h : SlotsFit s members slots) : List.Forall₂ Shaped members slots := by
  induction members generalizing slots with
  | nil =>
    cases h
    exact .nil
  | cons m members ih =>
    cases h with
    | cons hslot hslots => exact .cons hslot.shaped (ih hslots)

namespace Schema

lemma keys_normEntries {s : Schema} (t : Scalar) (kind : ValueKind)
    (entries : List (Primitive × Value)) :
    (s.normEntries (.scalar t) kind entries).map Prod.fst =
      entries.map fun e => s.normScalar t e.1 := by
  induction entries with
  | nil => rfl
  | cons e entries ih => rw [normEntries, map_cons, ih, map_cons]

/-- What a member holds after a second slot was merged into a first one. A plain value that is the
default, and a value that is not there, leave what was there before. -/
def mergeSlot (s : Schema) (m : Member) (slot : Slot) : Slot → Slot
  | .plain v =>
    match m with
    | .field p => if s.isUnset p.kind v then slot else .plain v
    | .union _ => .plain v
  | .optional none => slot
  | .optional (some v) => .optional (some v)
  | .repeated vs =>
    match slot with
    | .repeated us => .repeated (us ++ vs)
    | _ => .repeated vs
  | .map more =>
    match slot with
    | .map entries => .map (putEntries entries more)
    | _ => .map more
  | .union none => slot
  | .union (some choice) => .union (some choice)

/-- What members hold after slots were merged into others. -/
def mergeSlots (s : Schema) : List Member → List Slot → List Slot → List Slot
  | m :: members, slot₁ :: slots₁, slot₂ :: slots₂ =>
    s.mergeSlot m slot₁ slot₂ :: mergeSlots s members slots₁ slots₂
  | _, _, _ => []

/-- A message of the type with a qualified name after a second one was merged into it. -/
def merge (s : Schema) (name : String) (m₁ m₂ : Message) : Message :=
  s.mergeSlots (s.members name) m₁ m₂

variable {s : Schema} {m : Member}

/-! ## The laws of merging -/

lemma mergeSlot_of_isUnset {p : FieldPlan} {v : Value} (slot : Slot)
    (h : s.isUnset p.kind v) : s.mergeSlot (.field p) slot (.plain v) = slot :=
  if_pos h

lemma mergeSlot_of_not_isUnset {p : FieldPlan} {v : Value} (slot : Slot)
    (h : s.isUnset p.kind v = false) : s.mergeSlot (.field p) slot (.plain v) = .plain v :=
  if_neg (Bool.not_eq_true _ ▸ h)

lemma mergeSlot_assoc {slot₁ slot₂ slot₃ : Slot} (h₁ : Shaped m slot₁)
    (h₂ : SlotFits s m slot₂) (h₃ : SlotFits s m slot₃) :
    s.mergeSlot m (s.mergeSlot m slot₁ slot₂) slot₃ =
      s.mergeSlot m slot₁ (s.mergeSlot m slot₂ slot₃) := by
  cases h₃ with
  | @plain p v _ _ =>
    cases hunset : s.isUnset p.kind v with
    | true => rw [mergeSlot_of_isUnset _ hunset, mergeSlot_of_isUnset _ hunset]
    | false =>
      rw [mergeSlot_of_not_isUnset _ hunset, mergeSlot_of_not_isUnset _ hunset,
        mergeSlot_of_not_isUnset _ hunset]
  | absent _ | present _ _ => rfl
  | @repeated p vs hlayout _ =>
    obtain ⟨us, rfl⟩ := h₁.exists_values hlayout
    obtain ⟨ws, rfl⟩ := h₂.shaped.exists_values hlayout
    simp only [mergeSlot, append_assoc]
  | @map p key value entry t es hlayout _ _ _ _ =>
    obtain ⟨es₁, rfl⟩ := h₁.exists_entries hlayout
    obtain ⟨es₂, rfl⟩ := h₂.shaped.exists_entries hlayout
    cases h₂ with
    | map _ _ _ _ hnodup =>
      have hkeys : (es₂.map Prod.fst).Nodup := by
        rw [← Function.comp_def, ← map_map] at hnodup
        exact hnodup.of_map
      simp only [mergeSlot, putEntries_assoc es₁ es hkeys]
  | unset u | chosen _ _ => rfl

lemma isUnset_of_textWidth?_none {t : Scalar} (ht : s.textWidth? t = none) (p : Primitive) :
    s.isUnset (.scalar t) (.scalar p) = p.isZero := by
  simp only [isUnset, ht]

lemma isUnset_of_textWidth? {t : Scalar} {width : Numeric.Width}
    (ht : s.textWidth? t = some width) (text : String) :
    s.isUnset (.scalar t) (.scalar (.string text)) = (decimalValue width text == 0) := by
  simp only [isUnset, ht]

lemma isUnset_zeroSimple {kind : ValueKind}
    (h : (∃ t, kind = .scalar t) ∨ ∃ ref e, kind = .enum ref e) :
    s.isUnset kind (s.zeroSimple kind) := by
  rcases h with ⟨t, rfl⟩ | ⟨ref, e, rfl⟩
  · rw [zeroSimple]
    cases ht : s.textWidth? t with
    | none =>
      have hzero : s.zeroScalar t = t.zero := by simp [zeroScalar, ht]
      rw [hzero, isUnset_of_textWidth?_none ht]
      cases t <;> rfl
    | some width =>
      have hzero : s.zeroScalar t = .string (Text.intText 0) := by
        simp only [zeroScalar, ht, Option.isSome_some, if_true]
        rfl
      rw [hzero, isUnset_of_textWidth? ht, decimalValue_intText (by cases width <;> rfl)]
      rfl
  · exact beq_self_eq_true _

/-- A plain value that is set is set in the normal form, and no other one. -/
lemma isUnset_positive_normValue {kind : ValueKind} {v : Value} (hv : Fits s kind v) :
    s.isUnset kind (s.normValue kind v).positive = s.isUnset kind v := by
  cases hv with
  | @scalar t p hp =>
    rw [normValue, Value.positive]
    unfold holdsScalar at hp
    cases ht : s.textWidth? t with
    | none =>
      have hnorm : s.normScalar t p = p := by simp only [normScalar, ht]
      rw [hnorm, isUnset_of_textWidth?_none ht, isUnset_of_textWidth?_none ht, p.isZero_positive]
    | some width =>
      cases p with
      | string text =>
        have hnorm : s.normScalar t (.string text) =
            .string (Text.intText (decimalValue width text)) := by
          simp only [normScalar, ht]
        rw [hnorm, Primitive.positive, isUnset_of_textWidth? ht, isUnset_of_textWidth? ht,
          decimalValue_intText (holds_decimalValue width text)]
        all_goals simp
      | _ => simp only [ht, Bool.false_eq_true] at hp
  | choice _ | wrapper _ | time _ | message _ => rfl

lemma mergeSlot_zeroSlot_left {slot : Slot} (h : SlotFits s m slot) :
    s.mergeSlot m (s.zeroSlot m) (s.normSlot m slot) = s.normSlot m slot := by
  cases h with
  | @plain p v hlayout hv =>
    simp only [normSlot, zeroSlot, hlayout]
    cases hunset : s.isUnset p.kind v with
    | true =>
      rw [mergeSlot_of_isUnset _ (by rwa [isUnset_positive_normValue hv]),
        (positive_normValue_of_isUnset hv hunset).1]
    | false => exact mergeSlot_of_not_isUnset _ (by rwa [isUnset_positive_normValue hv])
  | @absent p hlayout => simp only [mergeSlot, normSlot, zeroSlot, hlayout]
  | present _ _ => rfl
  | @repeated p vs hlayout _ => simp only [mergeSlot, normSlot, zeroSlot, hlayout, nil_append]
  | @map p key value entry t es hlayout hkey _ _ hnodup =>
    simp only [mergeSlot, normSlot, zeroSlot, hlayout, hkey]
    have hkeys : ((s.normEntries (.scalar t) value.kind es).map Prod.fst).Nodup := by
      rwa [keys_normEntries]
    rw [putEntries_of_nodup hkeys, nil_append]
  | unset u => rfl
  | chosen hkind _ =>
    simp only [normSlot, hkind]
    rfl

lemma mergeSlot_zeroSlot_right {slot : Slot} (h : Shaped m slot)
    (hplain : ∀ p, m = .field p → p.layout = .plain →
      (∃ t, p.kind = .scalar t) ∨ ∃ ref e, p.kind = .enum ref e) :
    s.mergeSlot m slot (s.zeroSlot m) = slot := by
  cases h with
  | @plain p _ hlayout =>
    simp only [zeroSlot, hlayout]
    exact mergeSlot_of_isUnset _ (isUnset_zeroSimple (hplain p rfl hlayout))
  | optional _ hlayout => simp only [mergeSlot, zeroSlot, hlayout]
  | repeated vs hlayout => simp only [mergeSlot, zeroSlot, hlayout, append_nil]
  | map es hlayout => simp only [mergeSlot, zeroSlot, hlayout, putEntries_nil]
  | union u _ => rfl

variable {members : List Member}

lemma mergeSlots_assoc {slots₁ slots₂ slots₃ : List Slot}
    (h₁ : List.Forall₂ Shaped members slots₁) (h₂ : SlotsFit s members slots₂)
    (h₃ : SlotsFit s members slots₃) :
    s.mergeSlots members (s.mergeSlots members slots₁ slots₂) slots₃ =
      s.mergeSlots members slots₁ (s.mergeSlots members slots₂ slots₃) := by
  induction h₁ generalizing slots₂ slots₃ with
  | nil => rfl
  | cons hslot₁ _ ih =>
    cases h₂ with
    | cons hslot₂ hslots₂ =>
      cases h₃ with
      | cons hslot₃ hslots₃ =>
        simp only [mergeSlots, mergeSlot_assoc hslot₁ hslot₂ hslot₃, ih hslots₂ hslots₃]

lemma mergeSlots_zero_left {slots : List Slot} (h : SlotsFit s members slots) :
    s.mergeSlots members (members.map s.zeroSlot) (s.normSlots members slots) =
      s.normSlots members slots := by
  induction members generalizing slots with
  | nil =>
    cases h
    rfl
  | cons m members ih =>
    cases h with
    | cons hslot hslots =>
      simp only [map_cons, normSlots, mergeSlots, mergeSlot_zeroSlot_left hslot, ih hslots]

lemma mergeSlots_zero_right {slots : List Slot}
    (h : List.Forall₂ Shaped members slots)
    (hplain : ∀ p, .field p ∈ members → p.layout = .plain →
      (∃ t, p.kind = .scalar t) ∨ ∃ ref e, p.kind = .enum ref e) :
    s.mergeSlots members slots (members.map s.zeroSlot) = slots := by
  induction h with
  | nil => rfl
  | cons hslot _ ih =>
    rw [map_cons, mergeSlots, ih fun p hp => hplain p (by simp [hp]),
      mergeSlot_zeroSlot_right hslot fun p hp => hplain p (by simp [hp])]

end Schema

end Protobuf.Codec
