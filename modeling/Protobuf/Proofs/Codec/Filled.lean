import Protobuf.Proofs.Codec.Decoded
import Protobuf.Proofs.Codec.Superseded

/-!
# How deeply a decoded message is nested

The decoder stops at a limit, so what it makes is nested no deeper than that, with one
exception. Where the entry of a map lacks its value, one is filled in, and if this is
a message or a timestamp then it is one level below the entry. Decoded messages that
are nested too deeply are those with such an entry at the last level.
-/

open Nat

namespace Protobuf.Codec

open Plan Wire List

variable {s : Schema} {levels : Nat} {kind : ValueKind} {v : Value} {slot : Slot}

/-- What is filled in for a missing value could have been read, unless it is a number held as
text. -/
lemma made_missingValue (hplan : s.AllWellPlanned) (kind : ValueKind) :
    Made s 1 kind (s.missingValue kind) ∨
      ∃ t width, kind = .scalar t ∧ s.textWidth? t = some width ∧
      s.missingValue kind = .scalar (.string "") := by
  cases kind with
  | scalar t =>
    cases ht : s.textWidth? t with
    | none =>
      refine .inl ?_
      have hholds : t.holds t.zero := by cases t <;> rfl
      have hvalue : s.missingValue (.scalar t) = .scalar (s.present t t.zero) := by
        rw [s.present_of_textWidth?_none ht]
        simp [Schema.missingValue, ht]
      rw [hvalue]
      exact .scalar hholds
    | some width => exact .inr ⟨t, width, rfl, ht, by simp [Schema.missingValue, ht]⟩
  | enum ref e => exact .inl (.choice e.has_unset)
  | wrapper k =>
    have hholds : k.scalar.holds k.scalar.zero := by cases k <;> rfl
    exact .inl (.wrapper hholds)
  | timestamp => exact .inl (.time _)
  | message ref => exact .inl (made_message.mpr (messageMade_zero hplan 0 _))

/-! ## Nesting -/

variable {n : Nat} {name : String} {m : Message}

lemma exists_of_lt_valuesNesting {vs : List Value} (h : n < valuesNesting vs) :
    ∃ v ∈ vs, n < v.nesting := by
  induction vs with
  | nil => cases h
  | cons v vs ih =>
    rw [valuesNesting, lt_max_iff] at h
    rcases h with h | h
    · exact ⟨v, by simp, h⟩
    · obtain ⟨u, hu, hn⟩ := ih h
      exact ⟨u, by simp [hu], hn⟩

lemma exists_of_lt_entriesNesting {entries : List (Primitive × Value)}
    (h : n < entriesNesting entries) : ∃ e ∈ entries, n < e.2.nesting + 1 := by
  induction entries with
  | nil => cases h
  | cons e entries ih =>
    rw [entriesNesting, lt_max_iff] at h
    rcases h with h | h
    · exact ⟨e, by simp, h⟩
    · obtain ⟨d, hd, hn⟩ := ih h
      exact ⟨d, by simp [hd], hn⟩

lemma exists_of_lt_slotsNesting {slots : List Slot} (h : n < slotsNesting slots) :
    ∃ slot ∈ slots, n < slot.nesting := by
  induction slots with
  | nil => cases h
  | cons slot slots ih =>
    rw [slotsNesting, lt_max_iff] at h
    rcases h with h | h
    · exact ⟨slot, by simp, h⟩
    · obtain ⟨d, hd, hn⟩ := ih h
      exact ⟨d, by simp [hd], hn⟩

/-- How many levels below a message the messages in a slot of it are. -/
def Slot.descent : Slot → Nat
  | .map _ => 2
  | _ => 1

/-- So many levels down in the message, an entry of a map has the value that is filled in for a
missing one, and this is a message or a timestamp. -/
inductive FilledAt (s : Schema) : (levels : Nat) → String → Message → Prop
  | here {name : String} {m : Message} {f : FieldPlan × Slot} {entries : List (Primitive × Value)}
      {k : Primitive} : f ∈ spread (s.members name) m → f.2 = .map entries →
      (k, s.missingValue f.1.place.valueKind) ∈ entries →
      0 < (s.missingValue f.1.place.valueKind).nesting → FilledAt s 1 name m
  | within {levels : Nat} {name : String} {m inner : Message} {f : FieldPlan × Slot}
      {ref : Schema.TypeRef} : f ∈ spread (s.members name) m →
      f.1.place.valueKind = .message ref → .message inner ∈ f.2.values →
      FilledAt s levels ref.qualifiedName inner → FilledAt s (levels + f.2.descent) name m

lemma nesting_add_descent_le (h : v ∈ slot.values) :
    v.nesting + slot.descent ≤ slot.nesting + 1 := by
  have hle := nesting_le_of_mem_values h
  cases slot with
  | map entries =>
    obtain ⟨e, he, rfl⟩ := mem_map.mp h
    have hlt := nesting_lt_entriesNesting he
    simp only [Slot.descent, Slot.nesting]
    omega
  | _ =>
    simp only [Slot.descent]
    omega

lemma exists_of_lt_nesting (h : n < slot.nesting) :
    ∃ v ∈ slot.values, n + 1 < v.nesting + slot.descent := by
  cases slot with
  | plain v => exact ⟨v, by simp [Slot.values], succ_lt_succ h⟩
  | optional v =>
    cases v with
    | none => cases h
    | some v => exact ⟨v, by simp [Slot.values], succ_lt_succ h⟩
  | repeated vs =>
    obtain ⟨v, hv, hn⟩ := exists_of_lt_valuesNesting h
    exact ⟨v, hv, succ_lt_succ hn⟩
  | map entries =>
    obtain ⟨e, he, hn⟩ := exists_of_lt_entriesNesting h
    exact ⟨e.2, mem_map_of_mem he, succ_lt_succ hn⟩
  | union choice =>
    rcases choice with _ | ⟨number, v⟩
    · cases h
    · exact ⟨v, by simp [Slot.values], succ_lt_succ h⟩

lemma FilledAt.lt_nesting (h : FilledAt s levels name m) : levels < slotsNesting m := by
  induction h with
  | @here name m f entries k hf hslot he hpos =>
    have hle := nesting_le_of_mem_spread f hf
    have hlt : (s.missingValue f.1.place.valueKind).nesting < entriesNesting entries :=
      nesting_lt_entriesNesting he
    rw [hslot, Slot.nesting] at hle
    omega
  | @within levels name m inner f ref hf _ hinner _ ih =>
    have hle := nesting_le_of_mem_spread f hf
    have hadd := nesting_add_descent_le hinner
    rw [Value.nesting] at hadd
    omega

/-- The value is a message in which an entry is filled in, so many levels down from where the value
is. -/
inductive HoldsFilled (s : Schema) : (levels : Nat) → ValueKind → Value → Prop
  | message {levels : Nat} {ref : Schema.TypeRef} {m : Message} :
      FilledAt s levels ref.qualifiedName m → HoldsFilled s (levels + 1) (.message ref) (.message m)

lemma HoldsFilled.filledAt {f : FieldPlan × Slot} (h : HoldsFilled s levels kind v)
    (hf : f ∈ spread (s.members name) m) (hkind : f.1.place.valueKind = kind) (hv : v ∈ f.2.values)
    (hn : n + 1 = levels + f.2.descent) : FilledAt s n name m := by
  cases h with
  | @message levels ref inner h =>
    obtain rfl : n = levels + f.2.descent := by omega
    exact .within hf hkind hv h

lemma FilledAt.pos (h : FilledAt s levels name m) : 0 < levels := by
  cases h with
  | here _ _ _ _ => exact zero_lt_one
  | @within levels _ _ _ f _ _ _ _ _ =>
    have hpos : 0 < f.2.descent := by cases f.2 <;> simp [Slot.descent]
    omega

/-- The chosen member of a union is one of its fields. -/
lemma exists_chosen_spreadUnion {variants : List VariantPlan} {number : Nat}
    (h : (variants.find? fun v => v.field.number == number).map VariantPlan.kind = some kind)
    (v : Value) : ∃ f ∈ spreadUnion variants (some (number, v)),
      f.1.place.valueKind = kind ∧ f.2 = .optional (some v) := by
  induction variants with
  | nil => cases h
  | cons variant variants ih =>
    unfold spreadUnion
    by_cases hnumber : variant.field.number = number
    · rw [find?_cons_of_pos (by simpa using hnumber)] at h
      rw [if_pos hnumber]
      exact ⟨_, mem_cons_self .., Option.some.inj h, rfl⟩
    · rw [find?_cons_of_neg (by simpa using hnumber)] at h
      rw [if_neg hnumber]
      obtain ⟨f, hf, hrest⟩ := ih h
      exact ⟨f, mem_cons_of_mem _ hf, hrest⟩

lemma valueKind_of_not_map {p : FieldPlan}
    (h : ∀ entry key value, p.layout ≠ .map entry key value) :
    p.place.valueKind = p.kind := by
  cases hlayout : p.layout with
  | map entry key value => exact absurd hlayout (h entry key value)
  | plain | optional | repeated => simp [Place.valueKind, FieldPlan.place, hlayout, Layout.shape]

mutual

theorem Made.nesting {levels : Nat} {kind : ValueKind} {v : Value} (h : Made s levels kind v)
    (hplan : s.AllWellPlanned) :
    v.nesting ≤ levels + 1 ∧ (levels < v.nesting → HoldsFilled s levels kind v) := by
  cases h with
  | scalar _ | choice _ | wrapper _ | time t => simp [Value.nesting]
  | @message levels ref m hlength hslots =>
    have hslot : ∀ slot ∈ m, slot.nesting ≤ levels + 1 ∧
        (levels < slot.nesting → FilledAt s levels ref.qualifiedName m) := by
      intro slot hmem
      rw [← map_snd_zip hlength.ge] at hmem
      obtain ⟨⟨member, _⟩, hx, rfl⟩ := mem_map.mp hmem
      exact (hslots _ hx).nesting hplan hx
    rw [Value.nesting]
    constructor
    · by_contra hlt
      have hdeep : levels + 1 < slotsNesting m := by omega
      obtain ⟨slot, hmem, hn⟩ := exists_of_lt_slotsNesting hdeep
      exact absurd (hslot slot hmem).1 (by omega)
    · intro hlt
      obtain ⟨slot, hmem, hn⟩ := exists_of_lt_slotsNesting (lt_of_succ_lt_succ hlt)
      exact .message ((hslot slot hmem).2 hn)
termination_by 3 * levels - 1

theorem EntryMade.nesting {levels : Nat} {key value : FieldPlan} {e : Primitive × Value}
    (h : EntryMade s levels key value e) (hplan : s.AllWellPlanned) :
    e.2.nesting ≤ levels + 1 ∧ (levels < e.2.nesting →
      (levels = 0 ∧ e.2 = s.missingValue value.kind) ∨ HoldsFilled s levels value.kind e.2) := by
  cases h with
  | value _ _ hv => exact (hv.nesting hplan).imp_right fun h hlt => .inr (h hlt)
  | missing _ _ _ =>
    -- A message in which nothing was set has no messages in it.
    have hle : (s.missingValue value.kind).nesting ≤ 1 := by
      rcases made_missingValue hplan value.kind with h | ⟨t, width, -, -, hvalue⟩
      · by_contra hlt
        have hfilled := (h.nesting hplan).2 (by omega)
        generalize s.missingValue value.kind = v at hfilled
        generalize value.kind = kind at hfilled
        cases hfilled with
        | message h => exact absurd h.pos (by omega)
      · rw [hvalue, Value.nesting]
        omega
    refine ⟨hle.trans (le_add_left 1 levels), fun hlt => .inl ⟨?_, rfl⟩⟩
    exact lt_one_iff.mp (hlt.trans_le hle)
termination_by 3 * levels + 3

theorem SlotMade.nesting {levels : Nat} {name : String} {m : Message} {member : Member}
    {slot : Slot} (h : SlotMade s levels member slot) (hplan : s.AllWellPlanned)
    (hx : (member, slot) ∈ (s.members name).zip m) :
    slot.nesting ≤ levels + 1 ∧ (levels < slot.nesting → FilledAt s levels name m) := by
  have hsingle {f : FieldPlan × Slot} {kind : ValueKind} {v : Value}
      (hf : f ∈ spread (s.members name) m) (hkind : f.1.place.valueKind = kind)
      (hmem : v ∈ f.2.values) (hone : f.2.descent = 1) (hv : Made s levels kind v) :
      v.nesting + 1 ≤ levels + 2 ∧ (levels + 1 < v.nesting + 1 → FilledAt s levels name m) := by
    obtain ⟨hle, hfilled⟩ := hv.nesting hplan
    refine ⟨succ_le_succ hle, fun hlt => ?_⟩
    exact (hfilled (lt_of_succ_lt_succ hlt)).filledAt hf hkind hmem (by omega)
  have hvalues : ∀ v ∈ slot.values, v.nesting + slot.descent ≤ levels + 2 ∧
      (levels + 1 < v.nesting + slot.descent → FilledAt s levels name m) := by
    cases h with
    | plain hlayout hv =>
      intro u hu
      rw [mem_singleton.mp hu]
      exact hsingle (mem_spread_of_mem_zip hx (mem_singleton_self _))
        (valueKind_of_not_map (by simp [hlayout])) (by simp [Slot.values]) rfl hv
    | absent _ => simp [Slot.values]
    | present hlayout hv =>
      intro u hu
      rw [mem_singleton.mp hu]
      exact hsingle (mem_spread_of_mem_zip hx (mem_singleton_self _))
        (valueKind_of_not_map (by simp [hlayout])) (by simp [Slot.values]) rfl hv
    | repeated hlayout hvs =>
      intro v hv
      exact hsingle (mem_spread_of_mem_zip hx (mem_singleton_self _))
        (valueKind_of_not_map (by simp [hlayout])) hv rfl (hvs v hv)
    | empty _ => simp [Slot.values]
    | @map levels p key value entry entries hlayout hes hnodup =>
      have hf := mem_spread_of_mem_zip hx (mem_singleton_self _)
      have hkind : p.place.valueKind = value.kind := by
        simp [Place.valueKind, FieldPlan.place, hlayout, Layout.shape]
      intro v hv
      obtain ⟨⟨k, w⟩, he, hw⟩ := mem_map.mp hv
      obtain rfl : w = v := hw
      obtain ⟨hle, hfilled⟩ := (hes _ he).nesting hplan
      refine ⟨Nat.add_le_add_right hle 2, fun hlt => ?_⟩
      have hdeep : levels < w.nesting := lt_of_add_lt_add_right hlt
      rcases hfilled hdeep with ⟨rfl, hmissing⟩ | hfilled
      · obtain rfl : w = s.missingValue p.place.valueKind := by rw [hkind, ← hmissing]
        exact .here hf rfl he hdeep
      · exact hfilled.filledAt hf hkind hv rfl
    | unset u => simp [Slot.values]
    | @chosen levels u number kind v hkind hv =>
      intro w hw
      rw [mem_singleton.mp hw]
      obtain ⟨f, hf, hvalueKind, hslot⟩ := exists_chosen_spreadUnion hkind v
      exact hsingle (mem_spread_of_mem_zip hx hf) hvalueKind (by simp [hslot, Slot.values])
        (by simp [hslot, Slot.descent]) hv
  constructor
  · by_contra hlt
    obtain ⟨v, hv, hn⟩ := exists_of_lt_nesting (Nat.lt_of_not_le hlt)
    exact absurd (hvalues v hv).1 (by omega)
  · intro hlt
    obtain ⟨v, hv, hn⟩ := exists_of_lt_nesting hlt
    exact (hvalues v hv).2 hn
termination_by 3 * levels + 1

end

lemma MessageMade.lt_nesting_iff (h : MessageMade s levels name m) (hplan : s.AllWellPlanned) :
    levels < slotsNesting m ↔ FilledAt s levels name m := by
  refine ⟨fun hlt => ?_, FilledAt.lt_nesting⟩
  obtain ⟨hlength, hslots⟩ := forall₂_iff_zip.mp h
  obtain ⟨slot, hmem, hn⟩ := exists_of_lt_slotsNesting hlt
  rw [← map_snd_zip hlength.ge] at hmem
  obtain ⟨⟨member, _⟩, hx, rfl⟩ := mem_map.mp hmem
  exact ((hslots hx).nesting hplan hx).2 hn

end Protobuf.Codec
