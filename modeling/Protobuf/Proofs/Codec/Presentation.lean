import Protobuf.Proofs.Codec.NormalForm
import Protobuf.Proofs.Plan.Places

/-!
# Messages under different options

Options decide how a message is held: 64-bit numbers as numbers or as numerals, a
oneof as one union or as siblings of which one is set. `MessageCorresponds` says
when two messages, each held under its own options, stand for one another. It
compares them field by field, in any order. Such messages have the same wire form,
since numerals are read as their numbers and a union stands where its first member
does.
-/

open List Protobuf.Codec.Schema

namespace Protobuf.Wire

lemma decimalValue_intText {width : Numeric.Width} {n : Int} (hn : width.holds n) :
    decimalValue width (Text.intText n) = n := by
  have hparse := Numeric.Width.parse?_intChars hn
  have hnonempty : (Text.intText n).isEmpty = false := by
    by_contra hempty
    rw [Bool.not_eq_false, String.isEmpty_iff] at hempty
    have hnil : Text.intChars n = [] := by
      rw [← Text.toList_intText, hempty]
      rfl
    rw [hnil] at hparse
    cases hparse
  rw [decimalValue, decimal?, hnonempty, if_neg Bool.false_ne_true, Text.toList_intText,
    Text.trimChars_intChars, hparse, Option.getD_some]

end Protobuf.Wire

namespace Protobuf.Codec

open Plan Wire

/-! ## Scalars -/

namespace Schema

/-- How a scalar is held: a number may be held as its numeral. -/
def present (s : Schema) (t : Scalar) (p : Primitive) : Primitive :=
  match s.textWidth? t, p.toInt? with
  | some _, some n => .string (Text.intText n)
  | _, _ => p

variable (s : Schema) {t : Scalar} {p : Primitive}

lemma present_of_textWidth?_none (ht : s.textWidth? t = none) : s.present t p = p := by
  simp only [present, ht]

lemma present_of_textWidth? {width : Numeric.Width} (ht : s.textWidth? t = some width)
    (hp : t.holds p) :
    ∃ n, p.toInt? = some n ∧ s.present t p = .string (Text.intText n) ∧
      decimalValue width (Text.intText n) = n ∧ Primitive.ofInt width n = p := by
  obtain ⟨n, hn, hholds, hvalue⟩ := Scalar.toInt?_of_holds (width?_of_textWidth? ht) hp
  exact ⟨n, hn, by simp only [present, ht, hn], decimalValue_intText hholds, hvalue⟩

lemma present_inj {p q : Primitive} (hp : t.holds p) (hq : t.holds q)
    (h : s.present t p = s.present t q) : p = q := by
  cases ht : s.textWidth? t with
  | none => rwa [s.present_of_textWidth?_none ht, s.present_of_textWidth?_none ht] at h
  | some width =>
    obtain ⟨n, -, hn, hdecimal, rfl⟩ := s.present_of_textWidth? ht hp
    obtain ⟨k, -, hk, hdecimal', rfl⟩ := s.present_of_textWidth? ht hq
    rw [hn, hk, Primitive.string.injEq] at h
    rw [← hdecimal, h, hdecimal']

end Schema

/-! ## Correspondence -/

/-- What the members of a union hold, of which the first one with the number is set. -/
def spreadUnion : List VariantPlan → Option (Nat × Value) → List (FieldPlan × Slot)
  | [], _ => []
  | variant :: variants, none =>
    (variant.toField, .optional none) :: spreadUnion variants none
  | variant :: variants, some (number, v) =>
    if variant.field.number = number then
      (variant.toField, .optional (some v)) :: spreadUnion variants none
    else (variant.toField, .optional none) :: spreadUnion variants (some (number, v))

def spreadMember : Member → Slot → List (FieldPlan × Slot)
  | .field p, slot => [(p, slot)]
  | .union u, .union choice => spreadUnion u.variants choice
  | .union u, _ => spreadUnion u.variants none

def spread (members : List Member) (m : Message) : List (FieldPlan × Slot) :=
  (members.zip m).flatMap fun (member, slot) => spreadMember member slot

mutual

/-- The values stand for one another, each one under the options of its schema. A scalar may be
held in two ways. -/
inductive Corresponds (s₁ s₂ : Schema) : ValueKind → Value → Value → Prop
  | scalar {t : Scalar} {p : Primitive} : t.holds p = true →
      Corresponds s₁ s₂ (.scalar t) (.scalar (s₁.present t p)) (.scalar (s₂.present t p))
  | choice (ref : Schema.TypeRef) (e : Schema.Enum) (c : Choice) :
      Corresponds s₁ s₂ (.enum ref e) (.choice c) (.choice c)
  | wrapper (k : Wrapper) (p : Primitive) :
      Corresponds s₁ s₂ (.wrapper k) (.scalar p) (.scalar p)
  | time (t : Time.Instant) : Corresponds s₁ s₂ .timestamp (.time t) (.time t)
  | message {ref : Schema.TypeRef} {m₁ m₂ : Message} :
      MessageCorresponds s₁ s₂ ref.qualifiedName m₁ m₂ →
      Corresponds s₁ s₂ (.message ref) (.message m₁) (.message m₂)

/-- The map entries stand for one another. A value that tracks presence, which no map declared as
one does, may be missing from both; a number held as text is the empty text then. -/
inductive EntryCorresponds (s₁ s₂ : Schema) :
    Scalar → Schema.Field × ValueKind → Primitive × Value → Primitive × Value → Prop
  | both {t : Scalar} {value : Schema.Field × ValueKind} {k : Primitive} {v₁ v₂ : Value} :
      t.holds k = true → Corresponds s₁ s₂ value.2 v₁ v₂ →
      EntryCorresponds s₁ s₂ t value (s₁.present t k, v₁) (s₂.present t k, v₂)
  | missing {t u : Scalar} {value : Schema.Field × ValueKind} {k : Primitive} :
      t.holds k = true → value.1.tracksPresence = true → value.2 = .scalar u →
      EntryCorresponds s₁ s₂ t value (s₁.present t k, s₁.missingValue (.scalar u))
        (s₂.present t k, s₂.missingValue (.scalar u))

/-- What a field holds stands for one another. Values and entries are in the same order. -/
inductive SlotCorresponds (s₁ s₂ : Schema) : Place → Slot → Slot → Prop
  | plain {place : Place} {v₁ v₂ : Value} : place.shape = .plain →
      Corresponds s₁ s₂ place.kind v₁ v₂ → SlotCorresponds s₁ s₂ place (.plain v₁) (.plain v₂)
  | absent {place : Place} : place.shape = .optional →
      SlotCorresponds s₁ s₂ place (.optional none) (.optional none)
  | present {place : Place} {v₁ v₂ : Value} : place.shape = .optional →
      Corresponds s₁ s₂ place.kind v₁ v₂ →
      SlotCorresponds s₁ s₂ place (.optional (some v₁)) (.optional (some v₂))
  | repeated {place : Place} {vs₁ vs₂ : List Value} : place.shape = .repeated →
      vs₁.length = vs₂.length →
      (∀ v ∈ vs₁.zip vs₂, Corresponds s₁ s₂ place.kind v.1 v.2) →
      SlotCorresponds s₁ s₂ place (.repeated vs₁) (.repeated vs₂)
  | map {place : Place} {entry : Schema.TypeRef} {key value : Schema.Field × ValueKind}
      {t : Scalar} {es₁ es₂ : List (Primitive × Value)} : place.shape = .map entry key value →
      key.2 = .scalar t → es₁.length = es₂.length →
      (∀ e ∈ es₁.zip es₂, EntryCorresponds s₁ s₂ t value e.1 e.2) →
      SlotCorresponds s₁ s₂ place (.map es₁) (.map es₂)

/-- The messages of the type with a qualified name stand for one another: field by field, in
whatever order. -/
inductive MessageCorresponds (s₁ s₂ : Schema) : String → Message → Message → Prop
  | intro {name : String} {m₁ m₂ : Message} {fields : List (FieldPlan × Slot)} :
      m₁.length = (s₁.members name).length → m₂.length = (s₂.members name).length →
      fields.Perm (spread (s₂.members name) m₂) →
      (spread (s₁.members name) m₁).length = fields.length →
      (∀ f ∈ (spread (s₁.members name) m₁).zip fields, f.1.1.place = f.2.1.place) →
      (∀ f ∈ (spread (s₁.members name) m₁).zip fields,
        SlotCorresponds s₁ s₂ f.1.1.place f.1.2 f.2.2) →
      MessageCorresponds s₁ s₂ name m₁ m₂

end

/-! ## Fields in their order -/

/-- The first member of a union is set if it is chosen, and else the choice is left to the others. -/
lemma spreadUnion_cons (variant : VariantPlan) (variants : List VariantPlan)
    (choice : Option (Nat × Value)) : ∃ slot rest,
      spreadUnion (variant :: variants) choice =
        (variant.toField, slot) :: spreadUnion variants rest ∧
      (slot = .optional none ∨
        ∃ v, choice = some (variant.field.number, v) ∧ slot = .optional (some v)) ∧
      (rest = none ∨ rest = choice) := by
  rcases choice with _ | ⟨number, v⟩
  · exact ⟨_, none, rfl, .inl rfl, .inl rfl⟩
  · by_cases hnumber : variant.field.number = number
    · exact ⟨_, none, if_pos hnumber, .inr ⟨v, by rw [hnumber], rfl⟩, .inl rfl⟩
    · exact ⟨_, _, if_neg hnumber, .inl rfl, .inr rfl⟩

lemma map_fst_spreadUnion (variants : List VariantPlan) (choice : Option (Nat × Value)) :
    (spreadUnion variants choice).map Prod.fst = variants.map VariantPlan.toField := by
  induction variants generalizing choice with
  | nil => rfl
  | cons variant variants ih =>
    obtain ⟨slot, rest, heq, -⟩ := spreadUnion_cons variant variants choice
    rw [heq, map_cons, ih, map_cons]

lemma mem_spreadUnion {f : FieldPlan × Slot} {variants : List VariantPlan}
    {choice : Option (Nat × Value)} (h : f ∈ spreadUnion variants choice) :
    ∃ variant ∈ variants, f.1 = variant.toField ∧ (f.2 = .optional none ∨
      ∃ v, choice = some (variant.field.number, v) ∧ f.2 = .optional (some v)) := by
  induction variants generalizing choice with
  | nil => simp [spreadUnion] at h
  | cons variant variants ih =>
    obtain ⟨slot, rest, heq, hslot, hrest⟩ := spreadUnion_cons variant variants choice
    rw [heq] at h
    rcases mem_cons.mp h with rfl | h
    · exact ⟨variant, by simp, rfl, hslot⟩
    · obtain ⟨w, hw, hfield, hset⟩ := ih h
      exact ⟨w, by simp [hw], hfield, by grind⟩

lemma spreadMember_union (u : UnionPlan) (slot : Slot) :
    ∃ choice, spreadMember (.union u) slot = spreadUnion u.variants choice ∧
      (choice = none ∨ slot = .union choice) := by
  cases slot with
  | union choice => exact ⟨choice, rfl, .inr rfl⟩
  | _ => exact ⟨none, rfl, .inl rfl⟩

lemma map_place_spreadMember (member : Member) (slot : Slot) :
    (spreadMember member slot).map (fun f => f.1.place) = member.places := by
  cases member with
  | field p => rfl
  | union u =>
    obtain ⟨choice, hspread, -⟩ := spreadMember_union u slot
    have hfst := congrArg (map FieldPlan.place) (map_fst_spreadUnion u.variants choice)
    rw [map_map, map_map] at hfst
    rw [hspread]
    exact hfst

lemma map_place_spread {members : List Member} {m : Message} (h : m.length = members.length) :
    (spread members m).map (fun f => f.1.place) = members.flatMap Member.places := by
  induction members generalizing m with
  | nil => rfl
  | cons member members ih =>
    obtain ⟨slot, slots, rfl⟩ := exists_cons_of_length_eq_add_one h
    rw [spread, zip_cons_cons, flatMap_cons, map_append, map_place_spreadMember,
      flatMap_cons, ← ih (Nat.succ.inj h)]
    rfl

lemma nesting_le_slotsNesting {slot : Slot} {slots : List Slot} (h : slot ∈ slots) :
    slot.nesting ≤ slotsNesting slots := by
  induction slots with
  | nil => cases h
  | cons head slots ih =>
    rw [slotsNesting]
    rcases mem_cons.mp h with rfl | h
    · exact le_max_left _ _
    · exact (ih h).trans (le_max_right _ _)

lemma nesting_le_of_mem_spread {members : List Member} {m : Message} :
    ∀ f ∈ spread members m, f.2.nesting ≤ slotsNesting m := by
  intro f hf
  obtain ⟨⟨member, slot⟩, hmem, hf⟩ := mem_flatMap.mp hf
  have hslot : f.2.nesting ≤ slot.nesting := by
    cases member with
    | field p => rw [mem_singleton.mp hf]
    | union u =>
      obtain ⟨choice, hspread, hchoice⟩ := spreadMember_union u slot
      dsimp only at hf
      rw [hspread] at hf
      obtain ⟨variant, -, -, hnone | ⟨v, rfl, hset⟩⟩ := mem_spreadUnion hf
      · simp [hnone, Slot.nesting]
      · obtain rfl := hchoice.resolve_left (by simp)
        rw [hset]
        rfl
  exact hslot.trans (nesting_le_slotsNesting (of_mem_zip hmem).2)

namespace Schema

variable (s : Schema)

/-! ## Wire forms -/

end Schema

section

variable {s₁ s₂ : Schema} {kind : ValueKind} {v₁ v₂ : Value}

end

section

variable {s₁ s₂ : Schema} {n : Nat}
  (ih : ∀ name m₁ m₂, slotsNesting m₁ < n → MessageCorresponds s₁ s₂ name m₁ m₂ →
    s₁.pieces name m₁ = s₂.pieces name m₂)

include ih

end

end Protobuf.Codec
