import Protobuf.Proofs.Codec.RelatedReads
import Protobuf.Proofs.Codec.RoundTrip
import Protobuf.Proofs.Plan.Oneofs

/-!
# Oneofs as siblings and as unions

A record of a member of a oneof replaces what a union held, and leaves the siblings
of the member as they were. So under siblings a member can still be set that the
union has given up. `MessageAgrees` says how a message that was read with siblings
goes together with the one that was read with unions: they correspond but for such
superseded members.
-/

open Protobuf.Codec.Schema

namespace Protobuf.Codec

open Plan Wire List

variable {s s₁ s₂ : Schema}

/-- Whether the slot of a member that is set or not holds a value. -/
def Slot.isSet : Slot → Bool
  | .optional (some _) => true
  | _ => false

mutual

/-- The values stand for one another but for superseded members of oneofs: the first value is held
with siblings and the second one with unions. -/
inductive Agrees (s₁ s₂ : Schema) : ValueKind → Value → Value → Prop
  | scalar {t : Scalar} {p : Primitive} : t.holds p = true →
      Agrees s₁ s₂ (.scalar t) (.scalar (s₁.present t p)) (.scalar (s₂.present t p))
  | choice (ref : Schema.TypeRef) (e : Schema.Enum) (c : Choice) :
      Agrees s₁ s₂ (.enum ref e) (.choice c) (.choice c)
  | wrapper (k : Wrapper) (p : Primitive) : Agrees s₁ s₂ (.wrapper k) (.scalar p) (.scalar p)
  | time (t : Time.Instant) : Agrees s₁ s₂ .timestamp (.time t) (.time t)
  | message {ref : Schema.TypeRef} {m₁ m₂ : Message} :
      MessageAgrees s₁ s₂ ref.qualifiedName m₁ m₂ →
      Agrees s₁ s₂ (.message ref) (.message m₁) (.message m₂)

/-- The map entries stand for one another but for superseded members. -/
inductive EntryAgrees (s₁ s₂ : Schema) :
    Scalar → Schema.Field × ValueKind → Primitive × Value → Primitive × Value → Prop
  | both {t : Scalar} {value : Schema.Field × ValueKind} {k : Primitive} {v₁ v₂ : Value} :
      t.holds k = true → Agrees s₁ s₂ value.2 v₁ v₂ →
      EntryAgrees s₁ s₂ t value (s₁.present t k, v₁) (s₂.present t k, v₂)
  | missing {t u : Scalar} {value : Schema.Field × ValueKind} {k : Primitive} :
      t.holds k = true → value.1.tracksPresence = true → value.2 = .scalar u →
      EntryAgrees s₁ s₂ t value (s₁.present t k, s₁.missingValue (.scalar u))
        (s₂.present t k, s₂.missingValue (.scalar u))

/-- What a field holds stands for one another, or the field is a member of a oneof that the union
has given up. -/
inductive SlotAgrees (s₁ s₂ : Schema) : Place → Slot → Slot → Prop
  | plain {place : Place} {v₁ v₂ : Value} : place.shape = .plain →
      Agrees s₁ s₂ place.kind v₁ v₂ → SlotAgrees s₁ s₂ place (.plain v₁) (.plain v₂)
  | absent {place : Place} : place.shape = .optional →
      SlotAgrees s₁ s₂ place (.optional none) (.optional none)
  | present {place : Place} {v₁ v₂ : Value} : place.shape = .optional →
      Agrees s₁ s₂ place.kind v₁ v₂ →
      SlotAgrees s₁ s₂ place (.optional (some v₁)) (.optional (some v₂))
  | superseded {place : Place} {v : Value} : place.shape = .optional →
      place.field.oneof.isSome = true →
      SlotAgrees s₁ s₂ place (.optional (some v)) (.optional none)
  | repeated {place : Place} {vs₁ vs₂ : List Value} : place.shape = .repeated →
      vs₁.length = vs₂.length → (∀ v ∈ vs₁.zip vs₂, Agrees s₁ s₂ place.kind v.1 v.2) →
      SlotAgrees s₁ s₂ place (.repeated vs₁) (.repeated vs₂)
  | map {place : Place} {entry : Schema.TypeRef} {key value : Schema.Field × ValueKind}
      {t : Scalar} {es₁ es₂ : List (Primitive × Value)} : place.shape = .map entry key value →
      key.2 = .scalar t → es₁.length = es₂.length →
      (∀ e ∈ es₁.zip es₂, EntryAgrees s₁ s₂ t value e.1 e.2) →
      SlotAgrees s₁ s₂ place (.map es₁) (.map es₂)

/-- The messages of the type with a qualified name have the same fields, and what these hold stands
for one another but for superseded members. A member is superseded by another one, which is set in
both messages. -/
inductive MessageAgrees (s₁ s₂ : Schema) : String → Message → Message → Prop
  | intro {name : String} {m₁ m₂ : Message} :
      m₁.length = (s₁.members name).length → m₂.length = (s₂.members name).length →
      ((s₁.members name).flatMap Member.places).Perm ((s₂.members name).flatMap Member.places) →
      (∀ f₁ ∈ spread (s₁.members name) m₁, ∀ f₂ ∈ spread (s₂.members name) m₂,
        f₁.1.place = f₂.1.place → SlotAgrees s₁ s₂ f₁.1.place f₁.2 f₂.2) →
      (∀ f₁ ∈ spread (s₁.members name) m₁, f₁.2.isSet = true → ∀ group,
        f₁.1.field.oneof = some group → ∃ f₂ ∈ spread (s₂.members name) m₂,
          f₂.1.field.oneof = some group ∧ f₂.2.isSet = true) →
      MessageAgrees s₁ s₂ name m₁ m₂

end

lemma kept_agrees : Kept s₁ s₂ (MessageAgrees s₁ s₂) (Agrees s₁ s₂) (EntryAgrees s₁ s₂)
    (SlotAgrees s₁ s₂) where
  scalar := .scalar
  choice := .choice
  wrapper := .wrapper
  time := .time
  message := .message
  both := .both
  missing := .missing
  key h := by
    cases h with
    | both hk _ | missing hk _ _ => exact ⟨_, hk, rfl, rfl⟩
  plain := .plain
  absent := .absent
  present := .present
  repeated_iff {place x₁ x₂} hshape := by
    constructor
    · intro h
      cases h with
      | repeated _ hlength hvs =>
        exact ⟨_, _, rfl, rfl, forall₂_iff_zip.mpr ⟨hlength, fun hv => hvs _ hv⟩⟩
      | plain hother | absent hother | present hother | superseded hother | map hother =>
        simp [hshape] at hother
    · rintro ⟨vs₁, vs₂, rfl, rfl, h⟩
      obtain ⟨hlength, hvs⟩ := forall₂_iff_zip.mp h
      exact .repeated hshape hlength fun v hv => hvs hv
  map_iff {place x₁ x₂ entry key value t} hshape hkey := by
    constructor
    · intro h
      cases h with
      | map hmap hscalar hlength hes =>
        rw [hshape] at hmap
        cases hmap
        rw [hkey] at hscalar
        cases hscalar
        exact ⟨_, _, rfl, rfl, forall₂_iff_zip.mpr ⟨hlength, fun he => hes _ he⟩⟩
      | plain hother | absent hother | present hother | superseded hother | repeated hother =>
        simp [hshape] at hother
    · rintro ⟨es₁, es₂, rfl, rfl, h⟩
      obtain ⟨hlength, hes⟩ := forall₂_iff_zip.mp h
      exact .map hshape hkey hlength fun e he => hes he

/-! ## The fields of a message -/

variable {f : FieldPlan × Slot} {x₁ x₂ : Slot}

variable {member : Member} {members : List Member} {variants : List VariantPlan}
  {variant : VariantPlan}

/-- The fields of a message are those of one of its members and those of the others. -/
lemma mem_spread {before after : List Member} {done rest : List Slot} {slot : Slot}
    (h : done.length = before.length) :
    f ∈ spread (before ++ member :: after) (done ++ slot :: rest) ↔
      f ∈ spreadMember member slot ∨ f ∈ spread before done ++ spread after rest := by
  simp only [spread, zip_append h.symm, zip_cons_cons, flatMap_append,
    flatMap_cons, mem_append]
  tauto

lemma eq_of_mem_spread {m : Message} (hnumbers : (members.flatMap Member.numbers).Nodup)
    (hlength : m.length = members.length) {g : FieldPlan × Slot} (hf : f ∈ spread members m)
    (hg : g ∈ spread members m) (h : f.1.field.number = g.1.field.number) : f = g := by
  rw [Member.flatMap_numbers, ← map_place_spread hlength, map_map] at hnumbers
  exact inj_on_of_nodup_map hnumbers hf hg h

lemma exists_set_spreadUnion (h : variant ∈ variants) (v : Value) :
    ∃ f ∈ spreadUnion variants (some (variant.field.number, v)),
      f.1.field.number = variant.field.number ∧ f.2 = .optional (some v) := by
  induction variants with
  | nil => cases h
  | cons first variants ih =>
    unfold spreadUnion
    by_cases hnumber : first.field.number = variant.field.number
    · rw [if_pos hnumber]
      exact ⟨_, mem_cons_self .., hnumber, rfl⟩
    · rw [if_neg hnumber]
      have hrest : variant ∈ variants := by
        rcases mem_cons.mp h with rfl | h
        · exact absurd rfl hnumber
        · exact h
      obtain ⟨f, hf, hset⟩ := ih hrest
      exact ⟨f, mem_cons_of_mem _ hf, hset⟩

lemma exists_mem_spreadUnion (h : variant ∈ variants) (choice : Option (Nat × Value)) :
    ∃ x, (variant.toField, x) ∈ spreadUnion variants choice := by
  have hfst : variant.toField ∈ (spreadUnion variants choice).map Prod.fst := by
    rw [map_fst_spreadUnion]
    exact mem_map_of_mem h
  obtain ⟨f, hf, heq⟩ := mem_map.mp hfst
  exact ⟨f.2, heq ▸ hf⟩

lemma exists_mem_spreadMember {x y : Slot} (h : f ∈ spreadMember member y) :
    ∃ z, (f.1, z) ∈ spreadMember member x := by
  cases member with
  | field p =>
    rw [mem_singleton.mp h]
    exact ⟨x, mem_singleton_self _⟩
  | union u =>
    obtain ⟨old, hold, -⟩ := spreadMember_union u x
    obtain ⟨new, hnew, -⟩ := spreadMember_union u y
    obtain ⟨variant, hvariant, hfield, -⟩ := mem_spreadUnion (hnew ▸ h)
    rw [hold, hfield]
    exact exists_mem_spreadUnion hvariant old

/-- What a record does: it is passed over, or changes the slot of one member. -/
lemma Schema.readRecord_cases (s : Schema) {m : Message} (hlength : m.length = members.length)
    (number : Nat) :
    ((∀ place ∈ members.flatMap Member.places, place.field.number ≠ number) ∧ ∀ inner wireType,
      s.readRecord inner number wireType members m =
        (do Reader.skipValue wireType; return m)) ∨
    ∃ before member after done slot rest place, members = before ++ member :: after ∧
      m = done ++ slot :: rest ∧ done.length = before.length ∧ place ∈ member.places ∧
      place.field.number = number ∧ ∀ inner wireType,
        s.readRecord inner number wireType members m =
          (do return done ++ (← s.readMember inner number wireType place.kind member slot) ::
            rest) := by
  induction members generalizing m with
  | nil =>
    rw [length_eq_zero_iff.mp hlength]
    exact .inl ⟨by simp, fun _ _ => rfl⟩
  | cons first members ih =>
    obtain ⟨slot, m, rfl⟩ := exists_cons_of_length_eq_add_one hlength
    cases hkind : first.kind? number with
    | some kind =>
      obtain ⟨place, hplace, hnumber, rfl⟩ := Member.exists_place_of_kind? hkind
      refine .inr ⟨[], first, members, [], slot, m, place, rfl, rfl, rfl, hplace, hnumber, ?_⟩
      intro inner wireType
      simp only [readRecord, hkind]
      rfl
    | none =>
      have hfirst := Member.number_ne_of_kind? hkind
      rcases ih (Nat.succ.inj hlength) with ⟨hnone, hread⟩ |
        ⟨before, member, after, done, slot', rest, place, rfl, rfl, hdone, hplace, hnumber, hread⟩
      · refine .inl ⟨fun place hplace => ?_, fun inner wireType => ?_⟩
        · rcases mem_append.mp hplace with hplace | hplace
          · exact hfirst place hplace
          · exact hnone place hplace
        · simp only [readRecord, hkind, hread, bind_assoc, pure_bind]
      · refine .inr ⟨first :: before, member, after, slot :: done, slot', rest, place, rfl, rfl,
          by simp [hdone], hplace, hnumber, fun inner wireType => ?_⟩
        simp only [readRecord, hkind, hread, bind_assoc, pure_bind, cons_append]

lemma mem_spread_zero {name : String}
    (h : f ∈ spread (s.members name) (s.zero name)) :
    ∃ member ∈ s.members name, f ∈ spreadMember member (s.zeroSlot member) := by
  have hzip : (s.members name).zip (s.zero name) =
      (s.members name).map fun member => (member, s.zeroSlot member) := by
    have hzip := zip_map' (f := id) (g := s.zeroSlot) (l := s.members name)
    rwa [map_id] at hzip
  rw [spread, hzip, flatMap_map] at h
  exact mem_flatMap.mp h

lemma zeroSlot_of_optional {p : FieldPlan} (h : p.layout = .optional) :
    s.zeroSlot (.field p) = .optional none := by
  simp only [zeroSlot, h]

lemma SlotAgrees.supersede {place : Place} (h : SlotAgrees s₁ s₂ place x₁ x₂)
    (hshape : place.shape = .optional) (honeof : place.field.oneof.isSome) :
    SlotAgrees s₁ s₂ place x₁ (.optional none) := by
  cases h with
  | absent _ => exact .absent hshape
  | present _ _ | superseded _ _ => exact .superseded hshape honeof
  | plain hother _ | repeated hother _ _ | map hother _ _ _ => simp [hshape] at hother

/-! ## Schemas of both styles -/

/-- The schemas are those of one set of files: in the first one the members of oneofs are siblings,
in the second one they are held in unions. -/
structure TwoStyles (s₁ s₂ : Schema) : Prop where
  places (name : String) :
    ((s₁.members name).flatMap Member.places).Perm ((s₂.members name).flatMap Member.places)
  siblings {name : String} {m : Member} : m ∈ s₁.members name → ∃ p, m = .field p
  outside {name : String} {p : FieldPlan} : .field p ∈ s₂.members name → p.field.oneof = none
  variants (name : String) : ∃ members : Nat → List Schema.Field,
    (∀ group, ∀ f ∈ members group, f.oneof = some group) ∧
      ∀ u, .union u ∈ s₂.members name → u.variants.map VariantPlan.field = members u.group
  numbers₁ (name : String) : ((s₁.members name).flatMap Member.numbers).Nodup
  numbers₂ (name : String) : ((s₂.members name).flatMap Member.numbers).Nodup
  planned {name : String} {p : FieldPlan} : .field p ∈ s₁.members name → s₁.WellPlanned p
  entry {name : String} {p key value : FieldPlan} {entry : Schema.TypeRef} :
    .field p ∈ s₁.members name → p.layout = .map entry key value →
    ∃ k v, s₁.members entry.qualifiedName = [.field key, .field value] ∧
      s₂.members entry.qualifiedName = [.field k, .field v] ∧ key.layout = .plain ∧
      key.place = k.place ∧ value.place = v.place

namespace TwoStyles

variable {name : String} (hs : TwoStyles s₁ s₂)

include hs

lemma place_unique {place₁ place₂ : Place}
    (h₁ : place₁ ∈ (s₁.members name).flatMap Member.places)
    (h₂ : place₂ ∈ (s₂.members name).flatMap Member.places)
    (hnumber : place₁.field.number = place₂.field.number) : place₁ = place₂ := by
  have hnodup := hs.numbers₁ name
  rw [Member.flatMap_numbers] at hnodup
  exact inj_on_of_nodup_map hnodup h₁ ((hs.places name).mem_iff.mpr h₂) hnumber

lemma oneof_of_union {u : UnionPlan} (hu : .union u ∈ s₂.members name) :
    ∀ v ∈ u.variants, v.field.oneof = some u.group := by
  obtain ⟨members, hgroup, hvariants⟩ := hs.variants name
  intro v hv
  refine hgroup u.group v.field ?_
  rw [← hvariants u hu]
  exact mem_map.mpr ⟨v, hv, rfl⟩

lemma exists_variant_of_group {u w : UnionPlan} (hu : .union u ∈ s₂.members name)
    (hw : .union w ∈ s₂.members name) (hgroup : w.group = u.group) {variant : VariantPlan}
    (hvariant : variant ∈ w.variants) : ∃ v ∈ u.variants, v.field = variant.field := by
  obtain ⟨members, -, hvariants⟩ := hs.variants name
  refine mem_map.mp ?_
  rw [hvariants u hu, ← hgroup, ← hvariants w hw]
  exact mem_map_of_mem hvariant

/-- The fields of a union are the members of its oneof, each of them set or not. -/
lemma field_of_union {u : UnionPlan} (hu : .union u ∈ s₂.members name) {slot : Slot}
    {f : FieldPlan × Slot} (hf : f ∈ spreadMember (.union u) slot) :
    f.1.place.shape = .optional ∧ f.1.field.oneof = some u.group := by
  obtain ⟨choice, hspread, -⟩ := spreadMember_union u slot
  rw [hspread] at hf
  obtain ⟨variant, hvariant, hfield, -⟩ := mem_spreadUnion hf
  rw [hfield]
  exact ⟨rfl, hs.oneof_of_union hu variant hvariant⟩

lemma zero_agrees (name : String) : MessageAgrees s₁ s₂ name (s₁.zero name) (s₂.zero name) := by
  refine .intro (length_map ..) (length_map ..) (hs.places name) ?_ ?_
  · intro f₁ hf₁ f₂ hf₂ heq
    obtain ⟨member₁, hmember₁, hf₁⟩ := mem_spread_zero hf₁
    obtain ⟨p₁, rfl⟩ := hs.siblings hmember₁
    rw [mem_singleton.mp hf₁] at heq ⊢
    obtain ⟨member₂, hmember₂, hf₂⟩ := mem_spread_zero hf₂
    cases member₂ with
    | field p₂ =>
      rw [mem_singleton.mp hf₂] at heq ⊢
      exact kept_agrees.zeroSlot (hs.planned hmember₁) heq
    | union u =>
      obtain ⟨variant, -, hfield, hslot⟩ := mem_spreadUnion hf₂
      have hnone : f₂.2 = .optional none := by simpa using hslot
      have hshape : p₁.place.shape = .optional := by
        rw [heq, hfield]
        rfl
      rw [hnone, zeroSlot_of_optional (Layout.shape_eq_optional.mp hshape)]
      exact .absent hshape
  · intro f₁ hf₁ hset
    obtain ⟨member₁, hmember₁, hf₁⟩ := mem_spread_zero hf₁
    obtain ⟨p₁, rfl⟩ := hs.siblings hmember₁
    rw [mem_singleton.mp hf₁] at hset
    cases hlayout : p₁.layout <;> simp [zeroSlot, hlayout, Slot.isSet] at hset

lemma entriesKept {p : FieldPlan} (hp : .field p ∈ s₁.members name) :
    EntriesKept s₁ s₂ (MessageAgrees s₁ s₂) (EntryAgrees s₁ s₂) p := by
  intro entry key value t m₁ m₂ hlayout hkey hm
  obtain ⟨k, v, hmembers₁, hmembers₂, hplain, hkplace, hvplace⟩ := hs.entry hp hlayout
  have hmissing : value.layout = .optional → ∀ {u}, value.kind = .scalar u →
      value.field.tracksPresence = true := fun hoptional _ =>
    (hs.planned hp).missing hlayout hoptional
  have houtside : value.field.oneof = none := by
    have hfield : value.field = v.field := congrArg Place.field hvplace
    rw [hfield]
    exact hs.outside (by rw [hmembers₂]; simp)
  cases hm with
  | intro hlength₁ hlength₂ _ hslots _ =>
    rw [hmembers₁] at hlength₁ hslots
    rw [hmembers₂] at hlength₂ hslots
    obtain ⟨a₁, b₁, rfl⟩ := length_eq_two.mp hlength₁
    obtain ⟨a₂, b₂, rfl⟩ := length_eq_two.mp hlength₂
    have hfirst := hslots (key, a₁) (by simp [spread, spreadMember]) (k, a₂)
      (by simp [spread, spreadMember]) hkplace
    have hsecond := hslots (value, b₁) (by simp [spread, spreadMember]) (v, b₂)
      (by simp [spread, spreadMember]) hvplace
    have hshape : key.place.shape = .plain := congrArg Layout.shape hplain
    cases hfirst with
    | absent hother | present hother _ | superseded hother _ | repeated hother _ _
    | map hother _ _ _ => simp [hshape] at hother
    | plain _ hk =>
      simp only [FieldPlan.place, hkey] at hk
      cases hk with
      | scalar hk =>
        cases hsecond with
        | plain _ hv | present _ hv => exact .inr ⟨_, _, rfl, rfl, .both hk hv⟩
        | absent hoptional =>
          exact .inr ⟨_, _, rfl, rfl, kept_agrees.missingEntry hs.zero_agrees hk
            (hmissing (Layout.shape_eq_optional.mp hoptional))⟩
        | superseded _ honeof => simp [FieldPlan.place, houtside] at honeof
        | repeated _ _ _ | map _ _ _ _ => exact .inl ⟨rfl, rfl⟩

/-! ## Records -/

section

variable {b₁ a₁ b₂ a₂ : List Member} {p₁ : FieldPlan} {member₂ : Member} {d₁ r₁ d₂ r₂ : List Slot}
  (h : MessageAgrees s₁ s₂ name (d₁ ++ x₁ :: r₁) (d₂ ++ x₂ :: r₂))
  (hmembers₁ : s₁.members name = b₁ ++ .field p₁ :: a₁) (hd₁ : d₁.length = b₁.length)
  (hmembers₂ : s₂.members name = b₂ ++ member₂ :: a₂) (hd₂ : d₂.length = b₂.length)

include h hmembers₁ hd₁ hmembers₂ hd₂

/-- A record changes one member of both messages. With unions it also unsets the other members of a
oneof, which are superseded then. -/
lemma put {y₁ y₂ : Slot}
    (hnew : ∃ f ∈ spreadMember member₂ y₂, f.1.field.number = p₁.field.number ∧
      SlotAgrees s₁ s₂ p₁.place y₁ f.2)
    (hother : ∀ f ∈ spreadMember member₂ y₂, f.1.field.number ≠ p₁.field.number →
      f.1.place.shape = .optional ∧ f.1.field.oneof.isSome ∧ f.2 = .optional none ∧
        ∃ x, (f.1, x) ∈ spreadMember member₂ x₂)
    (hset : ∀ group, p₁.field.oneof = some group ∨
        (∃ f ∈ spreadMember member₂ x₂, f.1.field.oneof = some group) →
      ∃ f ∈ spreadMember member₂ y₂, f.1.field.oneof = some group ∧ f.2.isSet) :
    MessageAgrees s₁ s₂ name (d₁ ++ y₁ :: r₁) (d₂ ++ y₂ :: r₂) := by
  cases h with
  | intro hlength₁ hlength₂ hperm hslots hsets =>
    have hlength₁' : (d₁ ++ y₁ :: r₁).length = (s₁.members name).length := by simpa using hlength₁
    have hlength₂' : (d₂ ++ y₂ :: r₂).length = (s₂.members name).length := by simpa using hlength₂
    have hmem₁ {x : Slot} {f : FieldPlan × Slot} :
        f ∈ spread (s₁.members name) (d₁ ++ x :: r₁) ↔
          f = (p₁, x) ∨ f ∈ spread b₁ d₁ ++ spread a₁ r₁ := by
      rw [hmembers₁, mem_spread hd₁, spreadMember, mem_singleton]
    have hmem₂ {x : Slot} {f : FieldPlan × Slot} :
        f ∈ spread (s₂.members name) (d₂ ++ x :: r₂) ↔
          f ∈ spreadMember member₂ x ∨ f ∈ spread b₂ d₂ ++ spread a₂ r₂ := by
      rw [hmembers₂, mem_spread hd₂]
    -- A sibling is changed by the record if it has its number, and else it stays.
    have hcases {f : FieldPlan × Slot} (hf : f ∈ spread (s₁.members name) (d₁ ++ y₁ :: r₁)) :
        f = (p₁, y₁) ∨ (f ∈ spread (s₁.members name) (d₁ ++ x₁ :: r₁) ∧
          f.1.field.number ≠ p₁.field.number) := by
      by_cases hnumber : f.1.field.number = p₁.field.number
      · have hchanged : (p₁, y₁) ∈ spread (s₁.members name) (d₁ ++ y₁ :: r₁) :=
          hmem₁.mpr (.inl rfl)
        exact .inl (eq_of_mem_spread (hs.numbers₁ name) hlength₁' hf hchanged hnumber)
      · rcases hmem₁.mp hf with rfl | hf
        · exact absurd rfl hnumber
        · exact .inr ⟨hmem₁.mpr (.inr hf), hnumber⟩
    refine .intro hlength₁' hlength₂' hperm ?_ ?_
    · intro f₁ hf₁ f₂ hf₂ heq
      have hfield : f₁.1.field = f₂.1.field := congrArg Place.field heq
      rcases hcases hf₁ with rfl | ⟨hold, hnumber⟩
      · obtain ⟨g, hg, hgnumber, hagree⟩ := hnew
        have hsame : f₂ = g := by
          refine eq_of_mem_spread (hs.numbers₂ name) hlength₂' hf₂ (hmem₂.mpr (.inl hg)) ?_
          rw [← hfield, hgnumber]
        rwa [hsame]
      · rcases hmem₂.mp hf₂ with hf₂ | hf₂
        · obtain ⟨hshape, honeof, hnone, x, hx⟩ := hother f₂ hf₂ (hfield ▸ hnumber)
          have hagree := hslots f₁ hold (f₂.1, x) (hmem₂.mpr (.inl hx)) heq
          rw [hnone]
          rw [← heq] at hshape
          refine hagree.supersede hshape ?_
          rw [heq]
          exact honeof
        · exact hslots f₁ hold f₂ (hmem₂.mpr (.inr hf₂)) heq
    · intro f₁ hf₁ hf₁set group hgroup
      rcases hcases hf₁ with rfl | ⟨hold, -⟩
      · obtain ⟨f, hf, hfset⟩ := hset group (.inl hgroup)
        exact ⟨f, hmem₂.mpr (.inl hf), hfset⟩
      · obtain ⟨f₂, hf₂, hgroup₂, hset₂⟩ := hsets f₁ hold hf₁set group hgroup
        rcases hmem₂.mp hf₂ with hf₂ | hf₂
        · obtain ⟨f, hf, hfset⟩ := hset group (.inr ⟨f₂, hf₂, hgroup₂⟩)
          exact ⟨f, hmem₂.mpr (.inl hf), hfset⟩
        · exact ⟨f₂, hmem₂.mpr (.inr hf₂), hgroup₂, hset₂⟩

/-- A record of a member of a oneof sets it in both messages. -/
lemma choose {u : UnionPlan} (hunion : member₂ = .union u) {variant : VariantPlan}
    (hvariant : variant ∈ u.variants) (hplace : variant.place = p₁.place) {v₁ v₂ : Value}
    (hv : Agrees s₁ s₂ p₁.place.kind v₁ v₂) :
    MessageAgrees s₁ s₂ name (d₁ ++ .optional (some v₁) :: r₁)
      (d₂ ++ .union (some (variant.field.number, v₂)) :: r₂) := by
  subst hunion
  have hu : .union u ∈ s₂.members name := by simp [hmembers₂]
  have hfield : variant.field = p₁.field := congrArg Place.field hplace
  obtain ⟨chosen, hchosen, hcnumber, hcslot⟩ :
      ∃ f ∈ spreadMember (.union u) (.union (some (variant.field.number, v₂))),
        f.1.field.number = variant.field.number ∧ f.2 = .optional (some v₂) :=
    exists_set_spreadUnion hvariant v₂
  refine hs.put h hmembers₁ hd₁ hmembers₂ hd₂ ⟨chosen, hchosen, by rw [hcnumber, hfield], ?_⟩ ?_ ?_
  · rw [hcslot]
    refine .present ?_ hv
    rw [← hplace]
    rfl
  · intro f hf hother
    obtain ⟨w, -, hw, hslot⟩ := mem_spreadUnion hf
    have hnumbers : variant.field.number ≠ w.field.number := by
      rw [hw, ← hfield] at hother
      exact hother.symm
    obtain ⟨hshape, hgroup⟩ := hs.field_of_union hu hf
    exact ⟨hshape, by rw [hgroup]; rfl, by simpa [hnumbers] using hslot,
      exists_mem_spreadMember hf⟩
  · intro group hgroup
    obtain ⟨-, hcgroup⟩ := hs.field_of_union hu hchosen
    have hsame : some u.group = some group := by
      rcases hgroup with hgroup | ⟨f, hf, hgroup⟩
      · rw [← hs.oneof_of_union hu variant hvariant, hfield, hgroup]
      · rw [← (hs.field_of_union hu hf).2, hgroup]
    exact ⟨chosen, hchosen, hcgroup.trans hsame, by rw [hcslot]; rfl⟩

/-- A record of a declared field is read into the members that have it. -/
lemma lockstep_readMember {inner₁ inner₂ : MessageReader} (hinner : ∀ name length,
      Lockstep (MessageAgrees s₁ s₂ name) (inner₁ name length) (inner₂ name length))
    {number : Nat} (hplace : p₁.place ∈ member₂.places) (hnumber : p₁.place.field.number = number)
    (wireType : Nat) :
    Lockstep (fun y₁ y₂ => MessageAgrees s₁ s₂ name (d₁ ++ y₁ :: r₁) (d₂ ++ y₂ :: r₂))
      (s₁.readMember inner₁ number wireType p₁.place.kind (.field p₁) x₁)
      (s₂.readMember inner₂ number wireType p₁.place.kind member₂ x₂) := by
  have hmem₁ : .field p₁ ∈ s₁.members name := by simp [hmembers₁]
  have hmem₂ : member₂ ∈ s₂.members name := by simp [hmembers₂]
  cases member₂ with
  | field p₂ =>
    have heq : p₁.place = p₂.place := mem_singleton.mp hplace
    have houtside : p₂.field.oneof = none := hs.outside hmem₂
    have hfield : p₁.field = p₂.field := congrArg Place.field heq
    have hslot : SlotAgrees s₁ s₂ p₁.place x₁ x₂ := by
      cases h with
      | intro _ _ _ hslots _ =>
        refine hslots (p₁, x₁) ?_ (p₂, x₂) ?_ heq
        · rw [hmembers₁, mem_spread hd₁]
          simp [spreadMember]
        · rw [hmembers₂, mem_spread hd₂]
          simp [spreadMember]
    refine (kept_agrees.lockstep_readField hinner (hs.planned hmem₁) (hs.entriesKept hmem₁) heq
      hslot number wireType).mono fun y₁ y₂ hy => ?_
    refine hs.put h hmembers₁ hd₁ hmembers₂ hd₂
      ⟨_, mem_singleton_self _, by rw [hfield], hy⟩ ?_ ?_
    · intro f hf hother
      rw [mem_singleton.mp hf, hfield] at hother
      exact absurd rfl hother
    · intro group hgroup
      simp [spreadMember, hfield, houtside] at hgroup
  | union u =>
    obtain ⟨variant, hvariant, heq⟩ := mem_map.mp hplace
    have hoptional : p₁.layout = .optional :=
      Layout.shape_eq_optional.mp (congrArg Place.shape heq.symm)
    have hfield : variant.field = p₁.field := congrArg Place.field heq
    obtain rfl : variant.field.number = number := by rwa [hfield]
    simp only [readMember, hoptional]
    exact (kept_agrees.lockstep_readValue hinner p₁.place.kind).map fun v₁ v₂ hv =>
      hs.choose h hmembers₁ hd₁ hmembers₂ hd₂ rfl hvariant heq hv

end

lemma lockstep_readRecord {inner₁ inner₂ : MessageReader} (hinner : ∀ name length,
      Lockstep (MessageAgrees s₁ s₂ name) (inner₁ name length) (inner₂ name length))
    {m₁ m₂ : Message} (h : MessageAgrees s₁ s₂ name m₁ m₂) (number wireType : Nat) :
    Lockstep (MessageAgrees s₁ s₂ name)
      (s₁.readRecord inner₁ number wireType (s₁.members name) m₁)
      (s₂.readRecord inner₂ number wireType (s₂.members name) m₂) := by
  have hlengths : m₁.length = (s₁.members name).length ∧ m₂.length = (s₂.members name).length := by
    cases h with
    | intro hlength₁ hlength₂ _ _ _ => exact ⟨hlength₁, hlength₂⟩
  rcases s₁.readRecord_cases hlengths.1 number with ⟨hnone₁, hread₁⟩ |
      ⟨b₁, member₁, a₁, d₁, x₁, r₁, place₁, hmembers₁, rfl, hd₁, hplace₁, hnumber₁, hread₁⟩ <;>
    rcases s₂.readRecord_cases hlengths.2 number with ⟨hnone₂, hread₂⟩ |
      ⟨b₂, member₂, a₂, d₂, x₂, r₂, place₂, hmembers₂, rfl, hd₂, hplace₂, hnumber₂, hread₂⟩ <;>
    rw [hread₁, hread₂]
  · exact Lockstep.bind_left _ fun _ => .pure h
  · refine absurd hnumber₂ (hnone₁ place₂ ((hs.places name).mem_iff.mpr ?_))
    exact mem_flatMap.mpr ⟨member₂, by simp [hmembers₂], hplace₂⟩
  · refine absurd hnumber₁ (hnone₂ place₁ ((hs.places name).mem_iff.mp ?_))
    exact mem_flatMap.mpr ⟨member₁, by simp [hmembers₁], hplace₁⟩
  · have hmem₁ : member₁ ∈ s₁.members name := by simp [hmembers₁]
    have hmem₂ : member₂ ∈ s₂.members name := by simp [hmembers₂]
    have hsame : place₁ = place₂ := hs.place_unique (mem_flatMap.mpr ⟨_, hmem₁, hplace₁⟩)
      (mem_flatMap.mpr ⟨_, hmem₂, hplace₂⟩) (hnumber₁.trans hnumber₂.symm)
    subst hsame
    obtain ⟨p₁, rfl⟩ := hs.siblings hmem₁
    obtain rfl : place₁ = p₁.place := mem_singleton.mp hplace₁
    exact (hs.lockstep_readMember h hmembers₁ hd₁ hmembers₂ hd₂ hinner hplace₂ hnumber₁
      wireType).map fun _ _ hput => hput

lemma lockstep_readWithin (levels : Nat) (name : String) (length : Option Nat) :
    Lockstep (MessageAgrees s₁ s₂ name) (s₁.readWithin levels name length)
      (s₂.readWithin levels name length) := by
  induction levels generalizing name length with
  | zero => exact fun r => .inl ⟨_, r, rfl, rfl⟩
  | succ levels ih =>
    refine Lockstep.frame (fun number wireType m₁ m₂ hm => ?_) length (hs.zero_agrees name)
    exact hs.lockstep_readRecord ih hm number wireType

omit hs

/-! ## Schemas of files -/

section

variable {files : List Descriptor.File} {o₁ o₂ : Options} (h₁ : Schema.ofFiles files o₁ = .ok s₁)
  (h₂ : Schema.ofFiles files o₂ = .ok s₂) (hc₁ : s₁.Compiles) (hc₂ : s₂.Compiles)

include h₁ h₂ hc₁ hc₂

/-- The entry of a map has the same fields in both styles. -/
lemma entry_of_files {name : String} {p key value : FieldPlan} {entry : Schema.TypeRef}
    (hp : .field p ∈ s₁.members name) (hlayout : p.layout = .map entry key value) :
    ∃ k v, s₁.members entry.qualifiedName = [.field key, .field value] ∧
      s₂.members entry.qualifiedName = [.field k, .field v] ∧ key.layout = .plain ∧
      key.place = k.place ∧ value.place = v.place := by
  obtain ⟨k₁, v₁, hmembers₁, hplain, -⟩ := hc₁.entry_members name p entry key value hp hlayout
  obtain ⟨rfl, rfl⟩ := ofFiles_entry_members h₁ hp hlayout hmembers₁
  have hplace : p.place ∈ (s₂.members name).flatMap Member.places :=
    (ofFiles_places_perm h₁ h₂ name).mem_iff.mp
      (mem_flatMap.mpr ⟨_, hp, mem_singleton_self _⟩)
  obtain ⟨member, hmember, hplace⟩ := mem_flatMap.mp hplace
  cases member with
  | union u =>
    obtain ⟨variant, -, heq⟩ := mem_map.mp hplace
    have hshape : Shape.optional = p.layout.shape := congrArg Place.shape heq
    simp [hlayout, Layout.shape] at hshape
  | field q =>
    have hshape : q.layout.shape = p.layout.shape :=
      congrArg Place.shape (mem_singleton.mp hplace).symm
    rw [hlayout] at hshape
    obtain ⟨key', value', hlayout₂, hkey, hvalue⟩ := Layout.shape_eq_map hshape
    obtain ⟨k, v, hmembers₂, -, -⟩ := hc₂.entry_members name q entry key' value' hmember hlayout₂
    obtain ⟨rfl, rfl⟩ := ofFiles_entry_members h₂ hmember hlayout₂ hmembers₂
    have hperm := ofFiles_places_perm h₁ h₂ entry.qualifiedName
    have hnodup := hc₂.numbers_nodup entry.qualifiedName
    rw [Member.flatMap_numbers] at hnodup
    rw [hmembers₁, hmembers₂] at hperm
    rw [hmembers₂] at hnodup
    -- The fields of the entry are told apart by their numbers.
    have hsame {a b : FieldPlan} (ha : a ∈ [k₁, v₁]) (hb : b ∈ [k, v])
        (hfield : (a.field, a.kind) = (b.field, b.kind)) : a.place = b.place := by
      refine inj_on_of_nodup_map hnodup (hperm.subset ?_) ?_
        (congrArg (fun x => x.1.number) hfield)
      · exact mem_map.mpr ⟨a, ha, rfl⟩
      · exact mem_map.mpr ⟨b, hb, rfl⟩
    exact ⟨k, v, hmembers₁, hmembers₂, hplain, hsame (by simp) (by simp) hkey,
      hsame (by simp) (by simp) hvalue⟩

lemma of_files (hsiblings : o₁.oneofs = .siblings) (hunion : o₂.oneofs = .union) :
    TwoStyles s₁ s₂ where
  places := ofFiles_places_perm h₁ h₂
  siblings hm := ofFiles_siblings h₁ hsiblings _ hm
  outside hp := ofFiles_union h₂ hunion _ hp
  variants _ := ofFiles_variants h₂
  numbers₁ := hc₁.numbers_nodup
  numbers₂ := hc₂.numbers_nodup
  planned hp := ofFiles_wellPlanned h₁ hp
  entry hp hlayout := entry_of_files h₁ h₂ hc₁ hc₂ hp hlayout

end

end TwoStyles

end Protobuf.Codec
