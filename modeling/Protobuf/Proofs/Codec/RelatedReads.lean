import Protobuf.Proofs.Codec.Presentation
import Protobuf.Proofs.Wire.Lockstep

/-!
# Relations that reading keeps

Two schemas of one set of files read the same bytes. A relation between what they
hold is kept by reading a field if it holds of the values that a record can give
and goes through lists and maps element by element. This is said once here, for
whatever relation there is between messages.
-/

namespace Protobuf.Codec

open Plan Wire

variable {s₁ s₂ : Schema}

lemma Schema.readScalar_eq (s : Schema) (t : Scalar) :
    s.readScalar t = (do return s.present t (← t.read)) := by
  unfold readScalar present
  congr 1
  funext p
  cases s.textWidth? t <;> cases p.toInt? <;> rfl

lemma Schema.present_zero (s : Schema) (t : Scalar) : s.present t t.zero = s.zeroScalar t := by
  unfold present zeroScalar
  cases ht : s.textWidth? t with
  | none => rfl
  | some width =>
    have hwidth := width?_of_textWidth? ht
    cases t <;> cases hwidth <;> rfl

lemma lockstep_read (t : Scalar) :
    Lockstep (fun p q => p = q ∧ t.holds p = true) t.read t.read := by
  cases t
  all_goals exact (Lockstep.refl _).map fun a b hab => ⟨congrArg _ hab, rfl⟩

/-- Relations between messages, values, map entries and slots that reading a field keeps. -/
structure Kept (s₁ s₂ : Schema) (M : String → Message → Message → Prop)
    (V : ValueKind → Value → Value → Prop)
    (E : Scalar → Schema.Field × ValueKind → Primitive × Value → Primitive × Value → Prop)
    (S : Place → Slot → Slot → Prop) : Prop where
  scalar {t : Scalar} {p : Primitive} : t.holds p = true →
    V (.scalar t) (.scalar (s₁.present t p)) (.scalar (s₂.present t p))
  choice (ref : Schema.TypeRef) (e : Schema.Enum) (c : Choice) :
    V (.enum ref e) (.choice c) (.choice c)
  wrapper (k : Wrapper) (p : Primitive) : V (.wrapper k) (.scalar p) (.scalar p)
  time (t : Time.Instant) : V .timestamp (.time t) (.time t)
  message {ref : Schema.TypeRef} {m₁ m₂ : Message} : M ref.qualifiedName m₁ m₂ →
    V (.message ref) (.message m₁) (.message m₂)
  both {t : Scalar} {value : Schema.Field × ValueKind} {k : Primitive} {v₁ v₂ : Value} :
    t.holds k = true → V value.2 v₁ v₂ → E t value (s₁.present t k, v₁) (s₂.present t k, v₂)
  missing {t u : Scalar} {value : Schema.Field × ValueKind} {k : Primitive} :
    t.holds k = true → value.1.tracksPresence = true → value.2 = .scalar u →
    E t value (s₁.present t k, s₁.missingValue (.scalar u))
      (s₂.present t k, s₂.missingValue (.scalar u))
  key {t : Scalar} {value : Schema.Field × ValueKind} {e₁ e₂ : Primitive × Value} :
    E t value e₁ e₂ → ∃ k, t.holds k = true ∧ e₁.1 = s₁.present t k ∧ e₂.1 = s₂.present t k
  plain {place : Place} {v₁ v₂ : Value} : place.shape = .plain → V place.kind v₁ v₂ →
    S place (.plain v₁) (.plain v₂)
  absent {place : Place} : place.shape = .optional → S place (.optional none) (.optional none)
  present {place : Place} {v₁ v₂ : Value} : place.shape = .optional → V place.kind v₁ v₂ →
    S place (.optional (some v₁)) (.optional (some v₂))
  repeated_iff {place : Place} {x₁ x₂ : Slot} : place.shape = .repeated →
    (S place x₁ x₂ ↔ ∃ vs₁ vs₂, x₁ = .repeated vs₁ ∧ x₂ = .repeated vs₂ ∧
      List.Forall₂ (V place.kind) vs₁ vs₂)
  map_iff {place : Place} {x₁ x₂ : Slot} {entry : Schema.TypeRef}
    {key value : Schema.Field × ValueKind} {t : Scalar} : place.shape = .map entry key value →
    key.2 = .scalar t →
    (S place x₁ x₂ ↔ ∃ es₁ es₂, x₁ = .map es₁ ∧ x₂ = .map es₂ ∧
      List.Forall₂ (E t value) es₁ es₂)

/-- Entries of maps that were read as messages are related, or both are none. -/
def EntriesKept (s₁ s₂ : Schema) (M : String → Message → Message → Prop)
    (E : Scalar → Schema.Field × ValueKind → Primitive × Value → Primitive × Value → Prop)
    (p : FieldPlan) : Prop :=
  ∀ {entry : Schema.TypeRef} {key value : FieldPlan} {t : Scalar} {m₁ m₂ : Message},
    p.layout = .map entry key value → key.kind = .scalar t → M entry.qualifiedName m₁ m₂ →
    (entryOf? (s₁.missingValue value.kind) m₁ = none ∧
        entryOf? (s₂.missingValue value.kind) m₂ = none) ∨
      ∃ e₁ e₂, entryOf? (s₁.missingValue value.kind) m₁ = some e₁ ∧
        entryOf? (s₂.missingValue value.kind) m₂ = some e₂ ∧
        E t (value.field, value.kind) e₁ e₂

namespace Kept

variable {M : String → Message → Message → Prop} {V : ValueKind → Value → Value → Prop}
  {E : Scalar → Schema.Field × ValueKind → Primitive × Value → Primitive × Value → Prop}
  {S : Place → Slot → Slot → Prop}

section

variable {t : Scalar} {value : Schema.Field × ValueKind} {d₁ d₂ e₁ e₂ : Primitive × Value}

lemma key_eq_iff (h : Kept s₁ s₂ M V E S) (hd : E t value d₁ d₂) (he : E t value e₁ e₂) :
    d₁.1 = e₁.1 ↔ d₂.1 = e₂.1 := by
  obtain ⟨k, hk, hd₁, hd₂⟩ := h.key hd
  obtain ⟨l, hl, he₁, he₂⟩ := h.key he
  rw [hd₁, hd₂, he₁, he₂]
  constructor
  · intro heq
    rw [s₁.present_inj hk hl heq]
  · intro heq
    rw [s₂.present_inj hk hl heq]

lemma putEntry (h : Kept s₁ s₂ M V E S) (he : E t value e₁ e₂)
    {es₁ es₂ : List (Primitive × Value)} (hes : List.Forall₂ (E t value) es₁ es₂) :
    List.Forall₂ (E t value) (putEntry e₁.1 e₁.2 es₁) (putEntry e₂.1 e₂.2 es₂) := by
  induction hes with
  | nil => exact .cons he .nil
  | @cons d₁ d₂ _ _ hd hrest ih =>
    rw [Codec.putEntry, Codec.putEntry]
    by_cases hkey : d₁.1 = e₁.1
    · rw [if_pos hkey, if_pos ((h.key_eq_iff hd he).mp hkey)]
      exact .cons he hrest
    · rw [if_neg hkey, if_neg fun heq => hkey ((h.key_eq_iff hd he).mpr heq)]
      exact .cons hd ih

end

lemma lockstep_readScalar (h : Kept s₁ s₂ M V E S) (t : Scalar) :
    Lockstep (fun p q => V (.scalar t) (.scalar p) (.scalar q)) (s₁.readScalar t)
      (s₂.readScalar t) := by
  rw [s₁.readScalar_eq, s₂.readScalar_eq]
  refine (lockstep_read t).map ?_
  rintro p _ ⟨rfl, hp⟩
  exact h.scalar hp

variable {inner₁ inner₂ : MessageReader}

section

variable (h : Kept s₁ s₂ M V E S)
  (hinner : ∀ name length, Lockstep (M name) (inner₁ name length) (inner₂ name length))

include h hinner

lemma lockstep_readValue (kind : ValueKind) :
    Lockstep (V kind) (s₁.readValue inner₁ kind) (s₂.readValue inner₂ kind) := by
  cases kind with
  | scalar t => exact (h.lockstep_readScalar t).map fun _ _ hpq => hpq
  | enum ref e =>
    refine (Lockstep.refl Reader.int32).map ?_
    rintro n _ rfl
    exact h.choice ref e _
  | wrapper k =>
    refine (Lockstep.refl k.read).map ?_
    rintro p _ rfl
    exact h.wrapper k p
  | timestamp =>
    refine (Lockstep.refl (Reader.message Timestamp.decode)).map ?_
    rintro t _ rfl
    exact h.time _
  | message ref => exact (Lockstep.message (hinner ref.qualifiedName)).map fun _ _ => h.message

lemma lockstep_readPacked (kind : ValueKind) :
    Lockstep (List.Forall₂ (V kind)) (s₁.readPacked inner₁ kind) (s₂.readPacked inner₂ kind) := by
  refine Lockstep.bind_left _ fun stop => Lockstep.bind_left _ fun r => ?_
  refine ((h.lockstep_readValue hinner kind).itemsUntil stop _).bind fun vs₁ vs₂ hvs => ?_
  exact Lockstep.bind_left _ fun _ => .pure hvs

/-- A record of a field that is held in the same place is read into slots that stay related. -/
lemma lockstep_readField {p₁ p₂ : FieldPlan} {x₁ x₂ : Slot} (hplan : s₁.WellPlanned p₁)
    (hentries : EntriesKept s₁ s₂ M E p₁) (hplace : p₁.place = p₂.place) (hslot : S p₁.place x₁ x₂)
    (number wireType : Nat) :
    Lockstep (S p₁.place) (s₁.readMember inner₁ number wireType p₁.kind (.field p₁) x₁)
      (s₂.readMember inner₂ number wireType p₁.kind (.field p₂) x₂) := by
  have hvalue := h.lockstep_readValue hinner p₁.kind
  have hpacked := FieldPlan.isPacked_eq_of_place hplace
  rcases FieldPlan.layouts_of_place hplace with ⟨hlayout₁, hlayout₂⟩ | ⟨hlayout₁, hlayout₂⟩ |
    ⟨hlayout₁, hlayout₂⟩ | ⟨entry, key, value, key', value', hlayout₁, hlayout₂, -, hvalues⟩ <;>
    have hshape : p₁.place.shape = _ := congrArg Layout.shape hlayout₁
  · simp only [Schema.readMember, hlayout₁, hlayout₂]
    exact hvalue.map fun _ _ hv => h.plain hshape hv
  · simp only [Schema.readMember, hlayout₁, hlayout₂]
    exact hvalue.map fun _ _ hv => h.present hshape hv
  · obtain ⟨vs₁, vs₂, rfl, rfl, hvs⟩ := (h.repeated_iff hshape).mp hslot
    simp only [Schema.readMember, hlayout₁, hlayout₂, ← hpacked]
    split_ifs
    · exact (h.lockstep_readPacked hinner p₁.kind).map fun _ _ hws =>
        (h.repeated_iff hshape).mpr ⟨_, _, rfl, rfl, List.rel_append hvs hws⟩
    · exact hvalue.map fun _ _ hv =>
        (h.repeated_iff hshape).mpr ⟨_, _, rfl, rfl, List.rel_append hvs (.cons hv .nil)⟩
  · obtain ⟨t, ht⟩ := hplan.key hlayout₁
    have hkind : value.kind = value'.kind := congrArg Prod.snd hvalues
    obtain ⟨es₁, es₂, rfl, rfl, hes⟩ := (h.map_iff hshape ht).mp hslot
    simp only [Schema.readMember, hlayout₁, hlayout₂, ← hkind]
    refine (Lockstep.message (hinner entry.qualifiedName)).bind fun m₁ m₂ hm => ?_
    rcases hentries hlayout₁ ht hm with ⟨hnone₁, hnone₂⟩ | ⟨e₁, e₂, hsome₁, hsome₂, he⟩
    · simp only [hnone₁, hnone₂]
      exact .pure hslot
    · simp only [hsome₁, hsome₂]
      exact .pure ((h.map_iff hshape ht).mpr ⟨_, _, rfl, rfl, h.putEntry he hes⟩)

end

/-! ## What was not set -/

lemma zeroSlot (h : Kept s₁ s₂ M V E S) {p₁ p₂ : FieldPlan} (hplan : s₁.WellPlanned p₁)
    (hplace : p₁.place = p₂.place) :
    S p₁.place (s₁.zeroSlot (.field p₁)) (s₂.zeroSlot (.field p₂)) := by
  have hkind : p₁.kind = p₂.kind := congrArg Place.kind hplace
  unfold Schema.zeroSlot
  rcases FieldPlan.layouts_of_place hplace with ⟨hlayout₁, hlayout₂⟩ | ⟨hlayout₁, hlayout₂⟩ |
    ⟨hlayout₁, hlayout₂⟩ | ⟨entry, key, value, key', value', hlayout₁, hlayout₂, -, -⟩ <;>
    have hshape : p₁.place.shape = _ := congrArg Layout.shape hlayout₁ <;>
    simp only [hlayout₁, hlayout₂, ← hkind]
  · refine h.plain hshape ?_
    rcases hplan.plain hlayout₁ with ⟨t, ht⟩ | ⟨ref, e, he⟩
    · have hholds : t.holds t.zero := by cases t <;> rfl
      simp only [FieldPlan.place, ht, Schema.zeroSimple, ← Schema.present_zero]
      exact h.scalar hholds
    · simp only [FieldPlan.place, he, Schema.zeroSimple]
      exact h.choice ref e _
  · exact h.absent hshape
  · exact (h.repeated_iff hshape).mpr ⟨[], [], rfl, rfl, .nil⟩
  · obtain ⟨t, ht⟩ := hplan.key hlayout₁
    exact (h.map_iff hshape ht).mpr ⟨[], [], rfl, rfl, .nil⟩

section

variable (hzero : ∀ name, M name (s₁.zero name) (s₂.zero name))

include hzero

lemma missingValue (h : Kept s₁ s₂ M V E S) {kind : ValueKind} (hkind : ∀ t, kind ≠ .scalar t) :
    V kind (s₁.missingValue kind) (s₂.missingValue kind) := by
  cases kind with
  | scalar t => exact absurd rfl (hkind t)
  | enum ref e => exact h.choice ref e _
  | wrapper k => exact h.wrapper k _
  | timestamp => exact h.time _
  | message ref => exact h.message (hzero ref.qualifiedName)

/-- Entries that have related keys and no value are related. -/
lemma missingEntry (h : Kept s₁ s₂ M V E S) {t : Scalar} {k : Primitive} {value : FieldPlan}
    (hk : t.holds k)
    (hmissing : ∀ {u}, value.kind = .scalar u → value.field.tracksPresence) :
    E t (value.field, value.kind) (s₁.present t k, s₁.missingValue value.kind)
      (s₂.present t k, s₂.missingValue value.kind) := by
  by_cases hscalar : ∃ u, value.kind = .scalar u
  · obtain ⟨u, hu⟩ := hscalar
    have hpresence := hmissing hu
    rw [hu]
    exact h.missing hk hpresence rfl
  · refine h.both hk (h.missingValue hzero ?_)
    exact fun u hu => hscalar ⟨u, hu⟩

end

end Kept

end Protobuf.Codec
