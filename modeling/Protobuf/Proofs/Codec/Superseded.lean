import Protobuf.Proofs.Codec.OneofStyles

/-!
# Messages with superseded members

Under siblings several members of a oneof can be set at a time, in a message or in
messages within it. Of messages that agree, those without such members are exactly
those that correspond to what the unions hold.
-/

open List Option

namespace Protobuf.Plan

/-- The kind of the values that a field holds; those of a map are the values of its entries. -/
def Place.valueKind (place : Place) : ValueKind :=
  match place.shape with
  | .map _ _ value => value.2
  | _ => place.kind

end Protobuf.Plan

namespace Protobuf.Codec

open Plan Wire

variable {s₁ s₂ : Schema}

def Slot.values : Slot → List Value
  | .plain v => [v]
  | .optional v => v.toList
  | .repeated vs => vs
  | .map entries => entries.map Prod.snd
  | .union choice => (choice.map Prod.snd).toList

/-- Two members of a oneof are set, in the message or in a message within it. -/
inductive Crowded (s : Schema) : String → Message → Prop
  | here {name : String} {m : Message} {f g : FieldPlan × Slot} {group : Nat} :
      f ∈ spread (s.members name) m → g ∈ spread (s.members name) m →
      f.1.field.number ≠ g.1.field.number → f.1.field.oneof = some group →
      g.1.field.oneof = some group → f.2.isSet = true → g.2.isSet = true → Crowded s name m
  | within {name : String} {m inner : Message} {f : FieldPlan × Slot} {ref : Schema.TypeRef} :
      f ∈ spread (s.members name) m → f.1.place.valueKind = .message ref →
      .message inner ∈ f.2.values → Crowded s ref.qualifiedName inner → Crowded s name m

/-! ## Messages that correspond -/

lemma exists_mem_zip {α β : Type} {as : List α} {bs : List β} (h : as.length = bs.length) {a : α}
    (ha : a ∈ as) : ∃ b ∈ bs, (a, b) ∈ as.zip bs := by
  rw [← map_fst_zip h.le] at ha
  obtain ⟨⟨_, b⟩, hmem, rfl⟩ := mem_map.mp ha
  exact ⟨b, (of_mem_zip hmem).2, hmem⟩

variable {name : String} {m₁ m₂ inner : Message} {place : Place} {x₁ x₂ : Slot}
  {ref : Schema.TypeRef}

lemma MessageCorresponds.exists_field (h : MessageCorresponds s₁ s₂ name m₁ m₂)
    {f : FieldPlan × Slot} (hf : f ∈ spread (s₁.members name) m₁) :
    ∃ g ∈ spread (s₂.members name) m₂,
      f.1.place = g.1.place ∧ SlotCorresponds s₁ s₂ f.1.place f.2 g.2 := by
  cases h with
  | intro _ _ hperm hlength hplaces hslots =>
    obtain ⟨g, hg, hzip⟩ := exists_mem_zip hlength hf
    exact ⟨g, hperm.subset hg, hplaces _ hzip, hslots _ hzip⟩

lemma SlotCorresponds.isSet_eq (h : SlotCorresponds s₁ s₂ place x₁ x₂) : x₁.isSet = x₂.isSet := by
  cases h <;> rfl

lemma Corresponds.exists_message {v : Value}
    (h : Corresponds s₁ s₂ (.message ref) (.message inner) v) :
    ∃ inner₂, MessageCorresponds s₁ s₂ ref.qualifiedName inner inner₂ := by
  cases h with
  | message h => exact ⟨_, h⟩

lemma EntryCorresponds.exists_message {t : Scalar} {value : Schema.Field × ValueKind}
    {e₁ e₂ : Primitive × Value} (h : EntryCorresponds s₁ s₂ t value e₁ e₂)
    (hkind : value.2 = .message ref) (hinner : e₁.2 = .message inner) :
    ∃ inner₂, MessageCorresponds s₁ s₂ ref.qualifiedName inner inner₂ := by
  cases h with
  | both _ hv =>
    obtain rfl : _ = Value.message inner := hinner
    rw [hkind] at hv
    exact hv.exists_message
  | missing _ _ hscalar =>
    rw [hkind] at hscalar
    cases hscalar

/-- A message within a message that corresponds to another one does so too. -/
lemma SlotCorresponds.exists_message (h : SlotCorresponds s₁ s₂ place x₁ x₂)
    (hkind : place.valueKind = .message ref) (hinner : .message inner ∈ x₁.values) :
    ∃ inner₂, MessageCorresponds s₁ s₂ ref.qualifiedName inner inner₂ := by
  cases h with
  | absent _ => cases hinner
  | plain hshape hv | present hshape hv =>
    simp only [Place.valueKind, hshape] at hkind
    rw [← mem_singleton.mp hinner, hkind] at hv
    exact hv.exists_message
  | repeated hshape hlength hvs =>
    simp only [Place.valueKind, hshape] at hkind
    obtain ⟨v, -, hzip⟩ := exists_mem_zip hlength hinner
    have hv := hvs _ hzip
    rw [hkind] at hv
    exact hv.exists_message
  | map hshape hkey hlength hes =>
    simp only [Place.valueKind, hshape] at hkind
    obtain ⟨e, he, hvalue⟩ := mem_map.mp hinner
    obtain ⟨e₂, -, hzip⟩ := exists_mem_zip hlength he
    exact (hes _ hzip).exists_message hkind hvalue

lemma mem_spread_of_mem_zip {members : List Member} {m : Message} {member : Member} {slot : Slot}
    {f : FieldPlan × Slot} (h : (member, slot) ∈ members.zip m)
    (hf : f ∈ spreadMember member slot) : f ∈ spread members m :=
  mem_flatMap.mpr ⟨_, h, hf⟩

namespace TwoStyles

variable {name : String} {group : Nat} (hs : TwoStyles s₁ s₂) {m : Message} {f : FieldPlan × Slot}
  (hf : f ∈ spread (s₂.members name) m) (hgroup : f.1.field.oneof = some group)

include hs hf hgroup

lemma exists_union_of_mem :
    ∃ (u : UnionPlan) (slot : Slot), (.union u, slot) ∈ (s₂.members name).zip m ∧
      u.group = group ∧ f ∈ spreadMember (.union u) slot := by
  obtain ⟨⟨member, slot⟩, hzip, hmem⟩ := mem_flatMap.mp hf
  have hmember := (of_mem_zip hzip).1
  cases member with
  | field p =>
    rw [mem_singleton.mp hmem, hs.outside hmember] at hgroup
    cases hgroup
  | union u =>
    have hsame := (hs.field_of_union hmember hmem).2
    rw [hgroup] at hsame
    exact ⟨u, slot, hzip, (some.inj hsame).symm, hmem⟩

/-- The fields of a oneof are held together in one union. -/
lemma exists_union (hlength : m.length = (s₂.members name).length) :
    ∃ (u : UnionPlan) (choice : Option (Nat × Value)), f ∈ spreadUnion u.variants choice ∧
      ∀ g ∈ spread (s₂.members name) m, g.1.field.oneof = some group →
        g ∈ spreadUnion u.variants choice := by
  obtain ⟨u, slot, hzip, rfl, hfu⟩ := hs.exists_union_of_mem hf hgroup
  obtain ⟨choice, hspread, -⟩ := spreadMember_union u slot
  rw [hspread] at hfu
  refine ⟨u, choice, hfu, fun g hg hggroup => ?_⟩
  -- Another union of the oneof would have the same members, and so the same numbers.
  obtain ⟨w, slot', hzip', hgroups, hgw⟩ := hs.exists_union_of_mem hg hggroup
  obtain ⟨choice', hspread', -⟩ := spreadMember_union w slot'
  rw [hspread'] at hgw
  obtain ⟨variant, hvariant, hfield, -⟩ := mem_spreadUnion hgw
  obtain ⟨variant', hvariant', hsame⟩ := hs.exists_variant_of_group (of_mem_zip hzip).1
    (of_mem_zip hzip').1 hgroups hvariant
  obtain ⟨x, hx⟩ := exists_mem_spreadUnion hvariant' choice
  have hnumber : g.1.field.number = variant'.field.number := by rw [hfield, hsame]; rfl
  have hmem := mem_spread_of_mem_zip hzip (hspread ▸ hx)
  rwa [eq_of_mem_spread (hs.numbers₂ name) hlength hg hmem hnumber]

lemma number_eq_of_isSet (hlength : m.length = (s₂.members name).length) {g : FieldPlan × Slot}
    (hg : g ∈ spread (s₂.members name) m) (hggroup : g.1.field.oneof = some group)
    (hfset : f.2.isSet) (hgset : g.2.isSet) :
    f.1.field.number = g.1.field.number := by
  obtain ⟨u, choice, hfu, hall⟩ := hs.exists_union hf hgroup hlength
  have hchoice {f : FieldPlan × Slot} (hf : f ∈ spreadUnion u.variants choice)
      (hset : f.2.isSet = true) : choice.map Prod.fst = some f.1.field.number := by
    obtain ⟨variant, -, hfield, hslot | ⟨v, hv, -⟩⟩ := mem_spreadUnion hf
    · rw [hslot] at hset
      cases hset
    · rw [hv, hfield]
      rfl
  exact some.inj ((hchoice hfu hfset).symm.trans (hchoice (hall g hg hggroup) hgset))

end TwoStyles

/-- What the unions hold has no two members of a oneof, so a message that has does not correspond
to it. -/
lemma Crowded.not_corresponds (hs : TwoStyles s₁ s₂) (h : Crowded s₁ name m₁) (m₂ : Message) :
    ¬ MessageCorresponds s₁ s₂ name m₁ m₂ := by
  induction h generalizing m₂ with
  | @here name m₁ f g group hf hg hne hfgroup hggroup hfset hgset =>
    intro hm
    have hlength : m₂.length = (s₂.members name).length := by
      cases hm with
      | intro _ hlength _ _ _ _ => exact hlength
    obtain ⟨f', hf', hfplace, hfslot⟩ := hm.exists_field hf
    obtain ⟨g', hg', hgplace, hgslot⟩ := hm.exists_field hg
    have hffield : f.1.field = f'.1.field := congrArg Place.field hfplace
    have hgfield : g.1.field = g'.1.field := congrArg Place.field hgplace
    rw [hffield] at hne hfgroup
    rw [hgfield] at hne hggroup
    rw [hfslot.isSet_eq] at hfset
    rw [hgslot.isSet_eq] at hgset
    exact hne (hs.number_eq_of_isSet hf' hfgroup hlength hg' hggroup hfset hgset)
  | within hf hkind hinner _ ih =>
    intro hm
    obtain ⟨g, -, -, hslot⟩ := hm.exists_field hf
    obtain ⟨inner₂, hinner₂⟩ := hslot.exists_message hkind hinner
    exact ih inner₂ hinner₂

/-! ## Messages that agree -/

lemma nesting_le_valuesNesting {vs : List Value} {v : Value} (h : v ∈ vs) :
    v.nesting ≤ valuesNesting vs := by
  induction vs with
  | nil => cases h
  | cons u vs ih =>
    rw [valuesNesting]
    rcases mem_cons.mp h with rfl | h
    · exact le_max_left _ _
    · exact (ih h).trans (le_max_right _ _)

lemma nesting_lt_entriesNesting {entries : List (Primitive × Value)} {e : Primitive × Value}
    (h : e ∈ entries) : e.2.nesting < entriesNesting entries := by
  induction entries with
  | nil => cases h
  | cons e' entries ih =>
    rw [entriesNesting]
    rcases mem_cons.mp h with rfl | h
    · exact Nat.lt_of_succ_le (le_max_left _ _)
    · exact (ih h).trans_le (le_max_right _ _)

lemma nesting_le_of_mem_values {slot : Slot} {v : Value} (h : v ∈ slot.values) :
    v.nesting ≤ slot.nesting := by
  cases slot with
  | plain u => rw [mem_singleton.mp h, Slot.nesting]
  | optional u =>
    obtain rfl : u = some v := mem_toList.mp h
    rw [Slot.nesting]
  | repeated vs => exact nesting_le_valuesNesting h
  | map entries =>
    obtain ⟨e, he, rfl⟩ := mem_map.mp h
    exact (nesting_lt_entriesNesting he).le
  | union choice =>
    obtain ⟨⟨number, _⟩, rfl, rfl⟩ := map_eq_some_iff.mp (mem_toList.mp h)
    rw [Slot.nesting]

lemma Agrees.corresponds {kind : ValueKind} {v₁ v₂ : Value} (h : Agrees s₁ s₂ kind v₁ v₂)
    (hmessages : ∀ ref inner₁ inner₂, kind = .message ref → v₁ = .message inner₁ →
      MessageAgrees s₁ s₂ ref.qualifiedName inner₁ inner₂ →
      MessageCorresponds s₁ s₂ ref.qualifiedName inner₁ inner₂) :
    Corresponds s₁ s₂ kind v₁ v₂ := by
  cases h with
  | scalar hp => exact .scalar hp
  | choice ref e c => exact .choice ref e c
  | wrapper k p => exact .wrapper k p
  | time t => exact .time t
  | message hm => exact .message (hmessages _ _ _ rfl rfl hm)

/-- What agrees and is not superseded corresponds, if the messages within do. -/
lemma SlotAgrees.corresponds (h : SlotAgrees s₁ s₂ place x₁ x₂)
    (hset : x₁.isSet → x₂.isSet)
    (hmessages : ∀ ref inner₁ inner₂, place.valueKind = .message ref →
      .message inner₁ ∈ x₁.values → MessageAgrees s₁ s₂ ref.qualifiedName inner₁ inner₂ →
      MessageCorresponds s₁ s₂ ref.qualifiedName inner₁ inner₂) :
    SlotCorresponds s₁ s₂ place x₁ x₂ := by
  cases h with
  | plain hshape hv =>
    simp only [Place.valueKind, hshape] at hmessages
    refine .plain hshape (hv.corresponds fun ref inner₁ inner₂ hkind hinner => ?_)
    exact hmessages ref inner₁ inner₂ hkind (by simp [Slot.values, hinner])
  | absent hshape => exact .absent hshape
  | present hshape hv =>
    simp only [Place.valueKind, hshape] at hmessages
    refine .present hshape (hv.corresponds fun ref inner₁ inner₂ hkind hinner => ?_)
    exact hmessages ref inner₁ inner₂ hkind (by simp [Slot.values, hinner])
  | superseded _ _ => exact absurd (hset rfl) (by simp [Slot.isSet])
  | repeated hshape hlength hvs =>
    simp only [Place.valueKind, hshape] at hmessages
    refine .repeated hshape hlength fun v hv => (hvs v hv).corresponds ?_
    intro ref inner₁ inner₂ hkind hinner
    refine hmessages ref inner₁ inner₂ hkind ?_
    rw [← hinner]
    exact (of_mem_zip hv).1
  | map hshape hkey hlength hes =>
    simp only [Place.valueKind, hshape] at hmessages
    refine .map hshape hkey hlength fun e he => ?_
    have hmem := (of_mem_zip he).1
    have hentry := hes e he
    obtain ⟨⟨k₁, v₁⟩, ⟨k₂, v₂⟩⟩ := e
    cases hentry with
    | both hk hv =>
      refine .both hk (hv.corresponds fun ref inner₁ inner₂ hkind hinner => ?_)
      refine hmessages ref inner₁ inner₂ hkind ?_
      rw [← hinner]
      exact mem_map.mpr ⟨_, hmem, rfl⟩
    | missing hk htracks hscalar => exact .missing hk htracks hscalar

lemma SlotAgrees.isSet_of_isSet (h : SlotAgrees s₁ s₂ place x₁ x₂) (hset : x₂.isSet) :
    x₁.isSet := by
  cases h with
  | present _ _ => rfl
  | _ => cases hset

lemma SlotAgrees.oneof_of_unset (h : SlotAgrees s₁ s₂ place x₁ x₂) (hset : x₁.isSet)
    (hunset : ¬ x₂.isSet) : ∃ group, place.field.oneof = some group := by
  cases h with
  | superseded _ honeof => exact isSome_iff_exists.mp honeof
  | present _ _ => exact absurd rfl hunset
  | _ => cases hset

section

variable (hs : TwoStyles s₁ s₂) (h : MessageAgrees s₁ s₂ name m₁ m₂)

include hs h

/-- A member that the union has given up is set beside the one that the union holds. -/
lemma MessageAgrees.isSet_of_isSet (hcrowded : ¬ Crowded s₁ name m₁) {f g : FieldPlan × Slot}
    (hf : f ∈ spread (s₁.members name) m₁) (hg : g ∈ spread (s₂.members name) m₂)
    (hplace : f.1.place = g.1.place) (hset : f.2.isSet) : g.2.isSet := by
  cases h with
  | intro hlength₁ hlength₂ hperm hslots hsets =>
    by_contra hunset
    obtain ⟨group, hgroup⟩ := (hslots f hf g hg hplace).oneof_of_unset hset hunset
    obtain ⟨g', hg', hgroup', hset'⟩ := hsets f hf hset group hgroup
    have hmem : g'.1.place ∈ (spread (s₁.members name) m₁).map fun f => f.1.place := by
      rw [map_place_spread hlength₁, hperm.mem_iff, ← map_place_spread hlength₂]
      exact mem_map.mpr ⟨g', hg', rfl⟩
    obtain ⟨f', hf', hplace'⟩ := mem_map.mp hmem
    have hfield : f.1.field = g.1.field := congrArg Place.field hplace
    have hfield' : f'.1.field = g'.1.field := congrArg Place.field hplace'
    refine hcrowded (.here hf hf' ?_ hgroup (hfield'.symm ▸ hgroup') hset
      ((hslots f' hf' g' hg' hplace').isSet_of_isSet hset'))
    intro hnumber
    rw [hfield, hfield'] at hnumber
    rw [eq_of_mem_spread (hs.numbers₂ name) hlength₂ hg hg' hnumber] at hunset
    exact hunset hset'

/-- Messages that agree correspond if no two members of a oneof are set with siblings. -/
lemma MessageAgrees.corresponds (hcrowded : ¬ Crowded s₁ name m₁) :
    MessageCorresponds s₁ s₂ name m₁ m₂ := by
  induction hn : slotsNesting m₁ using Nat.strong_induction_on generalizing name m₁ m₂ with
  | _ n ih =>
    have hkept := fun {f g} => h.isSet_of_isSet hs hcrowded (f := f) (g := g)
    cases h with
    | intro hlength₁ hlength₂ hperm hslots hsets =>
      rw [← map_place_spread hlength₁, ← map_place_spread hlength₂] at hperm
      obtain ⟨fields, hfields, heq⟩ := exists_eq_map_of_perm_map hperm
      have hzip : List.Forall₂ (fun f g : FieldPlan × Slot => f.1.place = g.1.place)
          (spread (s₁.members name) m₁) fields := by
        rw [← forall₂_eq_eq_eq, forall₂_map_left_iff, forall₂_map_right_iff] at heq
        exact heq
      obtain ⟨hlength, hplaces⟩ := forall₂_iff_zip.mp hzip
      refine .intro hlength₁ hlength₂ hfields.symm hlength (fun _ hfg => hplaces hfg) ?_
      rintro ⟨f, g⟩ hfg
      have hf := (of_mem_zip hfg).1
      have hg := hfields.mem_iff.mpr (of_mem_zip hfg).2
      refine (hslots f hf g hg (hplaces hfg)).corresponds (hkept hf hg (hplaces hfg)) ?_
      intro ref inner₁ inner₂ hkind hinner hagrees
      have hlt : slotsNesting inner₁ < n := by
        have hvalue : slotsNesting inner₁ + 1 ≤ f.2.nesting := nesting_le_of_mem_values hinner
        have hslot := nesting_le_of_mem_spread f hf
        omega
      refine ih (slotsNesting inner₁) hlt hagrees ?_ rfl
      exact fun hwithin => hcrowded (.within hf hkind hinner hwithin)

/-- Messages that agree correspond, unless two members of a oneof are set with siblings. -/
lemma MessageAgrees.corresponds_iff :
    MessageCorresponds s₁ s₂ name m₁ m₂ ↔ ¬ Crowded s₁ name m₁ := by
  constructor
  · intro hm hcrowded
    exact hcrowded.not_corresponds hs m₂ hm
  · intro hcrowded
    exact h.corresponds hs hcrowded

end

end Protobuf.Codec
