import Protobuf.Proofs.Codec.RelatedReads

/-!
# Reading under different options

Options that hold oneofs in the same way give a message the same members, one by
one. So its readers go in lockstep: a record goes into the same member under both
options, or fails with the same error, and what the members hold corresponds after
every record.
-/

namespace Protobuf.Codec

open Plan Wire List

variable {s₁ s₂ : Schema}

/-! ## Members one by one -/

/-- What members of messages hold stands for one another. -/
inductive MemberCorresponds (s₁ s₂ : Schema) : Member → Member → Slot → Slot → Prop
  | field {p₁ p₂ : FieldPlan} {slot₁ slot₂ : Slot} : p₁.place = p₂.place →
      SlotCorresponds s₁ s₂ p₁.place slot₁ slot₂ →
      MemberCorresponds s₁ s₂ (.field p₁) (.field p₂) slot₁ slot₂
  | unset {u₁ u₂ : UnionPlan} :
      u₁.variants.map VariantPlan.place = u₂.variants.map VariantPlan.place →
      MemberCorresponds s₁ s₂ (.union u₁) (.union u₂) (.union none) (.union none)
  | chosen {u₁ u₂ : UnionPlan} {number : Nat} {kind : ValueKind} {v₁ v₂ : Value} :
      u₁.variants.map VariantPlan.place = u₂.variants.map VariantPlan.place →
      (Member.union u₁).kind? number = some kind → Corresponds s₁ s₂ kind v₁ v₂ →
      MemberCorresponds s₁ s₂ (.union u₁) (.union u₂) (.union (some (number, v₁)))
        (.union (some (number, v₂)))

/-- What the members of messages hold stands for one another, member by member. -/
inductive SlotsCorrespond (s₁ s₂ : Schema) :
    List Member → List Member → Message → Message → Prop
  | nil : SlotsCorrespond s₁ s₂ [] [] [] []
  | cons {member₁ member₂ : Member} {members₁ members₂ : List Member} {slot₁ slot₂ : Slot}
      {slots₁ slots₂ : List Slot} : MemberCorresponds s₁ s₂ member₁ member₂ slot₁ slot₂ →
      SlotsCorrespond s₁ s₂ members₁ members₂ slots₁ slots₂ →
      SlotsCorrespond s₁ s₂ (member₁ :: members₁) (member₂ :: members₂) (slot₁ :: slots₁)
        (slot₂ :: slots₂)

variable {m₁ m₂ : Message} (missing : Value)

lemma SlotsCorrespond.length_eq {members₁ members₂ : List Member}
    (h : SlotsCorrespond s₁ s₂ members₁ members₂ m₁ m₂) :
    m₁.length = members₁.length ∧ m₂.length = members₂.length := by
  induction h with
  | nil => exact ⟨rfl, rfl⟩
  | cons _ _ ih => exact ⟨congrArg (· + 1) ih.1, congrArg (· + 1) ih.2⟩

/-- The fields have the same place, and what they hold stands for one another. -/
def FieldCorresponds (s₁ s₂ : Schema) (f₁ f₂ : FieldPlan × Slot) : Prop :=
  f₁.1.place = f₂.1.place ∧ SlotCorresponds s₁ s₂ f₁.1.place f₁.2 f₂.2

section

variable {variants₁ variants₂ : List VariantPlan}
  (h : variants₁.map VariantPlan.place = variants₂.map VariantPlan.place)

include h

lemma spreadUnion_none_corresponds :
    List.Forall₂ (FieldCorresponds s₁ s₂) (spreadUnion variants₁ none)
      (spreadUnion variants₂ none) := by
  induction variants₁ generalizing variants₂ with
  | nil =>
    rw [map_eq_nil_iff.mp h.symm]
    exact .nil
  | cons variant₁ variants₁ ih =>
    obtain ⟨variant₂, variants₂, rfl, hplace, hrest⟩ := map_eq_cons_iff.mp h.symm
    exact .cons ⟨hplace.symm, .absent rfl⟩ (ih hrest.symm)

lemma spreadUnion_some_corresponds {number : Nat} {kind : ValueKind} {v₁ v₂ : Value}
    (hkind : (variants₁.find? fun v => v.field.number == number).map VariantPlan.kind = some kind)
    (hv : Corresponds s₁ s₂ kind v₁ v₂) :
    List.Forall₂ (FieldCorresponds s₁ s₂) (spreadUnion variants₁ (some (number, v₁)))
      (spreadUnion variants₂ (some (number, v₂))) := by
  induction variants₁ generalizing variants₂ with
  | nil => cases hkind
  | cons variant₁ variants₁ ih =>
    obtain ⟨variant₂, variants₂, rfl, hplace, hrest⟩ := map_eq_cons_iff.mp h.symm
    have hfield : variant₂.field = variant₁.field := congrArg Place.field hplace
    unfold spreadUnion
    rw [hfield]
    by_cases hnumber : variant₁.field.number = number
    · rw [find?_cons_of_pos (by simpa using hnumber)] at hkind
      cases hkind
      rw [if_pos hnumber, if_pos hnumber]
      exact .cons ⟨hplace.symm, .present rfl hv⟩ (spreadUnion_none_corresponds hrest.symm)
    · rw [find?_cons_of_neg (by simpa using hnumber)] at hkind
      rw [if_neg hnumber, if_neg hnumber]
      exact .cons ⟨hplace.symm, .absent rfl⟩ (ih hrest.symm hkind)

end

lemma MemberCorresponds.kind?_eq {member₁ member₂ : Member} {slot₁ slot₂ : Slot}
    (h : MemberCorresponds s₁ s₂ member₁ member₂ slot₁ slot₂) (number : Nat) :
    member₁.kind? number = member₂.kind? number := by
  have hplaces : member₁.places = member₂.places := by
    cases h with
    | field hplace _ => simp only [Member.places, hplace]
    | unset hplaces | chosen hplaces _ _ => exact hplaces
  rw [Member.kind?_eq_places, Member.kind?_eq_places, hplaces]

lemma MemberCorresponds.spreadMember {member₁ member₂ : Member} {slot₁ slot₂ : Slot}
    (h : MemberCorresponds s₁ s₂ member₁ member₂ slot₁ slot₂) :
    List.Forall₂ (FieldCorresponds s₁ s₂) (spreadMember member₁ slot₁)
      (spreadMember member₂ slot₂) := by
  cases h with
  | field hplace hslot => exact .cons ⟨hplace, hslot⟩ .nil
  | unset hplaces => exact spreadUnion_none_corresponds hplaces
  | chosen hplaces hkind hv => exact spreadUnion_some_corresponds hplaces hkind hv

lemma SlotsCorrespond.spread {members₁ members₂ : List Member} {m₁ m₂ : Message}
    (h : SlotsCorrespond s₁ s₂ members₁ members₂ m₁ m₂) :
    List.Forall₂ (FieldCorresponds s₁ s₂) (spread members₁ m₁) (spread members₂ m₂) := by
  induction h with
  | nil => exact .nil
  | cons hmember _ ih => exact rel_append hmember.spreadMember ih

/-- Messages whose fields are in the same order correspond if the fields do, one by one. -/
lemma MessageCorresponds.of_spread {name : String}
    (hlength₁ : m₁.length = (s₁.members name).length)
    (hlength₂ : m₂.length = (s₂.members name).length)
    (h : List.Forall₂ (FieldCorresponds s₁ s₂) (spread (s₁.members name) m₁)
      (spread (s₂.members name) m₂)) : MessageCorresponds s₁ s₂ name m₁ m₂ := by
  obtain ⟨hlength, hfields⟩ := forall₂_iff_zip.mp h
  exact .intro hlength₁ hlength₂ (List.Perm.refl _) hlength (fun f hf => (hfields hf).1)
    (fun f hf => (hfields hf).2)

/-- Messages whose members correspond one by one correspond field by field. -/
lemma SlotsCorrespond.message {name : String}
    (h : SlotsCorrespond s₁ s₂ (s₁.members name) (s₂.members name) m₁ m₂) :
    MessageCorresponds s₁ s₂ name m₁ m₂ :=
  .of_spread h.length_eq.1 h.length_eq.2 h.spread

/-! ## Values -/

lemma kept_corresponds :
    Kept s₁ s₂ (fun name => SlotsCorrespond s₁ s₂ (s₁.members name) (s₂.members name))
      (Corresponds s₁ s₂) (EntryCorresponds s₁ s₂) (SlotCorresponds s₁ s₂) where
  scalar := .scalar
  choice := .choice
  wrapper := .wrapper
  time := .time
  message h := .message h.message
  both := .both
  missing := .missing
  key h := by
    cases h with
    | both hk _ | missing hk _ _ => exact ⟨_, hk, rfl, rfl⟩
  plain := .plain
  absent := .absent
  present := .present
  repeated_iff {place x₁ x₂} hshape := by
    constructor
    · intro h
      cases h with
      | repeated _ hlength hvs =>
        exact ⟨_, _, rfl, rfl, forall₂_iff_zip.mpr ⟨hlength, fun hv => hvs _ hv⟩⟩
      | plain hother | absent hother | present hother | map hother => simp [hshape] at hother
    · rintro ⟨vs₁, vs₂, rfl, rfl, h⟩
      obtain ⟨hlength, hvs⟩ := forall₂_iff_zip.mp h
      exact .repeated hshape hlength fun v hv => hvs hv
  map_iff {place x₁ x₂ entry key value t} hshape hkey := by
    constructor
    · intro h
      cases h with
      | map hmap hscalar hlength hes =>
        rw [hshape] at hmap
        cases hmap
        rw [hkey] at hscalar
        cases hscalar
        exact ⟨_, _, rfl, rfl, forall₂_iff_zip.mpr ⟨hlength, fun he => hes _ he⟩⟩
      | plain hother | absent hother | present hother | repeated hother => simp [hshape] at hother
    · rintro ⟨es₁, es₂, rfl, rfl, h⟩
      obtain ⟨hlength, hes⟩ := forall₂_iff_zip.mp h
      exact .map hshape hkey hlength fun e he => hes he

lemma entryOf?_singleton (slot : Slot) : entryOf? missing [slot] = none := by
  cases slot with
  | plain v => cases v <;> rfl
  | _ => rfl

lemma entryOf?_union (v : Value) (choice : Option (Nat × Value)) (slots : List Slot) :
    entryOf? missing (.plain v :: .union choice :: slots) = none := by
  cases v <;> rfl

/-! ## Messages in which nothing was set -/

section

variable {files : List Descriptor.File} {o₁ o₂ : Options} (h₁ : Schema.ofFiles files o₁ = .ok s₁)
  (h₂ : Schema.ofFiles files o₂ = .ok s₂) (hoptions : o₁.oneofs = o₂.oneofs)

include h₁ h₂ hoptions

lemma zero_corresponds (name : String) :
    SlotsCorrespond s₁ s₂ (s₁.members name) (s₂.members name) (s₁.zero name) (s₂.zero name) := by
  have hsame := Schema.ofFiles_samePlaces h₁ h₂ name hoptions
  have hplan : ∀ p, .field p ∈ s₁.members name → s₁.WellPlanned p :=
    fun p hp => Schema.ofFiles_wellPlanned h₁ hp
  unfold Schema.zero
  generalize s₁.members name = members₁ at hsame hplan
  generalize s₂.members name = members₂ at hsame
  induction hsame with
  | nil => exact .nil
  | cons hmember _ ih =>
    refine .cons ?_ (ih fun p hp => hplan p (by simp [hp]))
    cases hmember with
    | union hplaces => exact .unset hplaces
    | field hplace => exact .field hplace (kept_corresponds.zeroSlot (hplan _ (by simp)) hplace)

/-! ## Map entries -/

/-- Entries of maps that were read as messages correspond, or both are none. -/
lemma entryOf?_corresponds {p key value : FieldPlan} {entry : Schema.TypeRef} {t : Scalar}
    (hplan : s₁.WellPlanned p) (hlayout : p.layout = .map entry key value)
    (hkey : key.kind = .scalar t) {m₁ m₂ : Message}
    (h : SlotsCorrespond s₁ s₂ (s₁.members entry.qualifiedName) (s₂.members entry.qualifiedName)
      m₁ m₂) :
    (entryOf? (s₁.missingValue value.kind) m₁ = none ∧
        entryOf? (s₂.missingValue value.kind) m₂ = none) ∨
      ∃ e₁ e₂, entryOf? (s₁.missingValue value.kind) m₁ = some e₁ ∧
        entryOf? (s₂.missingValue value.kind) m₂ = some e₂ ∧
        EntryCorresponds s₁ s₂ t (value.field, value.kind) e₁ e₂ := by
  have hfields : ∀ k v ms, s₁.members entry.qualifiedName = .field k :: .field v :: ms →
      k = key ∧ v = value := fun _ _ _ hmembers => hplan.entry hlayout hmembers
  generalize s₁.members entry.qualifiedName = members₁ at h hfields
  generalize s₂.members entry.qualifiedName = members₂ at h
  cases h with
  | nil => exact .inl ⟨rfl, rfl⟩
  | cons hfirst hrest =>
    cases hrest with
    | nil => exact .inl ⟨entryOf?_singleton _ _, entryOf?_singleton _ _⟩
    | cons hsecond _ =>
      cases hfirst with
      | unset _ | chosen _ _ _ => exact .inl ⟨rfl, rfl⟩
      | field hplace hslot =>
        cases hslot with
        | plain _ hk =>
          cases hsecond with
          | unset _ | chosen _ _ _ => exact .inl ⟨entryOf?_union _ _ _ _, entryOf?_union _ _ _ _⟩
          | field hplace' hslot' =>
            obtain ⟨rfl, rfl⟩ := hfields _ _ _ rfl
            simp only [FieldPlan.place, hkey] at hk
            cases hk with
            | scalar hk =>
              cases hslot' with
              | plain _ hv | present _ hv => exact .inr ⟨_, _, rfl, rfl, .both hk hv⟩
              | absent hshape =>
                exact .inr ⟨_, _, rfl, rfl,
                  kept_corresponds.missingEntry (zero_corresponds h₁ h₂ hoptions) hk
                    (hplan.missing hlayout (Layout.shape_eq_optional.mp hshape))⟩
              | repeated _ _ _ | map _ _ _ _ => exact .inl ⟨rfl, rfl⟩
        | _ => exact .inl ⟨rfl, rfl⟩

/-! ## Members and messages -/

section

variable {inner₁ inner₂ : MessageReader}
  (hinner : ∀ name length,
    Lockstep (SlotsCorrespond s₁ s₂ (s₁.members name) (s₂.members name)) (inner₁ name length)
      (inner₂ name length))

include hinner

/-- A record is read into the same member, and what the member holds then corresponds. -/
lemma lockstep_readMember {member₁ member₂ : Member} {slot₁ slot₂ : Slot} {number : Nat}
    {kind : ValueKind} (hplan : ∀ p, member₁ = .field p → s₁.WellPlanned p)
    (hkind : member₁.kind? number = some kind)
    (h : MemberCorresponds s₁ s₂ member₁ member₂ slot₁ slot₂) (wireType : Nat) :
    Lockstep (MemberCorresponds s₁ s₂ member₁ member₂)
      (s₁.readMember inner₁ number wireType kind member₁ slot₁)
      (s₂.readMember inner₂ number wireType kind member₂ slot₂) := by
  have hvalue := kept_corresponds.lockstep_readValue hinner kind
  cases h with
  | @field p₁ p₂ _ _ hplace hslot =>
    obtain rfl : p₁.kind = kind := by
      rw [Member.kind?] at hkind
      split_ifs at hkind
      exact Option.some.inj hkind
    have hentries : EntriesKept s₁ s₂ (fun name => SlotsCorrespond s₁ s₂ (s₁.members name)
        (s₂.members name)) (EntryCorresponds s₁ s₂) p₁ := fun hlayout hkey hm =>
      entryOf?_corresponds h₁ h₂ hoptions (hplan p₁ rfl) hlayout hkey hm
    have hfield := kept_corresponds.lockstep_readField hinner (hplan p₁ rfl) hentries hplace hslot
      number wireType
    exact hfield.mono fun _ _ hslot => .field hplace hslot
  | unset hplaces | chosen hplaces _ _ => exact hvalue.map fun _ _ hv => .chosen hplaces hkind hv

lemma lockstep_readRecord {members₁ members₂ : List Member} {m₁ m₂ : Message}
    (hplan : ∀ p, .field p ∈ members₁ → s₁.WellPlanned p)
    (h : SlotsCorrespond s₁ s₂ members₁ members₂ m₁ m₂) (number wireType : Nat) :
    Lockstep (SlotsCorrespond s₁ s₂ members₁ members₂)
      (s₁.readRecord inner₁ number wireType members₁ m₁)
      (s₂.readRecord inner₂ number wireType members₂ m₂) := by
  induction h with
  | nil => exact Lockstep.bind_left _ fun _ => .pure .nil
  | @cons member₁ member₂ _ _ _ _ _ _ hmember hrest ih =>
    have hkinds := hmember.kind?_eq number
    unfold Schema.readRecord
    cases hkind : member₁.kind? number with
    | some kind =>
      simp only [← hkinds, hkind]
      refine (lockstep_readMember h₁ h₂ hoptions hinner ?_ hkind hmember wireType).map
        fun _ _ hslot => .cons hslot hrest
      rintro p rfl
      exact hplan p (by simp)
    | none =>
      simp only [← hkinds, hkind]
      exact (ih fun p hp => hplan p (by simp [hp])).map fun _ _ hslots => .cons hmember hslots

end

lemma lockstep_readWithin (levels : Nat) (name : String) (length : Option Nat) :
    Lockstep (SlotsCorrespond s₁ s₂ (s₁.members name) (s₂.members name))
      (s₁.readWithin levels name length) (s₂.readWithin levels name length) := by
  induction levels generalizing name length with
  | zero => exact fun r => .inl ⟨_, r, rfl, rfl⟩
  | succ levels ih =>
    refine Lockstep.frame (fun number wireType m₁ m₂ hm => ?_) length
      (zero_corresponds h₁ h₂ hoptions name)
    exact lockstep_readRecord h₁ h₂ hoptions ih
      (fun p hp => Schema.ofFiles_wellPlanned h₁ hp) hm number wireType

end

end Protobuf.Codec
