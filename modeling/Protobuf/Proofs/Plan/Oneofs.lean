import Protobuf.Proofs.Plan.Places

/-!
# Siblings and unions

The members of a oneof are held as fields of their own or together in one union.
Either way a message has the same places. They stand in another order if the members
of a oneof are not declared next to each other.
-/

open List

namespace Protobuf.Plan

open Protobuf.Schema

namespace Scope

variable {s s' : Scope} {ref : TypeRef} {message : Message}

lemma planUnion_group {group : Nat} {oneof : Oneof} {u : UnionPlan}
    (h : s.planUnion ref message group oneof = .ok u) :
    u.group = group ∧ u.variants.map VariantPlan.field = message.oneofMembers group := by
  have hfields := (planUnion_places h).1
  rw [Member.places, map_map] at hfields
  exact ⟨(planUnion_eq_ok h).1, hfields⟩

lemma planMembers_siblings (hoptions : s.options.oneofs = .siblings) {ms : List Member}
    (h : s.planMembers ref message [] message.fields = .ok ms) : ∀ m ∈ ms, ∃ p, m = .field p := by
  intro m hm
  rcases planMembers_mem (fun _ hf => hf) h m hm with
    ⟨p, -, -, heq, -⟩ | ⟨u, group, oneof, -, -, f, hunion⟩
  · exact ⟨p, heq⟩
  · have hother := (unionOf?_eq_some.mp hunion).1
    simp [hoptions] at hother

/-- With unions, only fields outside of oneofs are members of their own. -/
lemma planMembers_union (hoptions : s.options.oneofs = .union) (hchecked : message.Checked)
    {ms : List Member} (h : s.planMembers ref message [] message.fields = .ok ms) :
    ∀ p, .field p ∈ ms → p.field.oneof = none := by
  intro p hp
  rcases planMembers_mem (fun _ hf => hf) h _ hp with
    ⟨q, f, hf, heq, hplan, hnone⟩ | ⟨u, group, oneof, heq, -⟩
  · cases heq
    rw [planField_field hplan, ← unionGroup_of_union hoptions hchecked hf, unionGroup, hnone]
    rfl
  · cases heq

lemma unionOrder_perm (placed : List Nat) (fields : List Field) :
    (unionOrder placed fields).Perm (fields.filter (isUnplaced placed)) := by
  induction fields generalizing placed with
  | nil => exact .refl _
  | cons f fields ih =>
    unfold unionOrder
    cases hgroup : f.oneof with
    | none =>
      have hkept : isUnplaced placed f := by simp [isUnplaced, hgroup]
      rw [filter_cons_of_pos hkept]
      exact (ih placed).cons f
    | some group =>
      by_cases hplaced : group ∈ placed
      · have hleft : ¬ isUnplaced placed f := by simp [isUnplaced, hgroup, hplaced]
        simp only [if_pos hplaced, filter_cons_of_neg hleft]
        exact ih placed
      · have hmembers : ((f :: fields).filter (isUnplaced placed)).filter
            (fun g => g.oneof == some group) =
            (f :: fields).filter fun g => g.oneof == some group := by
          rw [filter_filter]
          refine filter_congr fun g _ => ?_
          by_cases hg : g.oneof = some group
          · simp [isUnplaced, hg, hplaced]
          · simp [beq_eq_false_iff_ne.mpr hg]
        have hothers : ((f :: fields).filter (isUnplaced placed)).filter
            (fun g => !(g.oneof == some group)) =
            fields.filter (isUnplaced (group :: placed)) := by
          rw [filter_filter, filter_cons_of_neg (by simp [hgroup])]
          refine filter_congr fun g _ => ?_
          cases hg : g.oneof with
          | none => simp [isUnplaced, hg]
          | some other => simp [isUnplaced, hg, Bool.beq_eq_decide_eq]
        simp only [if_neg hplaced]
        refine (List.Perm.append_left _ (ih (group :: placed))).trans ?_
        rw [← hmembers, ← hothers]
        exact filter_append_perm _ _

/-- The places of a message are those of its fields, in whatever order. -/
lemma planMembers_perm (hchecked : message.Checked) {ms : List Member}
    (h : s.planMembers ref message [] message.fields = .ok ms) :
    ((ms.flatMap Member.places).map Place.field).Perm message.fields := by
  cases hoptions : s.options.oneofs with
  | siblings => rw [planMembers_fields_of_siblings hoptions h]
  | union =>
    have hall : message.fields.filter (isUnplaced []) = message.fields :=
      filter_eq_self.mpr fun f _ => by cases hf : f.oneof <;> simp [isUnplaced, hf]
    rw [planMembers_fields_of_union hoptions hchecked h]
    have hperm := unionOrder_perm [] message.fields
    rwa [hall] at hperm

lemma places_perm (hregistry : s.registry = s'.registry) {owner : String}
    {places places' : List Place}
    (hfields : (places.map Place.field).Perm (places'.map Place.field))
    (h : ∀ place ∈ places, s.PlacedAt owner place)
    (h' : ∀ place ∈ places', s'.PlacedAt owner place) : places.Perm places' := by
  obtain ⟨ordered, hordered, heq⟩ := exists_eq_map_of_perm_map hfields
  have hsame : places = ordered :=
    places_eq hregistry heq h fun place hplace => h' place (hordered.mem_iff.mpr hplace)
  rw [hsame]
  exact hordered.symm

end Scope

end Protobuf.Plan

namespace Protobuf.Codec.Schema

open Plan Protobuf.Schema

variable {files : List Descriptor.File} {options o₁ o₂ : Options} {s s₁ s₂ : Schema}
  {name : String}

lemma ofFiles_places_perm (h₁ : ofFiles files o₁ = .ok s₁) (h₂ : ofFiles files o₂ = .ok s₂)
    (name : String) :
    ((s₁.members name).flatMap Member.places).Perm ((s₂.members name).flatMap Member.places) := by
  rcases ofFiles_members_pair h₁ h₂ name with ⟨hnil₁, hnil₂⟩ |
    ⟨checked, e, m, -, -, -, hchecked, hplanned₁, hplanned₂⟩
  · rw [hnil₁, hnil₂]
  · have hfields₁ := Scope.planMembers_perm hchecked hplanned₁
    have hfields₂ := Scope.planMembers_perm hchecked hplanned₂
    exact Scope.places_perm (Scope.ofChecked_registry checked o₁ o₂)
      (hfields₁.trans hfields₂.symm) (Scope.planMembers_place hplanned₁)
      (Scope.planMembers_place hplanned₂)

section

variable (h : ofFiles files options = .ok s)

include h

lemma ofFiles_siblings (hoptions : options.oneofs = .siblings) :
    ∀ m ∈ s.members name, ∃ p, m = .field p := by
  rcases ofFiles_members_pair h h name with ⟨hnil, -⟩ | ⟨checked, e, m, -, -, -, -, hplanned, -⟩
  · simp [hnil]
  · exact Scope.planMembers_siblings hoptions hplanned

lemma ofFiles_union (hoptions : options.oneofs = .union) :
    ∀ p, .field p ∈ s.members name → p.field.oneof = none := by
  rcases ofFiles_members_pair h h name with ⟨hnil, -⟩ |
    ⟨checked, e, m, -, -, -, hchecked, hplanned, -⟩
  · simp [hnil]
  · exact Scope.planMembers_union hoptions hchecked hplanned

/-- A union has all members of its oneof, so that two unions of one oneof have the same. -/
lemma ofFiles_variants : ∃ members : Nat → List Field,
    (∀ group, ∀ f ∈ members group, f.oneof = some group) ∧
      ∀ u, .union u ∈ s.members name → u.variants.map VariantPlan.field = members u.group := by
  rcases ofFiles_members_pair h h name with ⟨hnil, -⟩ |
    ⟨checked, e, m, -, -, -, hchecked, hplanned, -⟩
  · exact ⟨fun _ => [], by simp, by simp [hnil]⟩
  · refine ⟨m.oneofMembers, fun group f hf => ?_, fun u hu => ?_⟩
    · simpa using (mem_filter.mp hf).2
    · rcases Scope.planMembers_mem (fun _ hf => hf) hplanned _ hu with
        ⟨p, f, -, heq, -⟩ | ⟨u', group, oneof, heq, hplan, -⟩
      · cases heq
      · cases heq
        obtain ⟨hgroup, hvariants⟩ := Scope.planUnion_group hplan
        rw [hvariants, hgroup]

end

end Protobuf.Codec.Schema
