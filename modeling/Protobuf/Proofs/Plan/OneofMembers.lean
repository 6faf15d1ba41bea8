import Protobuf.Plan.Types
import Protobuf.Proofs.Plan.Oneofs
import Protobuf.Sample.Declare

/-!
# The member that holds a field

Planning goes through the fields of a message once and leaves out those whose union
stands already. Whatever the order of the fields, each of them is held by one member.
-/

open List

namespace Protobuf.Schema

/-- A field of a message from a descriptor belongs to no oneof if it is optional on its own. -/
lemma checkMessage_proto3Optional {scope : String} {path : SourcePath} {d : Descriptor.Message}
    {m : Message} (h : checkMessage scope path d = .ok m) :
    ∀ f ∈ m.fields, f.proto3Optional → f.oneof = none := by
  obtain ⟨name, fields, messages, enums, oneofs, mapEntry⟩ := d
  obtain ⟨fields', -, hfields, -, -, rfl⟩ := checkMessage_eq_ok h
  intro f hf hoptional
  obtain ⟨⟨p, d⟩, -, hd⟩ := exists_of_mem_mapM hfields f hf
  exact (checkField_eq_ok hd).2.2 hoptional

/-- Whether a field of a message belongs to no oneof or is the first one of its oneof. -/
def Message.isLeading (m : Message) (f : Field) : Bool :=
  f.oneof.all fun group => (m.oneofMembers group).head? == some f

end Protobuf.Schema

namespace Protobuf.Plan

open Protobuf.Schema

/-- A field is a member of its own, or starts the union of its oneof. -/
inductive Starts (m : Message) : Field → Member → Prop
  | field {p : FieldPlan} : p.field.oneof = none → Starts m p.field (.field p)
  | union {f : Field} {u : UnionPlan} : f.oneof = some u.group →
      u.variants.map VariantPlan.field = m.oneofMembers u.group → Starts m f (.union u)

namespace Scope

variable {s : Scope} {ref : TypeRef} {message : Message} {ms : List Member}

lemma leading_eq_filter {fields : List Field} (hnodup : fields.Nodup) (placed : List Nat) :
    leading Field.oneof placed fields = fields.filter fun f => f.oneof.all fun group =>
      group ∉ placed ∧ (fields.filter (·.oneof == some group)).head? = some f := by
  induction fields generalizing placed with
  | nil => rfl
  | cons f fields ih =>
    obtain ⟨hf, hnodup⟩ := nodup_cons.mp hnodup
    cases hgroup : f.oneof with
    | none =>
      simp only [leading, hgroup, ih hnodup]
      grind
    | some group =>
      by_cases hplaced : group ∈ placed
      · simp only [leading, hgroup, hplaced, if_true, ih hnodup]
        grind
      · simp only [leading, hgroup, hplaced, if_false, ih hnodup]
        rw [filter_cons_of_pos (by simp [hgroup, hplaced])]
        refine congrArg (f :: ·) (filter_congr fun g hg => ?_)
        grind

/-- With unions, members go with the fields that start them, in the order of these. -/
lemma planMembers_starts (hoptions : s.options.oneofs = .union) (hchecked : message.Checked)
    (h : s.planMembers ref message [] message.fields = .ok ms) :
    List.Forall₂ (Starts message) (message.fields.filter message.isLeading) ms := by
  have hleading : leading Field.oneof [] message.fields =
      message.fields.filter message.isLeading := by
    rw [leading_eq_filter hchecked.nodup]
    refine filter_congr fun f _ => ?_
    simp [Message.isLeading, Message.oneofMembers, Bool.beq_eq_decide_eq]
  have hstarts := planMembers_of_union hoptions hchecked h
  rw [hleading] at hstarts
  refine (forall₂_and_left ..).mpr
    ⟨fun f hf => mem_of_mem_filter hf, hstarts⟩ |>.imp fun f m ⟨hf, hm⟩ => ?_
  have hgroup := unionGroup_of_union hoptions hchecked hf
  rcases planMember_eq_ok hm with ⟨p, hnone, hp, rfl⟩ | ⟨u, group, oneof, hunion, hu, rfl⟩
  · rw [unionGroup, hnone, ← planField_field hp] at hgroup
    rw [← planField_field hp]
    exact .field hgroup.symm
  · obtain ⟨rfl, hvariants⟩ := planUnion_group hu
    rw [unionGroup, hunion] at hgroup
    exact .union hgroup.symm hvariants

lemma exists_filter_eq_singleton (hchecked : message.Checked)
    (h : s.planMembers ref message [] message.fields = .ok ms) {f : Field}
    (hf : f ∈ message.fields) :
    ∃ m, ms.filter (fun m => f ∈ m.places.map Place.field) = [m] := by
  have hperm := planMembers_perm hchecked h
  rw [map_flatMap] at hperm
  obtain ⟨-, hdisjoint⟩ := nodup_flatMap.mp (hperm.nodup_iff.mpr hchecked.nodup)
  obtain ⟨m, hm, hfm⟩ := mem_flatMap.mp (hperm.mem_iff.mpr hf)
  obtain ⟨before, after, rfl⟩ := append_of_mem hm
  obtain ⟨-, hafter, hbefore⟩ := pairwise_append.mp hdisjoint
  refine ⟨m, ?_⟩
  rw [filter_append, filter_cons_of_pos (by simpa using hfm),
    filter_eq_nil_iff.mpr, filter_eq_nil_iff.mpr, nil_append]
  · intro other hother hfother
    exact (pairwise_cons.mp hafter).1 other hother hfm (of_decide_eq_true hfother)
  · intro other hother hfother
    exact hbefore other hother m (by simp) (of_decide_eq_true hfother) hfm

lemma holdsField_eq (hnumbers : (message.fields.map Field.number).Nodup)
    (h : s.planMembers ref message [] message.fields = .ok ms) {f : Field}
    (hf : f ∈ message.fields) :
    ∀ m ∈ ms, holdsField f m = decide (f ∈ m.places.map Place.field) := by
  intro m hm
  rcases planMembers_mem (fun _ hf => hf) h m hm with
    ⟨p, g, hg, rfl, hp, -⟩ | ⟨u, group, oneof, rfl, hu, -⟩
  · have hfield := planField_field hp
    have hinj : g.number = f.number ↔ f = g :=
      ⟨fun heq => inj_on_of_nodup_map hnumbers hf hg heq.symm, fun heq => heq ▸ rfl⟩
    simp [holdsField, Member.places, FieldPlan.place, hfield, Bool.beq_eq_decide_eq, hinj]
  · obtain ⟨rfl, -⟩ := planUnion_group hu
    rw [(planUnion_places hu).1]
    simp [holdsField, Message.oneofMembers, hf, Bool.beq_eq_decide_eq]

/-- No field of a checked message is lost or held twice. If oneofs are siblings, the members are the
fields. If they are unions, each one stands where its first field does and has all its fields, and
the other fields are members of their own, all in the order of declaration. A field is mapped to the
property of the one member that holds it. -/
theorem members_hold_fields {scope : String} {path : SourcePath} {d : Descriptor.Message}
    {m : Message} (hcheck : checkMessage scope path d = .ok m)
    (hnumbers : (m.fields.map Field.number).Nodup) {s : Scope} {owner : String}
    {members : List Member} (h : s.members m owner = .ok members) :
    (s.options.oneofs = .siblings →
      List.Forall₂ (fun f member => ∃ p, member = .field p ∧ p.field = f) m.fields members) ∧
    (s.options.oneofs = .union →
      List.Forall₂ (Starts m) (m.fields.filter m.isLeading) members) ∧
    ∀ f ∈ m.fields, (f.proto3Optional = true → f.oneof = none) ∧
      ∃ member, members.filter (fun other => f ∈ other.places.map Place.field) = [member] ∧
        s.mapField f m owner = s.property member := by
  have hchecked := checkMessage_checked hcheck
  obtain ⟨e, he, hplanned⟩ := ok_of_bind h
  refine ⟨fun hoptions => ?_, fun hoptions => planMembers_starts hoptions hchecked hplanned,
    fun f hf => ⟨checkMessage_proto3Optional hcheck f hf, ?_⟩⟩
  · rw [planMembers_eq_ok, leading_of_siblings hoptions] at hplanned
    refine hplanned.imp fun f member hmember => ?_
    rcases planMember_eq_ok hmember with ⟨p, -, hp, rfl⟩ | ⟨u, group, oneof, hunion, -, -⟩
    · exact ⟨p, rfl, planField_field hp⟩
    · have hother := (unionOf?_eq_some.mp hunion).1
      simp [hoptions] at hother
  · obtain ⟨member, hmember⟩ := exists_filter_eq_singleton hchecked hplanned hf
    refine ⟨member, hmember, ?_⟩
    have hfind : members.find? (holdsField f) = some member := by
      rw [← List.head?_filter, List.filter_congr (holdsField_eq hnumbers hplanned hf), hmember]
      rfl
    simp only [mapField, h, bind, Except.bind, hfind]

/-- A message with another field between those of a oneof. -/
private def mixed : Descriptor.Message :=
  { name := "Mixed"
    fields := [Sample.memberOf 0 (Sample.scalar .int32 "first" 1),
      Sample.tracked 1 (Sample.scalar .bool "between" 2),
      Sample.memberOf 0 (Sample.scalar .int64 "last" 3)]
    oneofs := ["kind", "_between"] }

private def scopeOf (m : Message) : Scope :=
  ⟨⟨[⟨⟨["mixed"], "", m.name, qualify "" m.name⟩, .message m⟩]⟩, { oneofs := .union }, [], .empty⟩

/-- The oneof stands before the field that is declared between its fields. -/
theorem members_hold_fields_mixed : ∃ m members, checkMessage "" [4, 0] mixed = .ok m ∧
    (scopeOf m).members m ".Mixed" = .ok members ∧ members.length = 2 ∧
    List.Forall₂ (Starts m) (m.fields.filter m.isLeading) members ∧
    ∀ f ∈ m.fields, ∃ member,
      members.filter (fun other => f ∈ other.places.map Place.field) = [member] ∧
        (scopeOf m).mapField f m ".Mixed" = (scopeOf m).property member := by
  have hok : (checkMessage "" [4, 0] mixed).toOption.any (fun m =>
      (m.fields.map Field.number).Nodup &&
        ((scopeOf m).members m ".Mixed").toOption.any fun members => members.length = 2) = true := by
    decide +kernel
  obtain ⟨m, hm, hok⟩ := exists_ok_of_any hok
  rw [Bool.and_eq_true, decide_eq_true_iff] at hok
  obtain ⟨members, hmembers, hlength⟩ := exists_ok_of_any hok.2
  obtain ⟨-, hunion, hfields⟩ := members_hold_fields hm hok.1 hmembers
  exact ⟨m, members, hm, hmembers, of_decide_eq_true hlength, hunion rfl,
    fun f hf => (hfields f hf).2⟩

end Scope

end Protobuf.Plan
