import Protobuf.Plan.Field
import Protobuf.Proofs.Schema.Registry

/-!
# What plans depend on

Planning reads a registry by looking names up, by its size and by walking from type
to type, and of the options it reads the three that names, unset fields and oneofs
depend on. Where scopes agree in that they give the same plans, whatever the order
in which types were registered.
-/

namespace Protobuf

section

variable {α : Type} {key : α → String} {as bs : List α}

lemma find?_eq_some_iff_mem (hnodup : (as.map key).Nodup) (name : String) (a : α) :
    as.find? (fun a => key a == name) = some a ↔ a ∈ as ∧ key a = name := by
  constructor
  · intro h
    exact ⟨List.mem_of_find?_eq_some h, by simpa using List.find?_some h⟩
  · rintro ⟨ha, rfl⟩
    obtain ⟨b, hb⟩ : ∃ b, as.find? (fun b => key b == key a) = some b := by
      rw [← Option.isSome_iff_exists, List.find?_isSome]
      exact ⟨a, ha, by simp⟩
    have hname : key b = key a := by simpa using List.find?_some hb
    rw [hb, List.inj_on_of_nodup_map hnodup (List.mem_of_find?_eq_some hb) ha hname]

lemma find?_eq_of_perm (h : as.Perm bs) (hnodup : (as.map key).Nodup) (name : String) :
    as.find? (fun a => key a == name) = bs.find? (fun a => key a == name) := by
  have hnodup' : (bs.map key).Nodup := (h.map key).nodup_iff.mp hnodup
  apply Option.ext
  intro a
  rw [find?_eq_some_iff_mem hnodup, find?_eq_some_iff_mem hnodup', h.mem_iff]

end

namespace Schema.Registry

structure Alike (r₁ r₂ : Registry) : Prop where
  find?_eq : ∀ name, r₁.find? name = r₂.find? name
  size_eq : r₁.size = r₂.size
  walkBound_eq : r₁.walkBound = r₂.walkBound

namespace Alike

lemma refl (r : Registry) : Alike r r := ⟨fun _ => rfl, rfl, rfl⟩

variable {r₁ r₂ : Registry} (h : Alike r₁ r₂)

include h

lemma resolve_eq (name referencedBy : String) :
    r₁.resolve name referencedBy = r₂.resolve name referencedBy := by
  unfold resolve
  rw [h.find?_eq]

lemma reaches_eq (owner : String) (fuel : Nat) (seen stack : List String) :
    r₁.reaches owner fuel seen stack = r₂.reaches owner fuel seen stack := by
  have hsuccessors (name : String) : r₁.successors name = r₂.successors name := by
    unfold successors
    rw [h.find?_eq]
  induction fuel generalizing seen stack with
  | zero => rfl
  | succ fuel ih =>
    cases stack with
    | nil => rfl
    | cons name stack => simp only [reaches, hsuccessors, ih]

lemma isRecursive_eq (owner target : String) :
    r₁.isRecursive owner target = r₂.isRecursive owner target := by
  unfold isRecursive
  rw [h.walkBound_eq, h.reaches_eq]

end Alike

/-- Registries with the same entries answer alike, whatever the order of the entries. -/
lemma Alike.of_perm {r₁ r₂ : Registry} (h : r₁.entries.Perm r₂.entries)
    (hnodup : (r₁.entries.map fun e => e.ref.qualifiedName).Nodup) : Alike r₁ r₂ := by
  have hfind (name : String) : r₁.find? name = r₂.find? name := find?_eq_of_perm h hnodup name
  refine ⟨hfind, h.length_eq, ?_⟩
  have hsuccessors : (fun e : Entry => (r₁.successors e.ref.qualifiedName).length) =
      fun e => (r₂.successors e.ref.qualifiedName).length := by
    funext e
    unfold successors
    rw [hfind]
  unfold walkBound
  rw [hsuccessors]
  exact (h.map _).foldl_eq 2

end Schema.Registry

namespace Plan.Scope

open Protobuf.Schema

/-- The scopes agree in all that plans depend on. -/
structure Alike (s₁ s₂ : Scope) : Prop where
  registry : s₁.registry.Alike s₂.registry
  names_eq : s₁.options.names = s₂.options.names
  optionals_eq : s₁.options.optionals = s₂.options.optionals
  oneofs_eq : s₁.options.oneofs = s₂.options.oneofs

namespace Alike

variable {s₁ s₂ : Scope} (h : Alike s₁ s₂)

include h

lemma fieldLayout_eq (plan : String → Field → Except CompileError FieldPlan) (field : Field)
    (kind : ValueKind) : s₁.fieldLayout plan field kind = s₂.fieldLayout plan field kind := by
  unfold fieldLayout mapEntry?
  simp only [h.registry.find?_eq]

lemma planFieldWith_eq (plan : String → Field → Except CompileError FieldPlan) (owner : String)
    (field : Field) : s₁.planFieldWith plan owner field = s₂.planFieldWith plan owner field := by
  have hkind (referencedBy : String) :
      s₁.valueKind field referencedBy = s₂.valueKind field referencedBy := by
    unfold valueKind
    simp only [h.registry.resolve_eq]
  have hbox (kind : ValueKind) (layout : Layout FieldPlan) :
      s₁.needsBox owner kind layout = s₂.needsBox owner kind layout := by
    unfold needsBox
    simp only [h.registry.isRecursive_eq]
  simp only [planFieldWith, leavesOut, hkind, hbox, h.fieldLayout_eq, h.names_eq, h.optionals_eq]

lemma planField_eq (owner : String) (field : Field) :
    s₁.planField owner field = s₂.planField owner field := by
  have hdepth (depth : Nat) : s₁.planFieldWithin depth = s₂.planFieldWithin depth := by
    induction depth with
    | zero =>
      funext owner field
      exact h.planFieldWith_eq _ owner field
    | succ depth ih =>
      funext owner field
      rw [planFieldWithin, planFieldWithin, ih]
      exact h.planFieldWith_eq _ owner field
  rw [planField, planField, h.registry.size_eq, hdepth]

lemma planUnion_eq (owner : TypeRef) (message : Message) (group : Nat) (oneof : Oneof) :
    s₁.planUnion owner message group oneof = s₂.planUnion owner message group oneof := by
  have hvariant : s₁.planVariant owner = s₂.planVariant owner := by
    funext field
    simp only [planVariant, h.planField_eq]
  simp only [planUnion, hvariant]

lemma planMembers_eq (owner : TypeRef) (message : Message) (placed : List Nat)
    (fields : List Field) :
    s₁.planMembers owner message placed fields = s₂.planMembers owner message placed fields := by
  have hunion (field : Field) : s₁.unionOf? message field = s₂.unionOf? message field := by
    unfold unionOf?
    rw [h.oneofs_eq]
  induction fields generalizing placed with
  | nil => rfl
  | cons field fields ih => simp only [planMembers, hunion, h.planUnion_eq, h.planField_eq, ih]

lemma members_eq (message : Message) (owner : String) :
    s₁.members message owner = s₂.members message owner := by
  simp only [members, h.registry.resolve_eq, h.planMembers_eq]

end Alike

end Plan.Scope

end Protobuf
