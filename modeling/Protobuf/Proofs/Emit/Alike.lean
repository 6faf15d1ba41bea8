import Protobuf.Build.Generation
import Protobuf.Proofs.Plan.Alike

/-!
# What generated source depends on

Plans and services read the registry, the text of items does not: it follows from
the plans. So a file is generated alike from registries that answer alike.
-/

namespace Protobuf

open Protobuf.Schema Plan Emit

namespace Plan.Scope

def withRegistry (s : Scope) (r : Registry) : Scope :=
  { s with registry := r }

variable {s : Scope} {r : Registry} (h : r.Alike s.registry)

include h

lemma withRegistry_alike : (s.withRegistry r).Alike s :=
  ⟨h, rfl, rfl, rfl⟩

lemma withRegistry_resolve (name referencedBy : String) :
    (s.withRegistry r).registry.resolve name referencedBy =
      s.registry.resolve name referencedBy :=
  h.resolve_eq name referencedBy

/-! ## Services -/

lemma withRegistry_soleRepeated? (message referencedBy : String) :
    (s.withRegistry r).soleRepeated? message referencedBy =
      s.soleRepeated? message referencedBy := by
  simp only [soleRepeated?, withRegistry_resolve h, (withRegistry_alike h).planField_eq]

lemma withRegistry_accessorOf? (service : Service) (fullName : String) (method : Method)
    (item : String) (input output : FieldPlan) :
    (s.withRegistry r).accessorOf? service fullName method item input output =
      s.accessorOf? service fullName method item input output := by
  unfold accessorOf?
  simp only [withRegistry_resolve h]
  rfl

lemma withRegistry_batchOf? (service : Service) (fullName : String) (method : Method) :
    (s.withRegistry r).batchOf? service fullName method = s.batchOf? service fullName method := by
  simp only [batchOf?, withRegistry_soleRepeated? h, withRegistry_accessorOf? h]

lemma withRegistry_planMethod (fullName : String) (method : Method) :
    (s.withRegistry r).planMethod fullName method = s.planMethod fullName method := by
  unfold planMethod
  simp only [withRegistry_resolve h]
  rfl

lemma withRegistry_planService (package : String) (service : Service) :
    (s.withRegistry r).planService package service = s.planService package service := by
  have hmethods (fullName : String) (methods : List Method) :
      (s.withRegistry r).planMethods service fullName methods =
        s.planMethods service fullName methods := by
    induction methods with
    | nil => rfl
    | cons method methods ih =>
      have hoptions : (s.withRegistry r).options = s.options := rfl
      simp only [planMethods, hoptions, withRegistry_planMethod h, withRegistry_batchOf? h, ih]
  simp only [planService, hmethods]

end Plan.Scope

namespace Emit

/-! ## Items -/

section

variable {s : Scope} {r : Registry} (h : r.Alike s.registry)

include h

lemma emitEnum_withRegistry (qualified referencedBy : String) (e : Enum) :
    emitEnum (s.withRegistry r) qualified referencedBy e = emitEnum s qualified referencedBy e := by
  unfold emitEnum
  simp only [Scope.withRegistry_resolve h]
  rfl

lemma emitOwn_withRegistry (qualified referencedBy : String) (m : Message) :
    emitOwn (s.withRegistry r) qualified referencedBy m = emitOwn s qualified referencedBy m := by
  unfold emitOwn
  simp only [Scope.withRegistry_resolve h, (Scope.withRegistry_alike h).members_eq]
  rfl

lemma emitServices_withRegistry (package : String) (services : List Service) :
    emitServices (s.withRegistry r) package services = emitServices s package services := by
  have hservice (service : Service) :
      emitService (s.withRegistry r) package service = emitService s package service := by
    unfold emitService
    simp only [Scope.withRegistry_planService h]
    rfl
  induction services with
  | nil => rfl
  | cons service services ih => simp only [emitServices, hservice, ih]

end

mutual

theorem emitMessage_withRegistry {s : Scope} {r : Registry} (h : r.Alike s.registry) :
    ∀ (qualified referencedBy : String) (m : Message),
      emitMessage (s.withRegistry r) qualified referencedBy m =
        emitMessage s qualified referencedBy m
  | qualified, referencedBy, ⟨name, fields, messages, enums, oneofs, isMapEntry, path⟩ => by
    simp only [emitMessage, emitEnum_withRegistry h, emitOwn_withRegistry h,
      emitMessages_withRegistry h qualified qualified messages]

theorem emitMessages_withRegistry {s : Scope} {r : Registry} (h : r.Alike s.registry) :
    ∀ (scope referencedBy : String) (messages : List Message),
      emitMessages (s.withRegistry r) scope referencedBy messages =
        emitMessages s scope referencedBy messages
  | _, _, [] => by simp only [emitMessages]
  | scope, referencedBy, m :: messages => by
    simp only [emitMessages, emitMessage_withRegistry h (qualify scope m.name) referencedBy m,
      emitMessages_withRegistry h scope referencedBy messages]

end

lemma generateFile_eq {r₁ r₂ : Registry} (h : r₁.Alike r₂) (o : Options) (f : File) :
    generateFile r₁ o f = generateFile r₂ o f := by
  let s : Scope := ⟨r₂, o, Naming.moduleSegments f.path, f.comments⟩
  have hscope : (⟨r₁, o, Naming.moduleSegments f.path, f.comments⟩ : Scope) = s.withRegistry r₁ :=
    rfl
  have hs : r₁.Alike s.registry := h
  simp only [generateFile, hscope, emitEnum_withRegistry hs, emitMessages_withRegistry hs,
    emitServices_withRegistry hs]
  rfl

end Emit

end Protobuf
