import Protobuf.Proofs.Plan.Members

/-!
# What options leave alone in a plan

Options give names to the fields of a message and decide whether the members of a
oneof share one property. The rest of a plan, the places of the fields, is the same
under all options. So is the order of the places, if the members of every oneof
stand next to each other: a union stands where its first member does.
-/

/-- Whether a field with one value tells a value that was not set from zero. -/
def Protobuf.Schema.Field.tracksPresence (f : Field) : Bool :=
  f.oneof.isSome || f.proto3Optional

open List

namespace Protobuf.Plan

open Protobuf.Schema

/-- How the values of a field are held; of a map, the fields of its entries with their kinds. -/
inductive Shape where
  | plain
  | optional
  | repeated
  | map (entry : TypeRef) (key value : Field × ValueKind)
  deriving DecidableEq

/-- What a plan says of a field under all options. -/
structure Place where
  field : Field
  kind : ValueKind
  shape : Shape
  deriving DecidableEq

def Layout.shape : Layout FieldPlan → Shape
  | .plain => .plain
  | .optional => .optional
  | .repeated => .repeated
  | .map entry key value => .map entry (key.field, key.kind) (value.field, value.kind)

variable {layout : Layout FieldPlan}

lemma Layout.shape_eq_plain : layout.shape = .plain ↔ layout = .plain := by
  cases layout <;> simp [shape]

lemma Layout.shape_eq_optional : layout.shape = .optional ↔ layout = .optional := by
  cases layout <;> simp [shape]

lemma Layout.shape_eq_repeated : layout.shape = .repeated ↔ layout = .repeated := by
  cases layout <;> simp [shape]

lemma Layout.shape_eq_map {entry : TypeRef} {key value : Field × ValueKind}
    (h : layout.shape = .map entry key value) :
    ∃ k v, layout = .map entry k v ∧ key = (k.field, k.kind) ∧ value = (v.field, v.kind) := by
  cases layout with
  | map entry k v =>
    cases h
    exact ⟨k, v, rfl, rfl, rfl⟩
  | _ => cases h

def FieldPlan.place (p : FieldPlan) : Place :=
  ⟨p.field, p.kind, p.layout.shape⟩

/-- Fields in the same place are held in the same layout; those of a map have entries with the same
fields. -/
lemma FieldPlan.layouts_of_place {p q : FieldPlan} (h : p.place = q.place) :
    (p.layout = .plain ∧ q.layout = .plain) ∨ (p.layout = .optional ∧ q.layout = .optional) ∨
      (p.layout = .repeated ∧ q.layout = .repeated) ∨
      ∃ entry k v k' v', p.layout = .map entry k v ∧ q.layout = .map entry k' v' ∧
        (k.field, k.kind) = (k'.field, k'.kind) ∧ (v.field, v.kind) = (v'.field, v'.kind) := by
  have hshape : q.layout.shape = p.layout.shape := congrArg Place.shape h.symm
  cases hp : p.layout with
  | plain => exact .inl ⟨rfl, Layout.shape_eq_plain.mp (by rw [hshape, hp]; rfl)⟩
  | optional => exact .inr (.inl ⟨rfl, Layout.shape_eq_optional.mp (by rw [hshape, hp]; rfl)⟩)
  | repeated =>
    exact .inr (.inr (.inl ⟨rfl, Layout.shape_eq_repeated.mp (by rw [hshape, hp]; rfl)⟩))
  | map entry k v =>
    rw [hp] at hshape
    obtain ⟨k', v', hq, hk, hv⟩ := Layout.shape_eq_map hshape
    exact .inr (.inr (.inr ⟨entry, k, v, k', v', rfl, hq, hk, hv⟩))

lemma FieldPlan.isPacked_eq_of_place {p q : FieldPlan} (h : p.place = q.place) :
    p.isPacked = q.isPacked := by
  have hkind : p.kind = q.kind := congrArg Place.kind h
  unfold isPacked
  rcases layouts_of_place h with ⟨hp, hq⟩ | ⟨hp, hq⟩ | ⟨hp, hq⟩ | ⟨_, _, _, _, _, hp, hq, -⟩ <;>
    simp only [hp, hq, hkind]

/-- The place of a member of a union, which is set or not. -/
def VariantPlan.place (v : VariantPlan) : Place :=
  ⟨v.field, v.kind, .optional⟩

def VariantPlan.toField (v : VariantPlan) : FieldPlan :=
  { field := v.field, ident := v.ident, jsonName := v.jsonName, kind := v.kind,
    layout := .optional, boxed := v.boxed, propertyOptional := true }

@[simp]
lemma VariantPlan.place_toField (v : VariantPlan) : v.toField.place = v.place :=
  rfl

/-- The places of the fields that a member of a message stands for. -/
def Member.places : Member → List Place
  | .field p => [p.place]
  | .union u => u.variants.map VariantPlan.place

lemma Member.kind?_eq_places (m : Member) (number : Nat) :
    m.kind? number =
      (m.places.find? fun place => place.field.number == number).map Place.kind := by
  cases m with
  | field p =>
    by_cases hnumber : p.field.number = number <;>
      simp [kind?, places, FieldPlan.place, hnumber]
  | union u =>
    rw [kind?, places, find?_map, Option.map_map]
    rfl

lemma Member.exists_place_of_kind? {m : Member} {number : Nat} {kind : ValueKind}
    (h : m.kind? number = some kind) :
    ∃ place ∈ m.places, place.field.number = number ∧ place.kind = kind := by
  rw [kind?_eq_places, Option.map_eq_some_iff] at h
  obtain ⟨place, hfind, hkind⟩ := h
  exact ⟨place, mem_of_find?_eq_some hfind, by simpa using find?_some hfind, hkind⟩

lemma Member.number_ne_of_kind? {m : Member} {number : Nat} (h : m.kind? number = none) :
    ∀ place ∈ m.places, place.field.number ≠ number := by
  rw [kind?_eq_places, Option.map_eq_none_iff, find?_eq_none] at h
  simpa using h

lemma Member.numbers_eq_places (m : Member) :
    m.numbers = m.places.map fun place => place.field.number := by
  cases m with
  | field p => rfl
  | union u => simp [numbers, places, VariantPlan.place]

lemma Member.flatMap_numbers (ms : List Member) :
    ms.flatMap Member.numbers = (ms.flatMap Member.places).map fun place => place.field.number := by
  rw [map_flatMap]
  exact congrArg (fun k => ms.flatMap k) (funext numbers_eq_places)

/-- The members stand for fields in the same places, one by one. -/
inductive Member.SamePlaces : Member → Member → Prop
  | field {p q : FieldPlan} : p.place = q.place → SamePlaces (.field p) (.field q)
  | union {u v : UnionPlan} :
      u.variants.map VariantPlan.place = v.variants.map VariantPlan.place →
      SamePlaces (.union u) (.union v)

namespace Scope

variable {s s' : Scope} {owner : String} {f : Field} {p p' : FieldPlan}

/-! ## Places of fields -/

lemma planFieldWith_kind {plan : String → Field → Except CompileError FieldPlan}
    (h : s.planFieldWith plan owner f = .ok p) :
    s.valueKind f (qualify owner f.name) = .ok p.kind := by
  obtain ⟨kind, hkind, h⟩ := ok_of_bind h
  obtain ⟨layout, -, h⟩ := ok_of_bind h
  obtain ⟨i, -, h⟩ := ok_of_bind h
  cases h
  exact hkind

lemma planFieldWithin_eq_ok {depth : Nat} (h : s.planFieldWithin depth owner f = .ok p) :
    p.field = f ∧ ∃ plan, s.fieldLayout plan f p.kind = .ok p.layout := by
  cases depth with
  | zero | succ depth => exact ⟨(planFieldWith_eq_ok h).1, _, (planFieldWith_eq_ok h).2⟩

/-- A scalar that may be missing is one of a field that tracks presence. -/
lemma tracksPresence_of_optional {depth : Nat} {t : Scalar}
    (h : s.planFieldWithin depth owner f = .ok p) (hlayout : p.layout = .optional)
    (hkind : p.kind = .scalar t) : f.tracksPresence := by
  obtain ⟨-, plan, hfield⟩ := planFieldWithin_eq_ok h
  rw [fieldLayout_eq_ok, hlayout, hkind] at hfield
  rcases hfield with ⟨-, hsingle⟩ | ⟨-, -, hrepeated⟩ | ⟨_, _, _, _, _, -, -, -, -, -, hmap⟩
  · by_contra hnot
    rw [Bool.not_eq_true, Field.tracksPresence] at hnot
    simp [singleLayout, hnot] at hsingle
  · cases hrepeated
  · cases hmap

/-- Only scalars and enums have a value that stands for not being set. -/
lemma kind_of_plain (h : s.planField owner f = .ok p) (hlayout : p.layout = .plain) :
    (∃ t, p.kind = .scalar t) ∨ ∃ ref e, p.kind = .enum ref e := by
  obtain ⟨-, plan, hfield⟩ := planFieldWithin_eq_ok h
  rw [fieldLayout_eq_ok, hlayout] at hfield
  rcases hfield with ⟨-, hsingle⟩ | ⟨-, -, hrepeated⟩ | ⟨_, _, _, _, _, -, -, -, -, -, hmap⟩
  · unfold singleLayout at hsingle
    split_ifs at hsingle
    split at hsingle
    · exact .inl ⟨_, by assumption⟩
    · exact .inr ⟨_, _, by assumption⟩
    · cases hsingle
  · cases hrepeated
  · cases hmap

def PlacedAt (s : Scope) (owner : String) (place : Place) : Prop :=
  ∃ p, s.planField owner place.field = .ok p ∧ p.place = place

section

variable (hregistry : s.registry = s'.registry)

include hregistry

lemma planFieldWith_place {plan plan' : String → Field → Except CompileError FieldPlan}
    (hplan : ∀ owner f p p', plan owner f = .ok p → plan' owner f = .ok p' → p.place = p'.place)
    (h : s.planFieldWith plan owner f = .ok p) (h' : s'.planFieldWith plan' owner f = .ok p') :
    p.place = p'.place := by
  obtain ⟨hfield, hlayout⟩ := planFieldWith_eq_ok h
  obtain ⟨hfield', hlayout'⟩ := planFieldWith_eq_ok h'
  have hkind : p.kind = p'.kind := by
    have hvalue : s.valueKind f (qualify owner f.name) = s'.valueKind f (qualify owner f.name) := by
      unfold valueKind
      rw [hregistry]
    rw [planFieldWith_kind h, planFieldWith_kind h'] at hvalue
    exact Except.ok.inj hvalue
  have hentry : s.mapEntry? p.kind = s'.mapEntry? p'.kind := by
    unfold mapEntry?
    rw [hregistry, hkind]
  have hshape : p.layout.shape = p'.layout.shape := by
    rw [fieldLayout_eq_ok] at hlayout hlayout'
    rcases hlayout with ⟨hone, hsingle⟩ | ⟨hmany, hnone, hrepeated⟩ |
      ⟨entry, kf, vf, key, value, hmany, hsome, hkey, -, hvalue, hmap⟩ <;>
    rcases hlayout' with ⟨hone', hsingle'⟩ | ⟨hmany', hnone', hrepeated'⟩ |
      ⟨entry', kf', vf', key', value', hmany', hsome', hkey', -, hvalue', hmap'⟩
    · rw [← hsingle, ← hsingle', hkind]
    · simp [hone] at hmany'
    · simp [hone] at hmany'
    · simp [hmany] at hone'
    · rw [← hrepeated, ← hrepeated']
    · rw [hnone, hsome'] at hentry
      cases hentry
    · simp [hmany] at hone'
    · rw [hsome, hnone'] at hentry
      cases hentry
    · rw [hsome, hsome'] at hentry
      cases hentry
      have hplaces := hplan _ _ _ _ hkey hkey'
      have hplaces' := hplan _ _ _ _ hvalue hvalue'
      simp only [FieldPlan.place, Place.mk.injEq] at hplaces hplaces'
      rw [← hmap, ← hmap']
      simp only [Layout.shape, hplaces.1, hplaces.2.1, hplaces'.1, hplaces'.2.1]
  simp only [FieldPlan.place, hfield, hfield', hkind, hshape]

lemma planField_place (h : s.planField owner f = .ok p) (h' : s'.planField owner f = .ok p') :
    p.place = p'.place := by
  unfold planField at h h'
  rw [← hregistry] at h'
  generalize s.registry.size + 1 = depth at h h'
  induction depth generalizing owner f p p' with
  | zero => exact planFieldWith_place hregistry (fun _ _ _ _ h => by cases h) h h'
  | succ depth ih => exact planFieldWith_place hregistry (fun _ _ _ _ h h' => ih h h') h h'

lemma places_eq {places places' : List Place}
    (hfields : places.map Place.field = places'.map Place.field)
    (h : ∀ place ∈ places, s.PlacedAt owner place)
    (h' : ∀ place ∈ places', s'.PlacedAt owner place) : places = places' := by
  induction places generalizing places' with
  | nil => exact (map_eq_nil_iff.mp hfields.symm).symm
  | cons place places ih =>
    obtain ⟨place', rest', rfl, hfield, hrest⟩ := map_eq_cons_iff.mp hfields.symm
    obtain ⟨p, hp, hplace⟩ := h place (by simp)
    obtain ⟨p', hp', hplace'⟩ := h' place' (by simp)
    rw [hfield] at hp'
    have hhead : place = place' := by
      rw [← hplace, ← hplace']
      exact planField_place hregistry hp hp'
    have htail : places = rest' := by
      refine ih hrest.symm ?_ ?_
      · exact fun q hq => h q (by simp [hq])
      · exact fun q hq => h' q (by simp [hq])
    rw [hhead, htail]

end

/-! ## Places of members -/

variable {ref : TypeRef} {message : Message}

/-- The members of a union have the places that they have on their own. -/
lemma planVariant_place {v : VariantPlan} (h : s.planVariant ref f = .ok v) :
    v.field = f ∧ s.PlacedAt ref.qualifiedName v.place := by
  obtain ⟨p, hp, hlayout, hfield, hkind, -⟩ := planVariant_eq_ok h
  refine ⟨hfield, p, ?_, ?_⟩
  · rwa [VariantPlan.place, hfield]
  · simp only [FieldPlan.place, VariantPlan.place, planField_field hp, hfield, hkind, hlayout,
      Layout.shape]

variable {group : Nat} {ms : List Member} {placed : List Nat} {fields : List Field}

lemma planUnion_places {oneof : Oneof} {u : UnionPlan}
    (h : s.planUnion ref message group oneof = .ok u) :
    (Member.union u).places.map Place.field = message.oneofMembers group ∧
      ∀ place ∈ (Member.union u).places, s.PlacedAt ref.qualifiedName place := by
  have hvariants := (planUnion_eq_ok h).2.1
  constructor
  · have hfields := map_eq_of_mapM (k := id) (fun _ _ hv => (planVariant_place hv).1) hvariants
    rw [map_id] at hfields
    rw [← hfields, Member.places, map_map]
    rfl
  · intro place hplace
    obtain ⟨v, hv, rfl⟩ := mem_map.mp hplace
    obtain ⟨f, -, hplan⟩ := exists_of_mem_mapM hvariants v hv
    exact (planVariant_place hplan).2

lemma planMembers_place (h : s.planMembers ref message [] message.fields = .ok ms) :
    ∀ place ∈ ms.flatMap Member.places, s.PlacedAt ref.qualifiedName place := by
  intro place hplace
  obtain ⟨m, hm, hplace⟩ := mem_flatMap.mp hplace
  rcases planMembers_mem (fun _ hf => hf) h m hm with
    ⟨p, f, -, rfl, hp, -⟩ | ⟨u, group, oneof, rfl, hu, -⟩
  · rw [mem_singleton.mp hplace]
    refine ⟨p, ?_, rfl⟩
    rwa [← planField_field hp] at hp
  · exact (planUnion_places hu).2 place hplace

section

variable (hregistry : s.registry = s'.registry)

include hregistry

/-- Under options that hold oneofs in the same way, members go together one by one. -/
lemma planMembers_samePlaces (hoptions : s.options.oneofs = s'.options.oneofs)
    {placed : List Nat} {fields : List Field} {ms ms' : List Member}
    (h : s.planMembers ref message placed fields = .ok ms)
    (h' : s'.planMembers ref message placed fields = .ok ms') :
    List.Forall₂ Member.SamePlaces ms ms' := by
  have hunion : s'.unionOf? message = s.unionOf? message := by
    funext f
    unfold unionOf?
    rw [hoptions]
  have hgroup : s'.unionGroup message = s.unionGroup message := by
    funext f
    rw [unionGroup, unionGroup, hunion]
  rw [planMembers_eq_ok] at h h'
  rw [hgroup] at h'
  generalize leading (s.unionGroup message) placed fields = starts at h h'
  induction h generalizing ms' with
  | nil =>
    cases h'
    exact .nil
  | cons hm _ ih =>
    obtain ⟨m', ms', hm', hrest', rfl⟩ := forall₂_cons_left_iff.mp h'
    refine .cons ?_ (ih hrest')
    rcases planMember_eq_ok hm with ⟨p, hnone, hp, rfl⟩ | ⟨u, group, oneof, hsome, hu, rfl⟩ <;>
      rcases planMember_eq_ok hm' with ⟨p', hnone', hp', rfl⟩ | ⟨u', _, _, hsome', hu', rfl⟩ <;>
      simp_all only [reduceCtorEq, Option.some.injEq, Prod.mk.injEq]
    · exact .field (planField_place hregistry hp hp')
    · obtain ⟨hfields, hplaced⟩ := planUnion_places hu
      obtain ⟨hfields', hplaced'⟩ := planUnion_places hu'
      exact .union (places_eq hregistry (hfields.trans hfields'.symm) hplaced hplaced')

end

/-! ## The order of places -/

lemma unionOf?_eq_some {oneof : Oneof} : s.unionOf? message f = some (group, oneof) ↔
    s.options.oneofs = .union ∧ f.oneof = some group ∧ message.oneofs[group]? = some oneof := by
  unfold unionOf?
  cases s.options.oneofs <;> cases f.oneof <;> simp
  grind

lemma leading_of_siblings (hoptions : s.options.oneofs = .siblings) (placed : List Nat)
    (fields : List Field) : leading (s.unionGroup message) placed fields = fields := by
  induction fields generalizing placed with
  | nil => rfl
  | cons f fields ih => simp [leading, unionGroup, unionOf?, hoptions, ih]

lemma planMembers_fields_of_siblings (hoptions : s.options.oneofs = .siblings)
    (h : s.planMembers ref message placed fields = .ok ms) :
    (ms.flatMap Member.places).map Place.field = fields := by
  rw [planMembers_eq_ok, leading_of_siblings hoptions] at h
  induction h with
  | nil => rfl
  | cons hm _ ih =>
    rcases planMember_eq_ok hm with ⟨p, -, hp, rfl⟩ | ⟨u, group, oneof, hunion, -, -⟩
    · simp [Member.places, FieldPlan.place, planField_field hp, ih]
    · have hother := (unionOf?_eq_some.mp hunion).1
      simp [hoptions] at hother

def isUnplaced (placed : List Nat) (f : Field) : Bool :=
  f.oneof.all fun group => !placed.contains group

/-- The fields in the order in which their places are planned with unions: where a oneof starts, all
its members, unless its union was placed before. -/
def unionOrder : (placed : List Nat) → List Field → List Field
  | _, [] => []
  | placed, f :: fields =>
    match f.oneof with
    | none => f :: unionOrder placed fields
    | some group =>
      if group ∈ placed then unionOrder placed fields
      else (f :: fields).filter (fun g => g.oneof == some group) ++
        unionOrder (group :: placed) fields

lemma unionGroup_of_union (hoptions : s.options.oneofs = .union) (hchecked : message.Checked)
    (hf : f ∈ message.fields) : s.unionGroup message f = f.oneof := by
  cases hgroup : f.oneof with
  | none => simp [unionGroup, unionOf?, hoptions, hgroup]
  | some group =>
    simp [unionGroup, unionOf?, hoptions, hgroup, hchecked.oneof_lt f hf group hgroup]

lemma leading_congr {key key' : Field → Option Nat} (h : ∀ f ∈ fields, key f = key' f) :
    leading key placed fields = leading key' placed fields := by
  induction fields generalizing placed with
  | nil => rfl
  | cons f fields ih =>
    have ih (placed : List Nat) : leading key placed fields = leading key' placed fields :=
      ih fun g hg => h g (by simp [hg])
    simp only [leading, h f (by simp), ih]

def companions (message : Message) (f : Field) : List Field :=
  f.oneof.elim [f] message.oneofMembers

/-- With unions, members go with the fields that start them. -/
lemma planMembers_of_union (hoptions : s.options.oneofs = .union) (hchecked : message.Checked)
    (h : s.planMembers ref message [] message.fields = .ok ms) :
    List.Forall₂ (fun f m => s.planMember ref message f = .ok m)
      (leading Field.oneof [] message.fields) ms := by
  rw [planMembers_eq_ok] at h
  rwa [leading_congr fun f hf => unionGroup_of_union hoptions hchecked hf] at h

lemma unionOrder_eq_flatMap
    (h : ∀ group ∉ placed, message.oneofMembers group = fields.filter (·.oneof == some group)) :
    unionOrder placed fields = (leading Field.oneof placed fields).flatMap (companions message) := by
  induction fields generalizing placed with
  | nil => rfl
  | cons f fields ih =>
    -- What is not placed lies in the fields that are left.
    have hrest {placed' : List Nat} (hsubset : placed ⊆ placed')
        (hf : ∀ group, f.oneof = some group → group ∈ placed') : ∀ group ∉ placed',
        message.oneofMembers group = fields.filter (·.oneof == some group) := by
      intro group hgroup
      rw [h group fun hplaced => hgroup (hsubset hplaced), filter_cons_of_neg]
      exact fun heq => hgroup (hf group (beq_iff_eq.mp heq))
    unfold unionOrder leading
    cases hf : f.oneof with
    | none =>
      rw [ih (hrest (List.Subset.refl _) (by simp [hf]))]
      simp [companions, hf]
    | some group =>
      by_cases hplaced : group ∈ placed
      · simp only [if_pos hplaced]
        exact ih (hrest (List.Subset.refl _) (by simp [hf, hplaced]))
      · simp only [if_neg hplaced, flatMap_cons]
        rw [ih (hrest (subset_cons_self group placed) (by simp [hf])), ← h group hplaced]
        simp [companions, hf]

lemma planMembers_fields_of_union (hoptions : s.options.oneofs = .union)
    (hchecked : message.Checked) (h : s.planMembers ref message [] message.fields = .ok ms) :
    (ms.flatMap Member.places).map Place.field = unionOrder [] message.fields := by
  replace h := planMembers_of_union hoptions hchecked h
  rw [unionOrder_eq_flatMap fun _ _ => rfl]
  have hsubset := (leading_sublist Field.oneof [] message.fields).subset
  generalize leading Field.oneof [] message.fields = fields at h hsubset
  induction h with
  | nil => rfl
  | @cons f m fields ms hm _ ih =>
    have hgroup := unionGroup_of_union hoptions hchecked (hsubset (mem_cons_self ..))
    have hfirst : m.places.map Place.field = companions message f := by
      rcases planMember_eq_ok hm with ⟨p, hnone, hp, rfl⟩ | ⟨u, group, oneof, hunion, hu, rfl⟩
      · rw [unionGroup, hnone] at hgroup
        simp [companions, ← hgroup, Member.places, FieldPlan.place, planField_field hp]
      · rw [unionGroup, hunion] at hgroup
        simp [companions, ← hgroup, (planUnion_places hu).1]
    rw [flatMap_cons, map_append, hfirst, flatMap_cons,
      ih fun f hf => hsubset (mem_cons_of_mem _ hf)]

lemma ofChecked_registry (files : List File) (o₁ o₂ : Options) :
    (ofChecked files o₁).registry = (ofChecked files o₂).registry :=
  rfl

end Scope

end Protobuf.Plan

/-! ## Schemas of files -/

namespace Protobuf.Codec.Schema

open Plan Protobuf.Schema

variable {files : List Descriptor.File} {o₁ o₂ : Options} {s₁ s₂ : Schema}

/-- What planning makes sure of in the plan of a field: only scalars and enums are plain, keys of
maps are scalars, the entry message of a map starts with its key and its value unless a union is
in the way, and a scalar is missing from an entry only if it tracks presence. -/
structure WellPlanned (s : Schema) (p : FieldPlan) : Prop where
  plain : p.layout = .plain → (∃ t, p.kind = .scalar t) ∨ ∃ ref e, p.kind = .enum ref e
  key : ∀ {entry key value}, p.layout = .map entry key value → ∃ t, key.kind = .scalar t
  entry : ∀ {entry key value k v ms}, p.layout = .map entry key value →
    s.members entry.qualifiedName = .field k :: .field v :: ms → k = key ∧ v = value
  missing : ∀ {entry key value t}, p.layout = .map entry key value → value.layout = .optional →
    value.kind = .scalar t → value.field.tracksPresence = true

lemma ofFiles_wellPlanned (h : ofFiles files o₁ = .ok s₁) {name : String} {p : FieldPlan}
    (hp : .field p ∈ s₁.members name) : s₁.WellPlanned p := by
  obtain ⟨scope, hplanned⟩ := ofFiles_planned h
  rcases hplanned name _ hp with
    ⟨p', owner, f, heq, hplan⟩ | ⟨u, ref, message, group, oneof, heq, -⟩
  · cases heq
    refine ⟨Scope.kind_of_plain hplan, ?_, ofFiles_entry_members h hp, ?_⟩
    · intro entry key value hlayout
      have hkey := ofFiles_isKeyKind h hp hlayout
      cases hkind : key.kind with
      | scalar t => exact ⟨t, rfl⟩
      | _ =>
        rw [hkind] at hkey
        cases hkey
    · intro entry key value t hlayout hvalue hkind
      obtain ⟨depth, -, -, -, vf, -, -, -, -, -, -, hplan⟩ := Scope.planField_eq_map hplan hlayout
      rw [(Scope.planFieldWithin_eq_ok hplan).1]
      exact Scope.tracksPresence_of_optional hplan hvalue hkind
  · cases heq

section

variable (h₁ : ofFiles files o₁ = .ok s₁) (h₂ : ofFiles files o₂ = .ok s₂) (name : String)

include h₁ h₂

/-- Under two sets of options, a name has no members at all or those planned for one message. -/
lemma ofFiles_members_pair :
    (s₁.members name = [] ∧ s₂.members name = []) ∨
      ∃ checked e m, files.mapM File.check = .ok checked ∧
        e ∈ (Registry.ofFiles checked).value.entries ∧ e.message? = some m ∧ m.Checked ∧
        (Scope.ofChecked checked o₁).planMembers e.ref m [] m.fields = .ok (s₁.members name) ∧
        (Scope.ofChecked checked o₂).planMembers e.ref m [] m.fields = .ok (s₂.members name) := by
  obtain ⟨-, checked, hchecked, hmembers₁⟩ := ofFiles_eq_ok h₁
  obtain ⟨-, checked', hchecked', hmembers₂⟩ := ofFiles_eq_ok h₂
  obtain rfl : checked = checked' := by
    rw [hchecked] at hchecked'
    exact Except.ok.inj hchecked'
  rcases hmembers₁ name with ⟨hnone, hnil₁⟩ | ⟨e, m, he, hm, hplanned₁⟩ <;>
    rcases hmembers₂ name with ⟨hnone', hnil₂⟩ | ⟨e', m', he', hm', hplanned₂⟩
  · exact .inl ⟨hnil₁, hnil₂⟩
  · rw [he', Option.bind_some, hm'] at hnone
    cases hnone
  · rw [he, Option.bind_some, hm] at hnone'
    cases hnone'
  · rw [he] at he'
    cases he'
    rw [hm] at hm'
    cases hm'
    have hmem := mem_of_find?_eq_some he
    exact .inr ⟨checked, e, m, hchecked, hmem, hm, Registry.ofFiles_checked hchecked e hmem m hm,
      hplanned₁, hplanned₂⟩

lemma ofFiles_samePlaces (hoptions : o₁.oneofs = o₂.oneofs) :
    List.Forall₂ Member.SamePlaces (s₁.members name) (s₂.members name) := by
  rcases ofFiles_members_pair h₁ h₂ name with ⟨hnil₁, hnil₂⟩ |
    ⟨checked, e, m, -, -, -, -, hplanned₁, hplanned₂⟩
  · rw [hnil₁, hnil₂]
    exact .nil
  · exact Scope.planMembers_samePlaces (Scope.ofChecked_registry checked o₁ o₂) hoptions hplanned₁
      hplanned₂

end

end Protobuf.Codec.Schema
