import Protobuf.Codec.Schema
import Protobuf.Proofs.Schema.Registry

/-!
# Where the members of a message come from

Every member of a planned message stands for fields that its message declares, and
the entry message of a map has the very members that the map was planned with,
however deeply maps are nested.
-/

open List Option

namespace Protobuf.Plan

open Protobuf.Schema

namespace Scope

variable {s : Scope} {owner : String} {f : Field} {p : FieldPlan}

/-! ## Plans of fields -/

section

variable {plan plan' : String → Field → Except CompileError FieldPlan} {kind : ValueKind}
  {layout : Layout FieldPlan}

/-- A field is held as a map exactly if its type is an entry message and both fields of the entry
have plans, the first one as a key. -/
lemma fieldLayout_eq_ok :
    s.fieldLayout plan f kind = .ok layout ↔
      (f.isRepeated = false ∧ singleLayout f kind = layout) ∨
      (f.isRepeated ∧ s.mapEntry? kind = none ∧ .repeated = layout) ∨
      ∃ entry kf vf key value, f.isRepeated ∧ s.mapEntry? kind = some (entry, kf, vf) ∧
        plan entry.qualifiedName kf = .ok key ∧ isKeyKind key.kind ∧
        plan entry.qualifiedName vf = .ok value ∧ .map entry key value = layout := by
  unfold fieldLayout
  cases hrepeated : f.isRepeated with
  | false => simp
  | true =>
    cases hentry : s.mapEntry? kind with
    | none => simp
    | some found =>
      obtain ⟨entry, kf, vf⟩ := found
      cases hkey : plan entry.qualifiedName kf with
      | error e => simp [bind, Except.bind, hkey]
      | ok key =>
        cases hkind : isKeyKind key.kind with
        | false => simp [bind, Except.bind, hkey, hkind]
        | true =>
          cases hvalue : plan entry.qualifiedName vf with
          | error e => simp [bind, Except.bind, hkey, hkind, hvalue]
          | ok value => simp [bind, Except.bind, pure, Except.pure, hkey, hkind, hvalue]

lemma planFieldWith_eq_ok (h : s.planFieldWith plan owner f = .ok p) :
    p.field = f ∧ s.fieldLayout plan f p.kind = .ok p.layout := by
  obtain ⟨kind, -, h⟩ := ok_of_bind h
  obtain ⟨layout, hlayout, h⟩ := ok_of_bind h
  obtain ⟨i, -, h⟩ := ok_of_bind h
  cases h
  exact ⟨rfl, hlayout⟩

/-- A plan stays the same if more fields of map entries can be planned. -/
lemma planFieldWith_mono (hplan : ∀ owner f p, plan owner f = .ok p → plan' owner f = .ok p)
    (h : s.planFieldWith plan owner f = .ok p) : s.planFieldWith plan' owner f = .ok p := by
  unfold planFieldWith at h ⊢
  obtain ⟨kind, hkind, h⟩ := ok_of_bind h
  obtain ⟨layout, hlayout, h⟩ := ok_of_bind h
  have hlayout' : s.fieldLayout plan' f kind = .ok layout := by
    rw [fieldLayout_eq_ok] at hlayout ⊢
    rcases hlayout with hsingle | hrepeated | ⟨entry, kf, vf, key, value, h₁, h₂, h₃, h₄, h₅, h₆⟩
    · exact .inl hsingle
    · exact .inr (.inl hrepeated)
    · exact .inr (.inr ⟨entry, kf, vf, key, value, h₁, h₂, hplan _ _ _ h₃, h₄, hplan _ _ _ h₅, h₆⟩)
  rw [hkind]
  change (s.fieldLayout plan' f kind >>= _) = _
  rw [hlayout']
  exact h

end

lemma planFieldWithin_succ {depth : Nat} (h : s.planFieldWithin depth owner f = .ok p) :
    s.planFieldWithin (depth + 1) owner f = .ok p := by
  induction depth generalizing owner f p with
  | zero => exact planFieldWith_mono (fun _ _ _ h => by cases h) h
  | succ depth ih => exact planFieldWith_mono (fun _ _ _ h => ih h) h

lemma planFieldWithin_unique {depth depth' : Nat} {p' : FieldPlan}
    (h : s.planFieldWithin depth owner f = .ok p)
    (h' : s.planFieldWithin depth' owner f = .ok p') : p = p' := by
  have hmono {d : Nat} (k : Nat) {q : FieldPlan} (hq : s.planFieldWithin d owner f = .ok q) :
      s.planFieldWithin (d + k) owner f = .ok q := by
    induction k with
    | zero => exact hq
    | succ k ih => exact planFieldWithin_succ ih
  have hp := hmono depth' h
  have hp' := hmono depth h'
  rw [Nat.add_comm, hp] at hp'
  exact Except.ok.inj hp'

lemma planField_field (h : s.planField owner f = .ok p) : p.field = f :=
  (planFieldWith_eq_ok h).1

lemma mapEntry?_eq_some {kind : ValueKind} {entry : TypeRef} {kf vf : Field}
    (h : s.mapEntry? kind = some (entry, kf, vf)) :
    ∃ e m rest, s.registry.find? entry.qualifiedName = some e ∧ e.message? = some m ∧
      m.fields = kf :: vf :: rest := by
  unfold mapEntry? at h
  split at h
  · obtain ⟨m, hm, hfields⟩ := bind_eq_some_iff.mp h
    obtain ⟨e, he, hmessage⟩ := bind_eq_some_iff.mp hm
    obtain ⟨⟨kf', vf'⟩, hpair, heq⟩ := map_eq_some_iff.mp hfields
    cases heq
    unfold Message.mapFields? at hpair
    split at hpair
    · rename_i rest _ hlist
      cases hpair
      exact ⟨e, m, rest, he, hmessage, hlist⟩
    · cases hpair
  · cases h

/-- The fields of the entry message of a map, and the plans of both, the first one for a key. -/
lemma planField_eq_map {entry : TypeRef} {key value : FieldPlan}
    (h : s.planField owner f = .ok p) (hlayout : p.layout = .map entry key value) :
    ∃ depth e m kf vf rest, s.registry.find? entry.qualifiedName = some e ∧
      e.message? = some m ∧ m.fields = kf :: vf :: rest ∧
      s.planFieldWithin depth entry.qualifiedName kf = .ok key ∧
      isKeyKind key.kind ∧
      s.planFieldWithin depth entry.qualifiedName vf = .ok value := by
  have hmap := (planFieldWith_eq_ok h).2
  rw [hlayout, fieldLayout_eq_ok] at hmap
  rcases hmap with ⟨-, hsingle⟩ | ⟨-, -, hrepeated⟩ | ⟨entry', kf, vf, key', value', -, hentry,
    hkey, hkind, hvalue, heq⟩
  · unfold singleLayout at hsingle
    split at hsingle
    · cases hsingle
    · split at hsingle <;> cases hsingle
  · cases hrepeated
  · cases heq
    obtain ⟨e, m, rest, he, hm, hfields⟩ := mapEntry?_eq_some hentry
    exact ⟨_, e, m, kf, vf, rest, he, hm, hfields, hkey, hkind, hvalue⟩

/-! ## Members of messages -/

section

variable {ref : TypeRef} {message : Message}

lemma planVariant_eq_ok {v : VariantPlan} (h : s.planVariant ref f = .ok v) :
    ∃ p, s.planField ref.qualifiedName f = .ok p ∧ p.layout = .optional ∧ v.field = f ∧
      v.kind = p.kind ∧ v.boxed = p.boxed ∧ v.jsonName = p.jsonName := by
  obtain ⟨p, hp, h⟩ := ok_of_bind h
  split at h
  · rename_i hlayout
    obtain ⟨i, -, h⟩ := ok_of_bind h
    cases h
    exact ⟨p, hp, hlayout, rfl, rfl, rfl, rfl⟩
  · cases h

section

variable {group : Nat} {oneof : Oneof} {u : UnionPlan}
  (h : s.planUnion ref message group oneof = .ok u)

include h

lemma planUnion_eq_ok :
    u.group = group ∧ (message.oneofMembers group).mapM (s.planVariant ref) = .ok u.variants ∧
      ident oneof.name (Naming.unionTypeIdent? ref.generatedName oneof.name) =
        .ok u.typeIdent := by
  obtain ⟨variants, hvariants, h⟩ := ok_of_bind h
  obtain ⟨i, -, h⟩ := ok_of_bind h
  obtain ⟨typeIdent, htype, h⟩ := ok_of_bind h
  cases h
  exact ⟨rfl, hvariants, htype⟩

lemma planUnion_variants : ∀ v ∈ u.variants, ∃ f ∈ message.fields, s.planVariant ref f = .ok v := by
  intro v hv
  obtain ⟨f, hf, hplan⟩ := exists_of_mem_mapM (planUnion_eq_ok h).2.1 v hv
  exact ⟨f, mem_of_mem_filter hf, hplan⟩

end

/-- The fields that start a member: those without a key, and the first one with each key that is not
placed. -/
def leading (key : Field → Option Nat) : (placed : List Nat) → List Field → List Field
  | _, [] => []
  | placed, f :: fields =>
    match key f with
    | none => f :: leading key placed fields
    | some group =>
      if group ∈ placed then leading key placed fields
      else f :: leading key (group :: placed) fields

def unionGroup (s : Scope) (message : Message) (f : Field) : Option Nat :=
  (s.unionOf? message f).map Prod.fst

def planMember (s : Scope) (ref : TypeRef) (message : Message) (f : Field) :
    Except CompileError Member :=
  match s.unionOf? message f with
  | some (group, oneof) => return .union (← s.planUnion ref message group oneof)
  | none => return .field (← s.planField ref.qualifiedName f)

variable {fields : List Field} {placed : List Nat} {ms : List Member} {m : Member}

lemma leading_sublist (key : Field → Option Nat) (placed : List Nat) (fields : List Field) :
    (leading key placed fields).Sublist fields := by
  induction fields generalizing placed with
  | nil => exact .slnil
  | cons f fields ih =>
    unfold leading
    split
    · exact (ih placed).cons_cons f
    · split_ifs
      · exact (ih placed).cons f
      · exact (ih _).cons_cons f

lemma planMember_eq_ok (h : s.planMember ref message f = .ok m) :
    (∃ p, s.unionOf? message f = none ∧ s.planField ref.qualifiedName f = .ok p ∧ m = .field p) ∨
      ∃ u group oneof, s.unionOf? message f = some (group, oneof) ∧
        s.planUnion ref message group oneof = .ok u ∧ m = .union u := by
  unfold planMember at h
  split at h
  · rename_i group oneof hunion
    obtain ⟨u, hu, h⟩ := ok_of_bind h
    exact .inr ⟨u, group, oneof, hunion, hu, (Except.ok.inj h).symm⟩
  · rename_i hnone
    obtain ⟨p, hp, h⟩ := ok_of_bind h
    exact .inl ⟨p, hnone, hp, (Except.ok.inj h).symm⟩

lemma planMembers_eq_ok : s.planMembers ref message placed fields = .ok ms ↔
    List.Forall₂ (fun f m => s.planMember ref message f = .ok m)
      (leading (s.unionGroup message) placed fields) ms := by
  rw [← mapM_eq_ok_iff]
  refine iff_of_eq (congrArg (· = _) ?_)
  induction fields generalizing placed with
  | nil => rfl
  | cons f fields ih =>
    cases hunion : s.unionOf? message f with
    | none => simp [planMembers, leading, unionGroup, planMember, hunion, ih]
    | some found =>
      by_cases hplaced : found.1 ∈ placed <;>
        simp [planMembers, leading, unionGroup, planMember, hunion, hplaced, ih]

/-- A member is the plan of a field of the message, or of one of its oneofs. -/
lemma planMembers_mem (hfields : ∀ f ∈ fields, f ∈ message.fields)
    (h : s.planMembers ref message placed fields = .ok ms) :
    ∀ m ∈ ms, (∃ p, ∃ f ∈ message.fields, m = .field p ∧
        s.planField ref.qualifiedName f = .ok p ∧ s.unionOf? message f = none) ∨
      ∃ u group oneof, m = .union u ∧ s.planUnion ref message group oneof = .ok u ∧
        ∃ f, s.unionOf? message f = some (group, oneof) := by
  intro m hm
  obtain ⟨f, hf, hplan⟩ := exists_of_mem_mapM (mapM_eq_ok_iff.mpr (planMembers_eq_ok.mp h)) m hm
  have hmem := hfields f ((leading_sublist _ _ _).subset hf)
  rcases planMember_eq_ok hplan with ⟨p, hnone, hp, rfl⟩ | ⟨u, group, oneof, hunion, hu, rfl⟩
  · exact .inl ⟨p, f, hmem, rfl, hp, hnone⟩
  · exact .inr ⟨u, group, oneof, rfl, hu, f, hunion⟩

/-- If the first member is a field, it is the plan of the first field. -/
lemma planMembers_eq_cons_field {f : Field} {p : FieldPlan}
    (h : s.planMembers ref message [] (f :: fields) = .ok (.field p :: ms)) :
    s.planField ref.qualifiedName f = .ok p ∧ s.planMembers ref message [] fields = .ok ms := by
  rw [planMembers_eq_ok] at h ⊢
  rw [leading] at h
  split at h
  · obtain ⟨hf, hrest⟩ := forall₂_cons.mp h
    rcases planMember_eq_ok hf with ⟨_, -, hp, heq⟩ | ⟨_, _, _, -, -, heq⟩ <;> cases heq
    exact ⟨hp, hrest⟩
  · rename_i group hgroup
    rw [if_neg (by simp)] at h
    rcases planMember_eq_ok (forall₂_cons.mp h).1 with ⟨_, hnone, -, -⟩ | ⟨_, _, _, -, -, heq⟩
    · simp [unionGroup, hnone] at hgroup
    · cases heq

end

end Scope

def Member.numbers : Member → List Nat
  | .field p => [p.field.number]
  | .union u => u.variants.map fun v => v.field.number

end Protobuf.Plan

/-! ## Schemas of files -/

namespace Protobuf

variable {ε α β : Type}

/-- What is found under a name was made from what stood there. -/
lemma lookup_of_mapM (make : String → α → Except ε β) {as : List (String × α)}
    {bs : List (String × β)} (h : (as.mapM fun (name, a) => return (name, ← make name a)) = .ok bs)
    (name : String) :
    (as.lookup name = none ∧ bs.lookup name = none) ∨
      ∃ a b, as.lookup name = some a ∧ bs.lookup name = some b ∧ make name a = .ok b := by
  induction as generalizing bs with
  | nil =>
    cases h
    exact .inl ⟨rfl, rfl⟩
  | cons head as ih =>
    obtain ⟨name', a⟩ := head
    rw [mapM_cons] at h
    obtain ⟨pair, hpair, h⟩ := ok_of_bind h
    obtain ⟨bs', hbs, h⟩ := ok_of_bind h
    cases h
    obtain ⟨b, hb, hpair⟩ := ok_of_bind hpair
    cases hpair
    by_cases hname : name = name'
    · subst hname
      exact .inr ⟨a, b, lookup_cons_self, lookup_cons_self, hb⟩
    · rw [lookup_cons, lookup_cons, beq_eq_false_iff_ne.mpr hname]
      exact ih hbs

lemma Schema.Registry.find?_cons (e : Entry) (entries : List Entry) (name : String) :
    Registry.find? ⟨e :: entries⟩ name =
      if e.ref.qualifiedName = name then some e else Registry.find? ⟨entries⟩ name := by
  unfold Registry.find?
  rw [List.find?_cons]
  by_cases hname : e.ref.qualifiedName = name
  · rw [if_pos hname, beq_iff_eq.mpr hname]
  · rw [if_neg hname, beq_eq_false_iff_ne.mpr hname]

/-- The messages of a registry are found by their names. -/
lemma Schema.Registry.lookup_messages {entries : List Entry}
    (h : (entries.map fun e => e.ref.qualifiedName).Nodup) (name : String) :
    (entries.filterMap fun e => e.message?.map (e.ref.qualifiedName, ·)).lookup name =
      (Registry.find? ⟨entries⟩ name).bind Entry.message? := by
  induction entries with
  | nil => rfl
  | cons e entries ih =>
    rw [map_cons, nodup_cons] at h
    have ih := ih h.2
    rw [find?_cons]
    by_cases hname : e.ref.qualifiedName = name
    · rw [if_pos hname, bind_some]
      cases hm : e.message? with
      | some m =>
        rw [filterMap_cons_some (by rw [hm]; rfl), hname]
        exact lookup_cons_self
      | none =>
        -- No other entry has the name.
        have hnone : Registry.find? ⟨entries⟩ name = none := by
          refine find?_eq_none.mpr fun d hd heq => h.1 ?_
          rw [hname, ← beq_iff_eq.mp heq]
          exact mem_map.mpr ⟨d, hd, rfl⟩
        rw [filterMap_cons_none (by rw [hm]; rfl), ih, hnone]
        rfl
    · rw [if_neg hname, ← ih]
      cases hm : e.message? with
      | some m =>
        rw [filterMap_cons_some (by rw [hm]; rfl), lookup_cons,
          beq_eq_false_iff_ne.mpr (Ne.symm hname)]
      | none => rw [filterMap_cons_none (by rw [hm]; rfl)]

def Plan.Scope.ofChecked (files : List Schema.File) (options : Options) : Plan.Scope :=
  ⟨(Schema.Registry.ofFiles files).value, options, [], .empty⟩

end Protobuf

namespace Protobuf.Codec.Schema

open Plan Protobuf.Schema

variable {files : List Descriptor.File} {options : Options} {s : Schema}

/-- A name has members exactly if it stands for a message, which they were planned for. -/
lemma ofFiles_eq_ok (h : ofFiles files options = .ok s) :
    s.options = options ∧ ∃ checked, files.mapM File.check = .ok checked ∧ ∀ name,
      (((Registry.ofFiles checked).value.find? name).bind Entry.message? = none ∧
        s.members name = []) ∨
      ∃ e m, (Registry.ofFiles checked).value.find? name = some e ∧ e.message? = some m ∧
        (Scope.ofChecked checked options).planMembers e.ref m [] m.fields =
          .ok (s.members name) := by
  obtain ⟨checked, hchecked, h⟩ := ok_of_bind h
  obtain ⟨plans, hplans, h⟩ := ok_of_bind h
  cases h
  refine ⟨rfl, checked, hchecked, fun name => ?_⟩
  dsimp only
  have hmessages := Registry.lookup_messages (Registry.ofFiles_nodup checked) name
  rcases lookup_of_mapM (fun name m => (Scope.ofChecked checked options).members m name) hplans
    name with ⟨hnone, hplan⟩ | ⟨m, ms, hm, hplan, hplanned⟩
  · rw [hplan, ← hnone, hmessages]
    exact .inl ⟨rfl, rfl⟩
  · rw [hplan]
    obtain ⟨e, hresolve, hplanned⟩ := ok_of_bind hplanned
    have he : (Registry.ofFiles checked).value.find? name = some e :=
      Registry.resolve_eq_ok hresolve
    refine .inr ⟨e, m, he, ?_, hplanned⟩
    rw [← hm, hmessages, he, bind_some]

/-- The members of a message were planned for the one entry that its name stands for. -/
lemma ofFiles_members (h : ofFiles files options = .ok s) :
    ∃ scope : Scope, (∀ e ∈ scope.registry.entries,
        scope.registry.find? e.ref.qualifiedName = some e ∧ e.Checked) ∧
      ∀ name, s.members name = [] ∨ ∃ e m, e ∈ scope.registry.entries ∧
        e.ref.qualifiedName = name ∧ e.message? = some m ∧
        scope.planMembers e.ref m [] m.fields = .ok (s.members name) := by
  obtain ⟨-, checked, hchecked, hmembers⟩ := ofFiles_eq_ok h
  have hnodup := Registry.ofFiles_nodup checked
  refine ⟨Scope.ofChecked checked options, fun e he => ⟨Registry.find?_of_mem hnodup he,
    Registry.ofFiles_checked hchecked e he⟩, fun name => ?_⟩
  rcases hmembers name with ⟨-, hnil⟩ | ⟨e, m, he, hm, hplanned⟩
  · exact .inl hnil
  · exact .inr ⟨e, m, mem_of_find?_eq_some he, beq_iff_eq.mp (find?_some he :), hm,
      hplanned⟩

/-- Every member of every message was planned, all of them in one scope. -/
lemma ofFiles_planned (h : ofFiles files options = .ok s) :
    ∃ scope : Scope, ∀ name, ∀ m ∈ s.members name,
      (∃ p owner f, m = .field p ∧ scope.planField owner f = .ok p) ∨
        ∃ u ref message group oneof, m = .union u ∧
          scope.planUnion ref message group oneof = .ok u := by
  obtain ⟨scope, -, hmembers⟩ := ofFiles_members h
  refine ⟨scope, fun name m hm => ?_⟩
  rcases hmembers name with hnil | ⟨e, message, -, -, -, hplanned⟩
  · rw [hnil] at hm
    cases hm
  rcases Scope.planMembers_mem (fun _ hf => hf) hplanned m hm with
    ⟨p, f, -, heq, hp, -⟩ | ⟨u, group, oneof, heq, hu, -⟩
  · exact .inl ⟨p, _, f, heq, hp⟩
  · exact .inr ⟨u, _, _, group, oneof, heq, hu⟩

variable {name : String}

lemma ofFiles_isKeyKind (h : ofFiles files options = .ok s) {p key value : FieldPlan}
    {entry : TypeRef} (hp : .field p ∈ s.members name) (hlayout : p.layout = .map entry key value) :
    Scope.isKeyKind key.kind := by
  obtain ⟨scope, hplanned⟩ := ofFiles_planned h
  rcases hplanned name _ hp with
    ⟨p', owner, f, heq, hplan⟩ | ⟨u, ref, message, group, oneof, heq, -⟩
  · cases heq
    obtain ⟨-, -, -, -, -, -, -, -, -, -, hkind, -⟩ := Scope.planField_eq_map hplan hlayout
    exact hkind
  · cases heq

lemma ofFiles_number_lt (h : ofFiles files options = .ok s) {m : Member}
    (hm : m ∈ s.members name) : ∀ n ∈ m.numbers, n < 536870912 := by
  obtain ⟨scope, hentries, hmembers⟩ := ofFiles_members h
  rcases hmembers name with hnil | ⟨e, message, he, -, hmessage, hplanned⟩
  · rw [hnil] at hm
    cases hm
  · have hrange := ((hentries e he).2 message hmessage).number_lt
    intro n hn
    rcases Scope.planMembers_mem (fun _ hf => hf) hplanned m hm with
      ⟨p, f, hf, rfl, hp, -⟩ | ⟨u, group, oneof, rfl, hu, -⟩
    · rw [mem_singleton.mp hn, Scope.planField_field hp]
      exact hrange f hf
    · obtain ⟨v, hv, rfl⟩ := mem_map.mp hn
      obtain ⟨f, hf, hplan⟩ := Scope.planUnion_variants hu v hv
      obtain ⟨-, -, -, hfield, -⟩ := Scope.planVariant_eq_ok hplan
      rw [hfield]
      exact hrange f hf

/-- If the entry message of a map starts with two fields, they are the key and the value of the
map. -/
lemma ofFiles_entry_members (h : ofFiles files options = .ok s) {p key value k v : FieldPlan}
    {entry : TypeRef} {ms : List Member} (hp : .field p ∈ s.members name)
    (hlayout : p.layout = .map entry key value)
    (hmembers : s.members entry.qualifiedName = .field k :: .field v :: ms) :
    k = key ∧ v = value := by
  obtain ⟨scope, hentries, hplans⟩ := ofFiles_members h
  rcases hplans name with hnil | ⟨e, message, -, -, -, hplanned⟩
  · rw [hnil] at hp
    cases hp
  rcases Scope.planMembers_mem (fun _ hf => hf) hplanned _ hp with
    ⟨p', f, -, heq, hplan, -⟩ | ⟨u, group, oneof, heq, -⟩
  · cases heq
    obtain ⟨depth, e', m, kf, vf, rest, hfind, hm, hfields, hkey, -, hvalue⟩ :=
      Scope.planField_eq_map hplan hlayout
    rcases hplans entry.qualifiedName with hnil | ⟨e'', m'', he, hname, hm'', hplanned'⟩
    · rw [hnil] at hmembers
      cases hmembers
    -- The name of the entry stands for one message only.
    have heq : e'' = e' := by
      have hfind' := (hentries e'' he).1
      rw [hname, hfind] at hfind'
      exact (some.inj hfind').symm
    subst heq
    rw [hm''] at hm
    cases hm
    rw [hfields, hmembers] at hplanned'
    obtain ⟨hk, hplanned'⟩ := Scope.planMembers_eq_cons_field hplanned'
    obtain ⟨hv, -⟩ := Scope.planMembers_eq_cons_field hplanned'
    rw [hname] at hk hv
    exact ⟨Scope.planFieldWithin_unique hk hkey, Scope.planFieldWithin_unique hv hvalue⟩
  · cases heq

end Protobuf.Codec.Schema
