import Protobuf.Proofs.Plan.Recursion
import Protobuf.Sample.Declare

/-!
# Chains of map entries

To plan a map is to plan the key and the value of its entry, and either may be a map
again. A run of this comes to an end unless it meets entries that hold each other in
a circle. The depth that planning allows is enough for every run that ends, since the
entries of such a run are all different.
-/

open Option

namespace Protobuf.Plan

open Protobuf.Schema List

namespace Scope

/-! ## Maps and their entries -/

/-- Key and value of the map entry with a qualified name. -/
def entryFields? (s : Scope) (name : String) : Option (Field × Field) :=
  ((s.registry.find? name).bind Entry.message?).bind Message.mapFields?

/-- A field is a map whose entries are the messages `entry`. -/
@[mk_iff]
structure IsMapOf (s : Scope) (f : Field) (entry : String) : Prop where
  isRepeated : f.isRepeated = true
  type_eq : f.type = .message
  typeName_eq : f.typeName = some entry
  not_wrapper : Wrapper.ofTypeName? entry = none
  not_timestamp : entry ≠ Timestamp.typeName
  isSome_fields : (s.entryFields? entry).isSome = true

/-- The map entry `outer` leads to the map entry `inner`: its key is a map of `inner`, or the key is
fit for a key and the value is a map of `inner`. -/
inductive Nests (s : Scope) (outer inner : String) : Prop
  | key {key value : Field} : s.entryFields? outer = some (key, value) → s.IsMapOf key inner →
      Nests s outer inner
  | value {key value : Field} {t : Scalar} : s.entryFields? outer = some (key, value) →
      key.type = .scalar t → isKeyKind (.scalar t) = true → s.IsMapOf value inner →
      Nests s outer inner

instance (s : Scope) (f : Field) (entry : String) : Decidable (s.IsMapOf f entry) :=
  decidable_of_iff _ (isMapOf_iff s f entry).symm

variable {s : Scope} {owner entry : String} {f g key value : Field}

lemma entryFields?_eq_some (h : s.entryFields? entry = some (key, value)) :
    ∃ e ∈ s.registry.entries, e.ref.qualifiedName = entry ∧
      ∃ m, e.message? = some m ∧ m.mapFields? = some (key, value) := by
  obtain ⟨m, hm, hfields⟩ := bind_eq_some_iff.mp h
  obtain ⟨e, he, hmessage⟩ := bind_eq_some_iff.mp hm
  have hname : e.ref.qualifiedName = entry := beq_iff_eq.mp (find?_some he :)
  exact ⟨e, mem_of_find?_eq_some he, hname, m, hmessage, hfields⟩

lemma mapEntry?_message (ref : TypeRef) :
    s.mapEntry? (.message ref) =
      (s.entryFields? ref.qualifiedName).map fun fields => (ref, fields.1, fields.2) := by
  unfold mapEntry? entryFields?
  rw [map_bind]
  rfl

lemma isMapOf_iff_valueKind (referencedBy : String) :
    s.IsMapOf f entry ↔ f.isRepeated ∧ ∃ ref, ref.qualifiedName = entry ∧
      s.valueKind f referencedBy = .ok (.message ref) ∧
      (s.entryFields? entry).isSome := by
  constructor
  · rintro ⟨hmany, htype, hname, hwrapper, htimestamp, hfields⟩
    obtain ⟨⟨key, value⟩, hpair⟩ := isSome_iff_exists.mp hfields
    obtain ⟨m, hm, -⟩ := bind_eq_some_iff.mp hpair
    obtain ⟨e, he, hmessage⟩ := bind_eq_some_iff.mp hm
    refine ⟨hmany, e.ref, beq_iff_eq.mp (find?_some he :), ?_, hfields⟩
    unfold Entry.message? at hmessage
    cases hdescriptor : e.descriptor with
    | enum => simp [hdescriptor] at hmessage
    | message =>
      simp [valueKind, htype, hname, Registry.resolve, he, hdescriptor, hwrapper, htimestamp,
        bind, Except.bind, pure, Except.pure]
  · rintro ⟨hmany, ref, rfl, hkind, hfields⟩
    obtain ⟨htype, hname⟩ := valueKind_eq_message hkind
    simp only [valueKind, htype, hname] at hkind
    obtain ⟨e, -, hkind⟩ := ok_of_bind hkind
    have hplain : Wrapper.ofTypeName? ref.qualifiedName = none ∧
        ref.qualifiedName ≠ Timestamp.typeName := by
      cases hdescriptor : e.descriptor with
      | enum =>
        simp only [hdescriptor] at hkind
        cases hkind
      | message =>
        simp only [hdescriptor] at hkind
        split at hkind
        · cases hkind
        · rename_i hwrapper
          split_ifs at hkind with htimestamp
          · cases hkind
          · exact ⟨hwrapper, htimestamp⟩
    exact ⟨hmany, htype, hname, hplain.1, hplain.2, hfields⟩

variable {referencedBy : String}

lemma valueKind_eq_error {e : CompileError} (h : s.valueKind f referencedBy = .error e) :
    e.isFatal = false := by
  unfold valueKind at h
  split at h
  · cases h
  · cases h
    rfl
  · unfold Registry.resolve at h
    split at h
    · simp only [bind, Except.bind] at h
      split at h
      · cases h
      · split at h
        · cases h
        · split_ifs at h <;> cases h
      · cases h
        rfl
    · cases h
      rfl

lemma valueKind_eq_scalar {t : Scalar} (h : s.valueKind f referencedBy = .ok (.scalar t)) :
    f.type = .scalar t := by
  unfold valueKind at h
  split at h
  · cases h
    assumption
  · cases h
  · obtain ⟨e, -, h⟩ := ok_of_bind h
    split at h
    · cases h
    · split at h
      · cases h
      · split_ifs at h <;> cases h
    · cases h

/-! ## Runs -/

section

variable {plan plan' : String → Field → Except CompileError FieldPlan}

/-- With the answers `plan`, planning the field `f` asks for the plan of the field `g` of the map
entry `entry`: first of its key, then of its value if the key is fit for one. -/
inductive Calls (s : Scope) (plan : String → Field → Except CompileError FieldPlan) (f : Field)
    (entry : String) : Field → Prop
  | key {key value : Field} : s.IsMapOf f entry → s.entryFields? entry = some (key, value) →
      Calls s plan f entry key
  | value {key value : Field} {p : FieldPlan} : s.IsMapOf f entry →
      s.entryFields? entry = some (key, value) → plan entry key = .ok p →
      isKeyKind p.kind = true → Calls s plan f entry value

/-- A run of planning comes to an end with a result: so do the runs for all plans that it asks
for, and the result is made of theirs. No depth is given. -/
inductive Plans (s : Scope) : (owner : String) → Field → Except CompileError FieldPlan → Prop
  | run {owner : String} {f : Field} (plan : String → Field → Except CompileError FieldPlan) :
      (∀ entry g, s.Calls plan f entry g → Plans s entry g (plan entry g)) →
      Plans s owner f (s.planFieldWith plan owner f)

section

variable {ref : TypeRef} (hmap : s.IsMapOf f ref.qualifiedName)
  (hfields : s.entryFields? ref.qualifiedName = some (key, value))

include hmap hfields

lemma fieldLayout_of_key_error {e : CompileError} (hkey : plan ref.qualifiedName key = .error e) :
    s.fieldLayout plan f (.message ref) = .error e := by
  unfold fieldLayout
  rw [if_pos hmap.isRepeated, mapEntry?_message, hfields, map_some]
  simp [hkey, bind, Except.bind]

lemma fieldLayout_of_unfit {p : FieldPlan} (hkey : plan ref.qualifiedName key = .ok p)
    (hfit : isKeyKind p.kind = false) :
    s.fieldLayout plan f (.message ref) =
      .error (.unhandledField ref.qualifiedName .mapKey) := by
  unfold fieldLayout
  rw [if_pos hmap.isRepeated, mapEntry?_message, hfields, map_some]
  simp [hkey, hfit, bind, Except.bind, throw, throwThe, MonadExceptOf.throw]

lemma fieldLayout_of_fit {p : FieldPlan} (hkey : plan ref.qualifiedName key = .ok p)
    (hfit : isKeyKind p.kind) :
    s.fieldLayout plan f (.message ref) = (plan ref.qualifiedName value).map (.map ref p) := by
  unfold fieldLayout
  rw [if_pos hmap.isRepeated, mapEntry?_message, hfields, map_some]
  simp only [hkey, hfit, bind, Except.bind]
  rfl

end

/-- A field with values of some kind is a map or has a layout of its own. -/
lemma fieldLayout_cases {kind : ValueKind} {referencedBy : String}
    (hkind : s.valueKind f referencedBy = .ok kind) :
    (∃ layout, ∀ plan, s.fieldLayout plan f kind = .ok layout) ∨
      ∃ ref key value, kind = .message ref ∧ s.IsMapOf f ref.qualifiedName ∧
        s.entryFields? ref.qualifiedName = some (key, value) := by
  cases hmany : f.isRepeated with
  | false =>
    refine .inl ⟨singleLayout f kind, fun plan => ?_⟩
    unfold fieldLayout
    rw [hmany]
    rfl
  | true =>
    cases hentry : s.mapEntry? kind with
    | none =>
      refine .inl ⟨.repeated, fun plan => ?_⟩
      unfold fieldLayout
      rw [hmany, hentry]
      rfl
    | some found =>
      cases kind with
      | message ref =>
        rw [mapEntry?_message, map_eq_some_iff] at hentry
        obtain ⟨⟨key, value⟩, hfields, -⟩ := hentry
        have hsome : (s.entryFields? ref.qualifiedName).isSome := by
          rw [hfields]
          rfl
        have hmap := (isMapOf_iff_valueKind referencedBy).mpr ⟨hmany, ref, rfl, hkind, hsome⟩
        exact .inr ⟨ref, key, value, rfl, hmap, hfields⟩
      | _ => cases hentry

section

variable {kind : ValueKind} {referencedBy : String}
  (hkind : s.valueKind f referencedBy = .ok kind)

include hkind

lemma fieldLayout_congr
    (h : ∀ entry g, s.Calls plan f entry g → plan entry g = plan' entry g) :
    s.fieldLayout plan f kind = s.fieldLayout plan' f kind := by
  rcases fieldLayout_cases hkind with ⟨layout, hlayout⟩ | ⟨ref, key, value, rfl, hmap, hfields⟩
  · rw [hlayout, hlayout]
  · have hsame := h _ _ (.key hmap hfields)
    cases hkey : plan ref.qualifiedName key with
    | error e =>
      rw [fieldLayout_of_key_error hmap hfields hkey,
        fieldLayout_of_key_error hmap hfields (hsame.symm.trans hkey)]
    | ok p =>
      cases hfit : isKeyKind p.kind with
      | false =>
        rw [fieldLayout_of_unfit hmap hfields hkey hfit,
          fieldLayout_of_unfit hmap hfields (hsame.symm.trans hkey) hfit]
      | true =>
        rw [fieldLayout_of_fit hmap hfields hkey hfit,
          fieldLayout_of_fit hmap hfields (hsame.symm.trans hkey) hfit,
          h _ _ (.value hmap hfields hkey hfit)]

lemma fieldLayout_eq_error {e : CompileError} (h : s.fieldLayout plan f kind = .error e) :
    e.isFatal = false ∨ ∃ entry g, s.Calls plan f entry g ∧ plan entry g = .error e := by
  rcases fieldLayout_cases hkind with ⟨layout, hlayout⟩ | ⟨ref, key, value, rfl, hmap, hfields⟩
  · rw [hlayout] at h
    cases h
  · cases hkey : plan ref.qualifiedName key with
    | error e' =>
      rw [fieldLayout_of_key_error hmap hfields hkey] at h
      cases h
      exact .inr ⟨_, _, .key hmap hfields, hkey⟩
    | ok p =>
      cases hfit : isKeyKind p.kind with
      | false =>
        rw [fieldLayout_of_unfit hmap hfields hkey hfit] at h
        cases h
        exact .inl rfl
      | true =>
        rw [fieldLayout_of_fit hmap hfields hkey hfit] at h
        cases hvalue : plan ref.qualifiedName value with
        | ok v =>
          rw [hvalue] at h
          cases h
        | error e' =>
          rw [hvalue] at h
          cases h
          exact .inr ⟨_, _, .value hmap hfields hkey hfit, hvalue⟩

end

/-- A result depends on the plans that are asked for, and on no others. -/
lemma planFieldWith_congr
    (h : ∀ entry g, s.Calls plan f entry g → plan entry g = plan' entry g) :
    s.planFieldWith plan owner f = s.planFieldWith plan' owner f := by
  unfold planFieldWith
  cases hkind : s.valueKind f (qualify owner f.name) with
  | error e => rfl
  | ok kind =>
    change (s.fieldLayout plan f kind >>= _) = (s.fieldLayout plan' f kind >>= _)
    rw [fieldLayout_congr hkind h]

/-- An error is reported to whoever asked, or comes from a plan that was asked for, or the field
has no identifier. -/
lemma planFieldWith_eq_error {e : CompileError} (h : s.planFieldWith plan owner f = .error e) :
    e.isFatal = false ∨ (∃ entry g, s.Calls plan f entry g ∧ plan entry g = .error e) ∨
      e = .badIdentifier f.name ∧ Naming.fieldIdent? f.name = none := by
  unfold planFieldWith at h
  cases hkind : s.valueKind f (qualify owner f.name) with
  | error e' =>
    rw [hkind] at h
    cases h
    exact .inl (valueKind_eq_error hkind)
  | ok kind =>
    rw [hkind] at h
    change (s.fieldLayout plan f kind >>= _) = _ at h
    cases hlayout : s.fieldLayout plan f kind with
    | error e' =>
      rw [hlayout] at h
      cases h
      exact (fieldLayout_eq_error hkind hlayout).imp_right .inl
    | ok layout =>
      rw [hlayout] at h
      cases hident : Naming.fieldIdent? f.name with
      | none =>
        rw [hident] at h
        cases h
        exact .inr (.inr ⟨rfl, rfl⟩)
      | some i =>
        rw [hident] at h
        cases h

lemma planFieldWith_of_call {e : CompileError} (hcall : s.Calls plan f entry g)
    (h : plan entry g = .error e) : s.planFieldWith plan owner f = .error e := by
  have hmap : s.IsMapOf f entry := by cases hcall <;> assumption
  obtain ⟨-, ref, rfl, hkind, -⟩ := (isMapOf_iff_valueKind (qualify owner f.name)).mp hmap
  have hlayout : s.fieldLayout plan f (.message ref) = .error e := by
    cases hcall with
    | key _ hfields => exact fieldLayout_of_key_error hmap hfields h
    | value _ hfields hkey hfit =>
      rw [fieldLayout_of_fit hmap hfields hkey hfit, h]
      rfl
  unfold planFieldWith
  rw [hkind]
  change (s.fieldLayout plan f (.message ref) >>= _) = _
  rw [hlayout]
  rfl

/-- A field with scalar values is planned at once, if it has an identifier. -/
lemma planFieldWith_of_scalar {t : Scalar} (htype : f.type = .scalar t) :
    ∃ finish : Source.Ident → FieldPlan, (∀ i, (finish i).kind = .scalar t) ∧
      s.planFieldWith plan owner f =
        (ident f.name (Naming.fieldIdent? f.name)).map finish := by
  have hkind : s.valueKind f (qualify owner f.name) = .ok (.scalar t) := by
    unfold valueKind
    rw [htype]
  rcases fieldLayout_cases hkind with ⟨layout, hlayout⟩ | ⟨ref, _, _, hmessage, -⟩
  · unfold planFieldWith
    rw [hkind]
    change ∃ finish, _ ∧ (s.fieldLayout plan f (.scalar t) >>= _) = _
    rw [hlayout]
    exact ⟨_, fun _ => rfl, rfl⟩
  · cases hmessage

end

/-! ## Results of runs -/

section

variable {r r' : Except CompileError FieldPlan}

lemma Plans.exists_plan (h : s.Plans owner f r) :
    ∃ plan, (∀ entry g, s.Calls plan f entry g → s.Plans entry g (plan entry g)) ∧
      s.planFieldWith plan owner f = r := by
  cases h with
  | run plan hcalls => exact ⟨plan, hcalls, rfl⟩

lemma Plans.unique (h : s.Plans owner f r) (h' : s.Plans owner f r') : r = r' := by
  induction h generalizing r' with
  | run plan _ ih =>
    cases h' with
    | run plan' h' =>
      refine planFieldWith_congr fun entry g hcall => ih entry g hcall (h' entry g ?_)
      cases hcall with
      | key hmap hfields => exact .key hmap hfields
      | value hmap hfields hkey hfit =>
        have hsame := ih _ _ (.key hmap hfields) (h' _ _ (.key hmap hfields))
        exact .value hmap hfields (hsame.symm.trans hkey) hfit

variable {depth : Nat} {inner : String}

lemma plans_planFieldWithin (h : ∀ e, s.planFieldWithin depth owner f ≠ .error (.endlessMap e)) :
    s.Plans owner f (s.planFieldWithin depth owner f) := by
  induction depth generalizing owner f with
  | zero =>
    refine .run _ fun entry g hcall => absurd ?_ (h entry)
    exact planFieldWith_of_call hcall rfl
  | succ depth ih =>
    refine .run _ fun entry g hcall => ih fun e he => h e ?_
    exact planFieldWith_of_call hcall he

lemma planFieldWithin_kind {p : FieldPlan} (h : s.planFieldWithin depth owner f = .ok p) :
    s.valueKind f (qualify owner f.name) = .ok p.kind := by
  cases depth <;> exact planFieldWith_kind h

lemma Calls.nests (hcall : s.Calls (s.planFieldWithin depth) f entry g)
    (hmap : s.IsMapOf g inner) : s.Nests entry inner := by
  cases hcall with
  | key _ hfields => exact .key hfields hmap
  | @value _ _ p _ hfields hkey hfit =>
    have hkind := planFieldWithin_kind hkey
    cases hscalar : p.kind with
    | scalar t =>
      rw [hscalar] at hkind hfit
      exact .value hfields (valueKind_eq_scalar hkind) hfit hmap
    | _ =>
      rw [hscalar] at hfit
      cases hfit

lemma exists_chain_of_endless {e : String}
    (h : s.planFieldWithin depth owner f = .error (.endlessMap e)) :
    ∃ entry chain, s.IsMapOf f entry ∧ (entry :: chain).IsChain s.Nests ∧
      chain.length = depth := by
  induction depth generalizing owner f with
  | zero =>
    rcases planFieldWith_eq_error h with hfatal | ⟨entry, g, hcall, -⟩ | ⟨hname, -⟩
    · cases hfatal
    · exact ⟨entry, [], by cases hcall <;> assumption, .singleton entry, rfl⟩
    · cases hname
  | succ depth ih =>
    rcases planFieldWith_eq_error h with hfatal | ⟨entry, g, hcall, hg⟩ | ⟨hname, -⟩
    · cases hfatal
    · obtain ⟨inner, chain, hinner, hchain, hlength⟩ := ih hg
      refine ⟨entry, inner :: chain, by cases hcall <;> assumption, ?_, by simp [hlength]⟩
      exact .cons_cons (hcall.nests hinner) hchain
    · cases hname

lemma IsMapOf.mem_names (h : s.IsMapOf f entry) :
    entry ∈ s.registry.entries.map fun e => e.ref.qualifiedName := by
  obtain ⟨⟨key, value⟩, hfields⟩ := isSome_iff_exists.mp h.isSome_fields
  obtain ⟨e, he, hname, -⟩ := entryFields?_eq_some hfields
  exact mem_map.mpr ⟨e, he, hname⟩

lemma Nests.mem_names {outer : String} (h : s.Nests outer inner) :
    inner ∈ s.registry.entries.map fun e => e.ref.qualifiedName := by
  cases h with
  | key _ hmap | value _ _ _ hmap => exact hmap.mem_names

lemma planField_ne_endless
    (h : ∀ entry, s.IsMapOf f entry → ∀ inner, Relation.ReflTransGen s.Nests entry inner →
      ¬ Relation.TransGen s.Nests inner inner) (e : String) :
    s.planField owner f ≠ .error (.endlessMap e) := by
  intro hendless
  obtain ⟨entry, chain, hmap, hchain, hlength⟩ := exists_chain_of_endless hendless
  have hpairs : (entry :: chain).Pairwise (Relation.TransGen s.Nests) :=
    (hchain.imp fun _ _ => Relation.TransGen.single).pairwise
  have hreached : ∀ inner ∈ chain, Relation.TransGen s.Nests entry inner :=
    (pairwise_cons.mp hpairs).1
  have hnodup : (entry :: chain).Nodup := by
    refine hpairs.imp_of_mem fun {outer inner} houter _ hlead heq => ?_
    subst heq
    refine h entry hmap outer ?_ hlead
    rcases mem_cons.mp houter with rfl | houter
    · exact .refl
    · exact (hreached outer houter).to_reflTransGen
  have hnames : entry :: chain ⊆ s.registry.entries.map fun e => e.ref.qualifiedName := by
    intro inner hinner
    rcases mem_cons.mp hinner with rfl | hinner
    · exact hmap.mem_names
    · obtain ⟨outer, -, hlast⟩ := Relation.TransGen.tail'_iff.mp (hreached inner hinner)
      exact hlast.mem_names
  have hle := (hnodup.subperm hnames).length_le
  rw [length_cons, hlength, length_map] at hle
  unfold Registry.size at hle
  omega

lemma not_transGen_of_acc (h : Acc (fun inner outer => s.Nests outer inner) entry) :
    ∀ inner, Relation.ReflTransGen s.Nests entry inner →
      ¬ Relation.TransGen s.Nests inner inner := by
  induction h with
  | intro entry _ ih =>
    intro inner hreach hcircle
    rcases Relation.ReflTransGen.cases_head hreach with rfl | ⟨next, hnext, hreach⟩
    · obtain ⟨next, hnext, hback⟩ := Relation.TransGen.head'_iff.mp hcircle
      exact ih next hnext _ hback hcircle
    · exact ih next hnext inner hreach hcircle

section

variable (hidents : ∀ {entry key value}, s.entryFields? entry = some (key, value) →
  Naming.fieldIdent? key.name ≠ none ∧ Naming.fieldIdent? value.name ≠ none)

include hidents

lemma Plans.acc (h : s.Plans owner f r) (hmap : s.IsMapOf f entry) :
    Acc (fun inner outer => s.Nests outer inner) entry := by
  induction h generalizing entry with
  | run plan hcalls ih =>
    refine ⟨entry, fun inner hnests => ?_⟩
    cases hnests with
    | key hfields hinner => exact ih entry _ (.key hmap hfields) hinner
    | @value key value t hfields htype hfit hinner =>
      -- The key is planned without further runs, so the value is asked for.
      obtain ⟨p, hp, hkind⟩ : ∃ p, plan entry key = .ok p ∧ p.kind = .scalar t := by
        obtain ⟨plan', -, heq⟩ := (hcalls entry key (.key hmap hfields)).exists_plan
        obtain ⟨finish, hfinish, hscalar⟩ := planFieldWith_of_scalar htype
        obtain ⟨i, hi⟩ := ne_none_iff_exists'.mp (hidents hfields).1
        rw [← heq, hscalar, hi]
        exact ⟨finish i, rfl, hfinish i⟩
      rw [← hkind] at hfit
      exact ih entry value (.value hmap hfields hp hfit) hinner

/-- A run fails for good only at a name of its field that is no identifier. -/
lemma Plans.eq_badIdentifier (h : s.Plans owner f r) :
    ∀ e, r = .error e → e.isFatal →
      e = .badIdentifier f.name ∧ Naming.fieldIdent? f.name = none := by
  induction h with
  | run plan _ ih =>
    intro e hr hfatal
    rcases planFieldWith_eq_error hr with hreported | ⟨entry, g, hcall, hg⟩ | hname
    · rw [hfatal] at hreported
      cases hreported
    · exfalso
      have hnone := (ih entry g hcall e hg hfatal).2
      cases hcall with
      | key _ hfields => exact (hidents hfields).1 hnone
      | value _ hfields => exact (hidents hfields).2 hnone
    · exact hname

lemma exists_plans_iff :
    (∃ r, s.Plans owner f r) ↔ ∀ entry, s.IsMapOf f entry →
      ∀ inner, Relation.ReflTransGen s.Nests entry inner →
        ¬ Relation.TransGen s.Nests inner inner := by
  constructor
  · rintro ⟨r, hr⟩ entry hmap
    exact not_transGen_of_acc (hr.acc hidents hmap)
  · intro h
    exact ⟨_, plans_planFieldWithin (planField_ne_endless h)⟩

lemma plans_iff :
    s.Plans owner f r ↔ s.planField owner f = r ∧ ∀ entry, r ≠ .error (.endlessMap entry) := by
  constructor
  · intro hr
    have hnot : ∀ e, s.planField owner f ≠ .error (.endlessMap e) :=
      planField_ne_endless ((exists_plans_iff hidents).mp ⟨r, hr⟩)
    have heq := (plans_planFieldWithin hnot).unique hr
    exact ⟨heq, heq ▸ hnot⟩
  · rintro ⟨rfl, hnot⟩
    exact plans_planFieldWithin hnot

end

end

end Scope

/-! ## Planning checked files -/

/-- Key and value of a checked map entry have identifiers. -/
lemma fieldIdent?_of_entryFields? {ds : List Descriptor.File} {files : List File}
    (hfiles : ds.mapM File.check = .ok files) {s : Scope}
    (hregistry : s.registry = (Registry.ofFiles files).value) {entry : String} {key value : Field}
    (hfields : s.entryFields? entry = some (key, value)) :
    Naming.fieldIdent? key.name ≠ none ∧ Naming.fieldIdent? value.name ≠ none := by
  obtain ⟨e, he, -, m, hm, hpair⟩ := Scope.entryFields?_eq_some hfields
  rw [hregistry] at he
  obtain ⟨hkey, hvalue⟩ := Registry.ofFiles_messages
    (P := fun m => ∀ {key value}, m.mapFields? = some (key, value) →
      key.name = "key" ∧ value.name = "value") checkMessage_mapFields hfiles e he m hm hpair
  rw [hkey, hvalue]
  decide +kernel

/-- The run of planning a field of checked files comes to an end just when the map entries that the
field leads to do not hold each other in a circle. Planning within its depth then has the result of
the run, and has no other result but an exhausted depth. The result is a plan or a reported error,
unless the name of the field is no identifier. -/
theorem plans_iff_no_circle {ds : List Descriptor.File} {files : List File}
    (hfiles : ds.mapM File.check = .ok files) {s : Scope}
    (hregistry : s.registry = (Registry.ofFiles files).value) (owner : String) (f : Field) :
    ((∃ r, s.Plans owner f r) ↔ ∀ entry, s.IsMapOf f entry →
      ∀ inner, Relation.ReflTransGen s.Nests entry inner →
        ¬ Relation.TransGen s.Nests inner inner) ∧
    (∀ r, s.Plans owner f r ↔
      s.planField owner f = r ∧ ∀ entry, r ≠ .error (.endlessMap entry)) ∧
    ∀ e, s.Plans owner f (.error e) → e.isFatal = true →
      e = .badIdentifier f.name ∧ Naming.fieldIdent? f.name = none := by
  have hidents := @fieldIdent?_of_entryFields? ds files hfiles s hregistry
  refine ⟨Scope.exists_plans_iff hidents, fun r => Scope.plans_iff hidents, fun e he => ?_⟩
  exact he.eq_badIdentifier hidents e rfl

/-- Sets of dolls that hold dolls; the innermost hold what `core` says. -/
private def dolls (core : String → Int → Descriptor.Field) : Descriptor.File :=
  { name := "dolls.proto"
    package := "dolls"
    dialect := "proto3"
    messages := [
      { name := "Set"
        fields := [Sample.many (Sample.message ".dolls.Set.Outer" "dolls" 1)]
        messages := [
          Sample.mapEntry "Outer" (Sample.scalar .int32) fun name number =>
            Sample.many (Sample.message ".dolls.Set.Inner" name number),
          Sample.mapEntry "Inner" (Sample.scalar .string) core] },
      { name := "Shelf", fields := [Sample.scalar .int32 "width.cm" 1] }] }

private def dollFiles (core : String → Int → Descriptor.Field) : List File :=
  ([dolls core].mapM File.check).toOption.getD []

private def dollScope (core : String → Int → Descriptor.Field) : Scope :=
  ⟨(Registry.ofFiles (dollFiles core)).value, {}, [], .empty⟩

private def dollField : Field :=
  ⟨"dolls", 1, .message, .repeated, some ".dolls.Set.Outer", none, false, [4, 0, 2, 0]⟩

private lemma eq_ok_of_isSome {ε α : Type} {x : Except ε α} (h : x.toOption.isSome) :
    ∃ a, x = .ok a := by
  cases x with
  | error e => cases h
  | ok a => exact ⟨a, rfl⟩

private lemma mapM_check_dolls (core : String → Int → Descriptor.Field)
    (h : ([dolls core].mapM File.check).toOption.isSome) :
    [dolls core].mapM File.check = .ok (dollFiles core) := by
  obtain ⟨files, hfiles⟩ := eq_ok_of_isSome h
  unfold dollFiles
  rw [hfiles]
  rfl

private def textCore : String → Int → Descriptor.Field := Sample.scalar .string

/-- With texts inside, a set is planned, and no circle is reached. -/
theorem plans_iff_no_circle_texts :
    [dolls textCore].mapM File.check = .ok (dollFiles textCore) ∧
      (dollScope textCore).IsMapOf dollField ".dolls.Set.Outer" ∧
      (∃ p, (dollScope textCore).Plans ".dolls.Set" dollField (.ok p)) ∧
      ∀ inner, Relation.ReflTransGen (dollScope textCore).Nests ".dolls.Set.Outer" inner →
        ¬ Relation.TransGen (dollScope textCore).Nests inner inner := by
  have hfiles := mapM_check_dolls textCore (by decide +kernel)
  have hmap : (dollScope textCore).IsMapOf dollField ".dolls.Set.Outer" := by decide +kernel
  obtain ⟨p, hp⟩ : ∃ p, (dollScope textCore).planField ".dolls.Set" dollField = .ok p :=
    eq_ok_of_isSome (by decide +kernel)
  obtain ⟨hcircle, hplans, -⟩ :=
    plans_iff_no_circle hfiles (s := dollScope textCore) rfl ".dolls.Set" dollField
  have hrun := (hplans (.ok p)).mpr ⟨hp, by simp⟩
  exact ⟨hfiles, hmap, ⟨p, hrun⟩, hcircle.mp ⟨_, hrun⟩ _ hmap⟩

private def entryKey (index : Int) (t : Scalar) : Field :=
  ⟨"key", 1, .scalar t, .optional, none, none, false, [4, 0, 3, index, 2, 0]⟩

private def entryValue (index : Int) (typeName : String) : Field :=
  ⟨"value", 2, .message, .repeated, some typeName, none, false, [4, 0, 3, index, 2, 1]⟩

private def circleCore : String → Int → Descriptor.Field := fun name number =>
  Sample.many (Sample.message ".dolls.Set.Outer" name number)

private def widthField : Field :=
  ⟨"width.cm", 1, .scalar .int32, .optional, none, none, false, [4, 1, 2, 0]⟩

private lemma declares_of_any {name : String} {f : Field}
    (h : (((dollScope circleCore).registry.find? name).bind Entry.message?).any
      (fun m => decide (f ∈ m.fields))) :
    ∃ m, ((dollScope circleCore).registry.find? name).bind Entry.message? = some m ∧
      f ∈ m.fields := by
  obtain ⟨m, hm, hf⟩ := (any_eq_true _ _).mp h
  exact ⟨m, hm, of_decide_eq_true hf⟩

/-- With the outermost dolls inside, no run for a set comes to an end. The run for a field with
a dot in its name does, with neither a plan nor a reported error. -/
theorem not_plans_circle :
    [dolls circleCore].mapM File.check = .ok (dollFiles circleCore) ∧
      (∃ m, ((dollScope circleCore).registry.find? ".dolls.Set").bind Entry.message? = some m ∧
        dollField ∈ m.fields) ∧
      ¬ (∃ r, (dollScope circleCore).Plans ".dolls.Set" dollField r) ∧
      (∃ m, ((dollScope circleCore).registry.find? ".dolls.Shelf").bind Entry.message? = some m ∧
        widthField ∈ m.fields) ∧
      (dollScope circleCore).Plans ".dolls.Shelf" widthField
        (.error (.badIdentifier "width.cm")) := by
  have hfiles := mapM_check_dolls circleCore (by decide +kernel)
  have hidents := @fieldIdent?_of_entryFields? _ _ hfiles (dollScope circleCore) rfl
  have hmap : (dollScope circleCore).IsMapOf dollField ".dolls.Set.Outer" := by decide +kernel
  have houter : (dollScope circleCore).entryFields? ".dolls.Set.Outer" =
      some (entryKey 0 .int32, entryValue 0 ".dolls.Set.Inner") := by decide +kernel
  have hinner : (dollScope circleCore).entryFields? ".dolls.Set.Inner" =
      some (entryKey 1 .string, entryValue 1 ".dolls.Set.Outer") := by decide +kernel
  have hin : (dollScope circleCore).Nests ".dolls.Set.Outer" ".dolls.Set.Inner" :=
    .value houter rfl rfl (by decide +kernel)
  have hout : (dollScope circleCore).Nests ".dolls.Set.Inner" ".dolls.Set.Outer" :=
    .value hinner rfl rfl (by decide +kernel)
  refine ⟨hfiles, declares_of_any (by decide +kernel), ?_, declares_of_any (by decide +kernel), ?_⟩
  · rintro ⟨r, hr⟩
    exact Scope.not_transGen_of_acc (hr.acc hidents hmap) _ .refl (.head hin (.single hout))
  · rw [Scope.plans_iff hidents]
    obtain ⟨finish, -, hscalar⟩ := Scope.planFieldWith_of_scalar (f := widthField) rfl
    have hnone : Naming.fieldIdent? "width.cm" = none := by decide +kernel
    refine ⟨hscalar.trans ?_, by simp⟩
    change (ident "width.cm" (Naming.fieldIdent? "width.cm")).map finish = _
    rw [hnone]
    rfl

end Protobuf.Plan
