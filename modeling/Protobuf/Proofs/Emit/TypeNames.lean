import Protobuf.Proofs.Emit.DeclaredTypes

/-!
# When declared types have different names

Names of nested types are joined by underscores, and unions and partials get words at
the end. Both can lead to the name of another type. All types of a generated file have
different names exactly if those of its messages, enums and unions do and no partial
is called like a message or enum. If the names in the schema hold no underscores, the
joined names are as good as the qualified ones, and only neighbours can clash.
-/

/-- The name with which a message or enum is declared. -/
def Protobuf.Schema.TypeDescriptor.name : TypeDescriptor → String
  | .message m => m.name
  | .enum e => e.name

namespace Protobuf.Emit

open Naming List
open Protobuf.Schema
open Source

/-! ## Endings -/

lemma unionName_eq (generated group : String) :
    unionName generated group = unmarked generated ++ "_" ++ group ++ "Oneof" := by
  have hjoint : ("_" ++ group ++ "Oneof").toList = '_' :: (group ++ "Oneof").toList := by
    simp [String.append_assoc]
  have hunmarked := unmarked_append hjoint (by decide) (by decide) (s := generated)
  simpa only [unionName, String.append_assoc] using hunmarked

lemma append_partial_ne_unionName (n generated group : String) :
    n ++ "Partial" ≠ unionName generated group := by
  have hpartial : "Partial".toList.getLast? = some 'l' := by decide +kernel
  have honeof : "Oneof".toList.getLast? = some 'f' := by decide +kernel
  intro h
  have hlast := congrArg (fun s : String => s.toList.getLast?) h
  simp only [unionName_eq, String.toList_append, getLast?_append, hpartial, honeof,
    Option.some_or] at hlast
  exact absurd (Option.some.inj hlast) (by decide)

section

variable (r : Registry) (o : Options) (entries : List Entry)

/-- A partial is called like a type of the entries only if that is a message or an enum. -/
lemma append_partial_mem_ownNames {n : String} :
    n ++ "Partial" ∈ entries.flatMap (ownNames r o) ↔
      n ++ "Partial" ∈ entries.map fun e => typeName (registeredName r e) := by
  simp only [mem_flatMap, mem_map, ownNames, mem_cons]
  constructor
  · rintro ⟨e, he, hn | ⟨group, -, hn⟩⟩
    · exact ⟨e, he, hn.symm⟩
    · exact absurd hn.symm (append_partial_ne_unionName _ _ _)
  · rintro ⟨e, he, hn⟩
    exact ⟨e, he, .inl hn.symm⟩

lemma flatMap_partialNames : entries.flatMap (partialNames r o) =
    if o.jsonCodec then
      ((entries.filter fun e => e.message?.isSome).flatMap (ownNames r o)).map (· ++ "Partial")
    else [] := by
  split_ifs with hjson
  · induction entries with
    | nil => rfl
    | cons e entries ih =>
      cases hmessage : e.message?.isSome <;>
        simp [partialNames, hjson, hmessage, ih]
  · simp [partialNames, hjson]

lemma mem_flatMap_partialNames {m : String} : m ∈ entries.flatMap (partialNames r o) ↔
    o.jsonCodec ∧ ∃ e ∈ entries, e.message?.isSome ∧
      ∃ n ∈ ownNames r o e, n ++ "Partial" = m := by
  rw [flatMap_partialNames]
  split_ifs with hjson
  · simp only [mem_map, mem_flatMap, mem_filter]
    grind
  · simp [hjson]

/-- All types of entries have different names exactly if the types other than partials do, and no
partial is called like a message or an enum. -/
lemma nodup_entryNames_iff : (entries.flatMap (entryNames r o)).Nodup ↔
    (entries.flatMap (ownNames r o)).Nodup ∧
      (o.jsonCodec → ∀ e ∈ entries, e.message?.isSome → ∀ n ∈ ownNames r o e,
        n ++ "Partial" ∉ entries.map fun e => typeName (registeredName r e)) := by
  have hperm : (entries.flatMap (ownNames r o) ++ entries.flatMap (partialNames r o)).Perm
      (entries.flatMap (entryNames r o)) :=
    flatMap_append_perm entries (ownNames r o) (partialNames r o)
  rw [← hperm.nodup_iff, nodup_append]
  constructor
  · rintro ⟨hown, -, hne⟩
    refine ⟨hown, fun hjson e he hmessage n hn hmem => ?_⟩
    exact hne _ ((append_partial_mem_ownNames r o entries).mpr hmem) _
      ((mem_flatMap_partialNames r o entries).mpr ⟨hjson, e, he, hmessage, n, hn, rfl⟩) rfl
  · rintro ⟨hown, hpartials⟩
    refine ⟨hown, ?_, ?_⟩
    · rw [flatMap_partialNames]
      split_ifs
      · refine List.Nodup.map ?_ (hown.sublist (filter_sublist.flatMap _))
        intro n n' hn
        simpa using hn
      · exact nodup_nil
    · rintro m hm m' hm' rfl
      obtain ⟨hjson, e, he, hmessage, n, hn, rfl⟩ := (mem_flatMap_partialNames r o entries).mp hm'
      exact hpartials hjson e he hmessage n hn
        ((append_partial_mem_ownNames r o entries).mp hm)

end

/-! ## Joined names -/

/-- Whether a name holds none of the characters that names are joined by. -/
def IsSimple (name : String) : Prop :=
  '_' ∉ name.toList ∧ '.' ∉ name.toList

/-- Whether a name can be told from what it is joined with, and is called the same in the generated
source. -/
structure IsPlain (name : String) : Prop where
  simple : IsSimple name
  noHash : '#' ∉ name.toList
  nonempty : name ≠ ""
  not_reserved : name ∉ reserved

instance : DecidablePred IsSimple :=
  fun _ => inferInstanceAs (Decidable (_ ∧ _))

instance : DecidablePred IsPlain := fun name =>
  decidable_of_iff (IsSimple name ∧ '#' ∉ name.toList ∧ name ≠ "" ∧ name ∉ reserved)
    ⟨fun h => ⟨h.1, h.2.1, h.2.2.1, h.2.2.2⟩,
      fun h => ⟨h.simple, h.noHash, h.nonempty, h.not_reserved⟩⟩

/-- A name with dots in the place of underscores. -/
def dotted (cs : List Char) : List Char :=
  cs.map fun c => if c = '_' then '.' else c

lemma dotted_append (cs cs' : List Char) : dotted (cs ++ cs') = dotted cs ++ dotted cs' :=
  map_append

lemma dotted_eq_self {cs : List Char} (h : '_' ∉ cs) : dotted cs = cs := by
  refine (map_congr_left fun c hc => if_neg ?_).trans (map_id cs)
  rintro rfl
  exact h hc

lemma eq_of_dotted_eq {cs cs' : List Char} (h : '.' ∉ cs) (h' : '.' ∉ cs')
    (heq : dotted cs = dotted cs') : cs = cs' := by
  have hback {cs : List Char} (h : '.' ∉ cs) :
      (dotted cs).map (fun c => if c = '.' then '_' else c) = cs := by
    rw [dotted, map_map]
    refine (map_congr_left fun c hc => ?_).trans (map_id cs)
    have hdot : c ≠ '.' := by
      rintro rfl
      exact h hc
    by_cases hc : c = '_'
    · simp [hc]
    · simp [hc, hdot]
  rw [← hback h, heq, hback h']

/-- A qualified name that is the generated name with dots, after the name of the package. -/
structure Joined (root : List Char) (ref : TypeRef) : Prop where
  qualified : ref.qualifiedName.toList = root ++ '.' :: dotted ref.generatedName.toList
  noDot : '.' ∉ ref.generatedName.toList
  typeName_eq : typeName ref.generatedName = ref.generatedName
  unmarked_eq : unmarked ref.generatedName = ref.generatedName

/-- The qualified name of a scope, and what stands before the generated names of its types. -/
structure Opened (root : List Char) (scope outer : String) : Prop where
  qualified : scope.toList ++ ['.'] = root ++ '.' :: dotted outer.toList
  noDot : '.' ∉ outer.toList
  noHash : '#' ∉ outer.toList
  nested : outer = "" ∨ '_' ∈ outer.toList

namespace Opened

variable {root : List Char} {scope outer name : String}

lemma top (package : String) : Opened (packageScope package).toList (packageScope package) "" :=
  ⟨rfl, by simp, by simp, .inl rfl⟩

section

variable (h : Opened root scope outer) (hname : IsPlain name)

include h hname

lemma toList_qualify :
    (qualify scope name).toList = root ++ '.' :: dotted (outer ++ name).toList := by
  rw [qualify, String.toList_append, String.toList_append, String.toList_append, dotted_append,
    dotted_eq_self hname.simple.1, ← cons_append, ← append_assoc, ← h.qualified]
  rfl

lemma enter :
    Opened root (qualify scope name) (outer ++ name ++ "_") where
  qualified := by
    have hjoint :
        dotted (outer ++ name ++ "_").toList = dotted (outer ++ name).toList ++ ['.'] := by
      rw [String.toList_append, dotted_append]
      rfl
    rw [h.toList_qualify hname, hjoint, append_assoc, cons_append]
  noDot := by simp [h.noDot, hname.simple.2]
  noHash := by simp [h.noHash, hname.noHash]
  nested := .inr (by simp)

lemma not_mem_reserved : outer ++ name ∉ reserved := by
  intro hreserved
  have hlone : ∀ word ∈ reserved, '_' ∈ word.toList → word.toList.length = 1 := by decide +kernel
  rcases h.nested with rfl | hjoint
  · rw [String.empty_append] at hreserved
    exact hname.not_reserved hreserved
  · have hlength := hlone _ hreserved (by simp [hjoint])
    have houter := length_pos_of_mem hjoint
    have hpos : 0 < name.toList.length :=
      length_pos_iff.mpr fun hnil => hname.nonempty (String.toList_eq_nil_iff.mp hnil)
    rw [String.toList_append, length_append] at hlength
    omega

lemma joined {ref : TypeRef} (hqualified : ref.qualifiedName = qualify scope name)
    (hgenerated : ref.generatedName = outer ++ name) : Joined root ref := by
  have hmark : unmarked (outer ++ name) = outer ++ name := by
    apply unmarked_eq_self
    intro cs hcs
    have hhash : '#' ∈ (outer ++ name).toList := by simp [hcs]
    rw [String.toList_append, mem_append] at hhash
    exact hhash.elim h.noHash hname.noHash
  refine ⟨?_, ?_, ?_, ?_⟩
  · rw [hqualified, hgenerated]
    exact h.toList_qualify hname
  · rw [hgenerated]
    simp [h.noDot, hname.simple.2]
  · rw [hgenerated, typeName, if_neg, hmark]
    simpa using h.not_mem_reserved hname
  · rw [hgenerated, hmark]

end

end Opened

/-! ## The names of a file -/

section

variable {root : List Char} {o : Origin}

lemma enumEntry_joined {scope outer : String} (h : Opened root scope outer) {e : Enum}
    (hname : IsPlain e.name) : Joined root (enumEntry o scope outer e).ref :=
  h.joined hname rfl rfl

mutual

/-- The names of the types of a message are joined if all of them are plain. -/
theorem messageEntries_joined {scope outer : String} (h : Opened root scope outer) :
    ∀ {m : Message}, (∀ e ∈ messageEntries o scope outer m, IsPlain e.descriptor.name) →
      ∀ e ∈ messageEntries o scope outer m, Joined root e.ref
  | ⟨name, fields, messages, enums, oneofs, isMapEntry, path⟩, hplain, e, he => by
    simp only [messageEntries, mem_append, mem_map, mem_singleton] at hplain he
    have hname : IsPlain name := hplain _ (.inr rfl)
    rcases he with (⟨enum, henum, rfl⟩ | he) | rfl
    · exact enumEntry_joined (h.enter hname) (hplain _ (.inl (.inl ⟨enum, henum, rfl⟩)))
    · exact messagesEntries_joined (h.enter hname)
        (fun e he => hplain e (.inl (.inr he))) e he
    · exact h.joined hname rfl rfl

theorem messagesEntries_joined {scope outer : String} (h : Opened root scope outer) :
    ∀ {ms : List Message}, (∀ e ∈ messagesEntries o scope outer ms, IsPlain e.descriptor.name) →
      ∀ e ∈ messagesEntries o scope outer ms, Joined root e.ref
  | [], _, e, he => by
    rw [messagesEntries] at he
    cases he
  | m :: ms, hplain, e, he => by
    simp only [messagesEntries, mem_append] at hplain he
    rcases he with he | he
    · exact messageEntries_joined h (fun e he => hplain e (.inl he)) e he
    · exact messagesEntries_joined h (fun e he => hplain e (.inr he)) e he

end

lemma entries_joined {f : File} (hplain : ∀ e ∈ f.entries, IsPlain e.descriptor.name) :
    ∀ e ∈ f.entries, Joined (packageScope f.package).toList e.ref := by
  have htop := Opened.top f.package
  intro e he
  simp only [File.entries, mem_append, mem_map] at hplain he
  rcases he with ⟨enum, henum, rfl⟩ | he
  · exact enumEntry_joined htop (hplain _ (.inl ⟨enum, henum, rfl⟩))
  · exact messagesEntries_joined htop (fun e he => hplain e (.inr he)) e he

end

namespace Joined

variable {root : List Char} {x y : TypeRef} (hx : Joined root x) (hy : Joined root y)

include hx hy

lemma generatedName_eq_append {t : String} (ht : '.' ∉ t.toList) :
    y.generatedName = x.generatedName ++ t ↔
      y.qualifiedName.toList = x.qualifiedName.toList ++ dotted t.toList := by
  rw [hx.qualified, hy.qualified, append_assoc, cons_append, ← dotted_append,
    ← String.toList_append]
  constructor
  · intro h
    rw [h]
  · intro h
    apply String.toList_inj.mp
    refine eq_of_dotted_eq hy.noDot ?_ (cons.inj (append_cancel_left h)).2
    simp [hx.noDot, ht]

lemma generatedName_eq_iff :
    y.generatedName = x.generatedName ↔ y.qualifiedName = x.qualifiedName := by
  have h := generatedName_eq_append hx hy (t := "") (by simp)
  simpa [dotted, String.toList_inj] using h

lemma generatedName_eq_ending {t : String} (ht : IsSimple t) :
    y.generatedName = x.generatedName ++ t ↔ y.qualifiedName = x.qualifiedName ++ t := by
  rw [generatedName_eq_append hx hy ht.2, dotted_eq_self ht.1, ← String.toList_append,
    String.toList_inj]

lemma generatedName_eq_joined {t : String} (ht : IsSimple t) :
    y.generatedName = x.generatedName ++ "_" ++ t ↔
      y.qualifiedName = qualify x.qualifiedName t := by
  have hdots : dotted ("_" ++ t).toList = ("." ++ t).toList := by
    rw [String.toList_append, dotted_append, dotted_eq_self ht.1, String.toList_append]
    rfl
  rw [String.append_assoc, generatedName_eq_append hx hy (by simp [ht.2]), hdots, qualify,
    String.append_assoc, ← String.toList_append, String.toList_inj]

end Joined

lemma append_cons_inj {c : Char} {as bs vs ws : List Char} (hv : c ∉ vs) (hw : c ∉ ws)
    (h : as ++ c :: vs = bs ++ c :: ws) : as = bs ∧ vs = ws := by
  rcases append_eq_append_iff.mp h with ⟨ms, hbs, hms⟩ | ⟨ms, has, hms⟩
  · rcases ms with _ | ⟨d, ms⟩
    · exact ⟨by simpa using hbs.symm, (cons.inj hms).2⟩
    · exact absurd (by simp [(cons.inj hms).2]) hv
  · rcases ms with _ | ⟨d, ms⟩
    · exact ⟨by simpa using has, (cons.inj hms).2.symm⟩
    · exact absurd (by simp [(cons.inj hms).2]) hw

lemma joined_inj {a b v w : String} (hv : IsSimple v) (hw : IsSimple w)
    (h : a ++ "_" ++ v = b ++ "_" ++ w) : a = b ∧ v = w := by
  have hlists := congrArg String.toList h
  simp only [String.toList_append, append_assoc] at hlists
  obtain ⟨ha, ht⟩ := append_cons_inj hv.1 hw.1 hlists
  exact ⟨String.toList_inj.mp ha, String.toList_inj.mp ht⟩

lemma ne_joined (a v : String) : a ≠ a ++ "_" ++ v := by
  intro h
  have hlength := congrArg (fun s : String => s.toList.length) h
  simp at hlength

lemma IsSimple.append {v w : String} (hv : IsSimple v) (hw : IsSimple w) : IsSimple (v ++ w) :=
  ⟨by simp [hv.1, hw.1], by simp [hv.2, hw.2]⟩

lemma isSimple_oneof : IsSimple "Oneof" := by decide

lemma isSimple_partial : IsSimple "Partial" := by decide

section

variable {root : List Char} {r : Registry} {o : Options} {entries : List Entry}
  (hjoined : ∀ e ∈ entries, Joined root e.ref)
  (hregistered : ∀ e ∈ entries, registeredName r e = e.ref.generatedName)
  (hgroups : ∀ e ∈ entries, ∀ v ∈ unionGroups o e.descriptor, IsSimple v)

include hjoined hregistered

lemma mem_ownNames {e : Entry} (he : e ∈ entries) {n : String} :
    n ∈ ownNames r o e ↔ n = e.ref.generatedName ∨
      ∃ v ∈ unionGroups o e.descriptor, e.ref.generatedName ++ "_" ++ (v ++ "Oneof") = n := by
  have hj := hjoined e he
  simp only [ownNames, hregistered e he, hj.typeName_eq, mem_cons, mem_map,
    unionName_eq, hj.unmarked_eq, String.append_assoc]

include hgroups

/-- The types of entries other than partials have different names exactly if no two oneofs of a
message have the same name, and no message holds a type with the name of one of its unions. -/
lemma nodup_ownNames_iff (hnodup : (entries.map fun e => e.ref.qualifiedName).Nodup) :
    (entries.flatMap (ownNames r o)).Nodup ↔
      ∀ e ∈ entries, (unionGroups o e.descriptor).Nodup ∧
        ∀ v ∈ unionGroups o e.descriptor, qualify e.ref.qualifiedName (v ++ "Oneof") ∉
          entries.map fun e => e.ref.qualifiedName := by
  rw [nodup_flatMap]
  constructor
  · rintro ⟨hown, hdisjoint⟩ e he
    refine ⟨(nodup_cons.mp (hown e he)).2.of_map _, ?_⟩
    intro v hv hmem
    obtain ⟨y, hy, hqualified⟩ := mem_map.mp hmem
    have hsimple := (hgroups e he v hv).append isSimple_oneof
    have hname := ((hjoined e he).generatedName_eq_joined (hjoined y hy) hsimple).mpr hqualified
    have hne : y ≠ e := by
      rintro rfl
      exact ne_joined _ _ hname
    have hsymm : Std.Symm (Function.onFun List.Disjoint (ownNames r o)) :=
      ⟨fun _ _ h => List.Disjoint.symm h⟩
    have happart := hdisjoint.forall hy he hne
    exact happart ((mem_ownNames hjoined hregistered hy).mpr (.inl rfl))
      ((mem_ownNames hjoined hregistered he).mpr (.inr ⟨v, hv, hname.symm⟩))
  · intro h
    constructor
    · intro e he
      rw [ownNames, nodup_cons]
      constructor
      · intro hmem
        obtain ⟨v, -, hname⟩ := mem_map.mp hmem
        rw [hregistered e he, (hjoined e he).typeName_eq, unionName_eq, (hjoined e he).unmarked_eq,
          String.append_assoc] at hname
        exact ne_joined _ _ hname.symm
      · apply List.Nodup.map _ (h e he).1
        intro v w hname
        simpa [unionName_eq] using hname
    · refine (pairwise_map.mp hnodup).imp_of_mem ?_
      intro x y hx hy hne n hn hn'
      have hgenerated : y.ref.generatedName ≠ x.ref.generatedName := fun heq =>
        hne (((hjoined x hx).generatedName_eq_iff (hjoined y hy)).mp heq).symm
      -- A type and a union of another message are apart by assumption.
      have hunion {x y : Entry} (hx : x ∈ entries) (hy : y ∈ entries) {v : String}
          (hv : v ∈ unionGroups o y.descriptor) :
          x.ref.generatedName ≠ y.ref.generatedName ++ "_" ++ (v ++ "Oneof") := by
        intro hname
        have hsimple := (hgroups y hy v hv).append isSimple_oneof
        apply (h y hy).2 v hv
        rw [← ((hjoined y hy).generatedName_eq_joined (hjoined x hx) hsimple).mp hname]
        exact mem_map_of_mem hx
      rcases (mem_ownNames hjoined hregistered hx).mp hn with rfl | ⟨v, hv, rfl⟩
      · rcases (mem_ownNames hjoined hregistered hy).mp hn' with hname | ⟨w, hw, hname⟩
        · exact hgenerated hname.symm
        · exact hunion hx hy hw hname.symm
      · rcases (mem_ownNames hjoined hregistered hy).mp hn' with hname | ⟨w, hw, hname⟩
        · exact hunion hy hx hv hname.symm
        · exact hgenerated (joined_inj ((hgroups y hy w hw).append isSimple_oneof)
            ((hgroups x hx v hv).append isSimple_oneof) hname).1

/-- No partial of an entry has the name of another type exactly if neither has one beside it nor one
in it, in the schema. -/
lemma partial_not_mem_iff {e : Entry} (he : e ∈ entries) :
    (∀ n ∈ ownNames r o e, n ++ "Partial" ∉
        entries.map fun e => typeName (registeredName r e)) ↔
      e.ref.qualifiedName ++ "Partial" ∉ entries.map (fun e => e.ref.qualifiedName) ∧
        ∀ v ∈ unionGroups o e.descriptor, qualify e.ref.qualifiedName (v ++ "OneofPartial") ∉
          entries.map fun e => e.ref.qualifiedName := by
  have hnames : (entries.map fun e => typeName (registeredName r e)) =
      entries.map fun e => e.ref.generatedName :=
    map_congr_left fun y hy => by rw [hregistered y hy, (hjoined y hy).typeName_eq]
  have hown : e.ref.generatedName ++ "Partial" ∈ entries.map (fun e => e.ref.generatedName) ↔
      e.ref.qualifiedName ++ "Partial" ∈ entries.map fun e => e.ref.qualifiedName := by
    simp only [mem_map]
    refine exists_congr fun y => and_congr_right fun hy => ?_
    exact (hjoined e he).generatedName_eq_ending (hjoined y hy) isSimple_partial
  have hunion {v : String} (hv : v ∈ unionGroups o e.descriptor) :
      e.ref.generatedName ++ "_" ++ (v ++ "OneofPartial") ∈
          entries.map (fun e => e.ref.generatedName) ↔
        qualify e.ref.qualifiedName (v ++ "OneofPartial") ∈
          entries.map fun e => e.ref.qualifiedName := by
    simp only [mem_map]
    refine exists_congr fun y => and_congr_right fun hy => ?_
    apply (hjoined e he).generatedName_eq_joined (hjoined y hy)
    exact (hgroups e he v hv).append (isSimple_oneof.append isSimple_partial)
  have hending (v : String) : e.ref.generatedName ++ "_" ++ (v ++ "Oneof") ++ "Partial" =
      e.ref.generatedName ++ "_" ++ (v ++ "OneofPartial") := by
    simp only [String.append_assoc, String.append_right_inj]
    rfl
  rw [hnames]
  constructor
  · intro h
    constructor
    · rw [← hown]
      exact h _ ((mem_ownNames hjoined hregistered he).mpr (.inl rfl))
    · intro v hv
      rw [← hunion hv, ← hending]
      exact h _ ((mem_ownNames hjoined hregistered he).mpr (.inr ⟨v, hv, rfl⟩))
  · rintro ⟨hbeside, hwithin⟩ n hn
    rcases (mem_ownNames hjoined hregistered he).mp hn with rfl | ⟨v, hv, rfl⟩
    · rw [hown]
      exact hbeside
    · rw [hending, hunion hv]
      exact hwithin v hv

end

/-- A file of a set in which all types have different names finds its own types. -/
lemma registeredName_eq {files : List File} {f : File} (hf : f ∈ files)
    (hnodup : ((files.flatMap File.entries).map fun e => e.ref.qualifiedName).Nodup) :
    ∀ e ∈ f.entries, registeredName (Registry.ofFiles files).value e = e.ref.generatedName := by
  intro e he
  have hmem : e ∈ (Registry.ofFiles files).value.entries := by
    rw [Registry.ofFiles_entries hnodup]
    exact mem_flatMap.mpr ⟨f, hf, he⟩
  rw [registeredName, Registry.find?_of_mem (Registry.ofFiles_nodup files) hmem]
  rfl

/-- No type is declared in the schema where the names of the unions and partials of an entry
are. -/
structure HasRoom (o : Options) (names : List String) (e : Entry) : Prop where
  groups : (unionGroups o e.descriptor).Nodup
  unions : ∀ v ∈ unionGroups o e.descriptor, qualify e.ref.qualifiedName (v ++ "Oneof") ∉ names
  partials : o.jsonCodec = true → e.message?.isSome = true →
    e.ref.qualifiedName ++ "Partial" ∉ names ∧
      ∀ v ∈ unionGroups o e.descriptor, qualify e.ref.qualifiedName (v ++ "OneofPartial") ∉ names

instance (o : Options) (names : List String) (e : Entry) : Decidable (HasRoom o names e) :=
  decidable_of_iff
    ((unionGroups o e.descriptor).Nodup ∧
      (∀ v ∈ unionGroups o e.descriptor, qualify e.ref.qualifiedName (v ++ "Oneof") ∉ names) ∧
      (o.jsonCodec = true → e.message?.isSome = true →
        e.ref.qualifiedName ++ "Partial" ∉ names ∧
          ∀ v ∈ unionGroups o e.descriptor,
            qualify e.ref.qualifiedName (v ++ "OneofPartial") ∉ names))
    ⟨fun h => ⟨h.1, h.2.1, h.2.2⟩, fun h => ⟨h.groups, h.unions, h.partials⟩⟩

/-- The enums and messages of a generated file declare a type each, a type for each union, and with
the JSON codec the partials of messages and their unions. These have different names exactly if
messages, enums and unions have, and no partial is called like a message or an enum. Where names can
be told from what they are joined with, that is so exactly if no two oneofs of a message have the
same name, and no type is declared beside or in a message with the name of one of its partials or
unions. -/
theorem declaredNames_nodup_iff {r : Registry} {o : Options} {f : File} {file : GeneratedFile}
    (h : (generateFile r o f).run.value = .ok file) :
    ∃ before types after, typeItems (scopeOf r o f) f = .ok types ∧
      file.items = before ++ types ++ after ∧
      (declaredNames types).Perm (f.entries.flatMap (entryNames r o)) ∧
      ((declaredNames types).Nodup ↔
        (f.entries.flatMap (ownNames r o)).Nodup ∧
          (o.jsonCodec = true → ∀ e ∈ f.entries, e.message?.isSome = true → ∀ n ∈ ownNames r o e,
            n ++ "Partial" ∉ f.entries.map fun e => typeName (registeredName r e))) ∧
      ((f.entries.map fun e => e.ref.qualifiedName).Nodup →
        (∀ e ∈ f.entries, registeredName r e = e.ref.generatedName) →
        (∀ e ∈ f.entries, IsPlain e.descriptor.name) →
        (∀ e ∈ f.entries, ∀ v ∈ unionGroups o e.descriptor, IsSimple v) →
        ((declaredNames types).Nodup ↔
          ∀ e ∈ f.entries, HasRoom o (f.entries.map fun e => e.ref.qualifiedName) e)) := by
  obtain ⟨before, types, after, htypes, hitems⟩ := exists_typeItems h
  have hperm := (typeItems_emitted htypes).declares
  have hiff := hperm.nodup_iff.trans (nodup_entryNames_iff r o f.entries)
  refine ⟨before, types, after, htypes, hitems, hperm, hiff, ?_⟩
  intro hnodup hregistered hplain hsimple
  have hjoined := entries_joined hplain
  have hpartials {e : Entry} (he : e ∈ f.entries) :=
    partial_not_mem_iff hjoined hregistered hsimple he
  rw [hiff, nodup_ownNames_iff hjoined hregistered hsimple hnodup]
  constructor
  · rintro ⟨hown, hpartial⟩ e he
    exact ⟨(hown e he).1, (hown e he).2, fun hjson hmessage =>
      (hpartials he).mp (hpartial hjson e he hmessage)⟩
  · intro hroom
    refine ⟨fun e he => ⟨(hroom e he).groups, (hroom e he).unions⟩, ?_⟩
    intro hjson e he hmessage
    exact (hpartials he).mpr ((hroom e he).partials hjson hmessage)

private def artFile (messages : List Message) : File :=
  ⟨"art.proto", "art", .proto3, messages, [], [], [], .empty⟩

/-- Options without codecs, with oneofs as unions. -/
private def artOptions : Options :=
  { oneofs := .union, binaryCodec := false, jsonCodec := false }

/-- A message with a message in it and a oneof. -/
private def drawing : File :=
  artFile [⟨"Shape", [⟨"side", 1, .scalar .int32, .optional, none, some 0, false, []⟩],
    [⟨"Circle", [], [], [], [], false, []⟩], [], [⟨"kind", []⟩], false, []⟩]

/-- The nested message and the union of the oneof have names of their own. -/
theorem declaredNames_nodup_drawing : ∃ file before types after,
    (generateFile (Registry.ofFiles [drawing]).value artOptions drawing).run.value = .ok file ∧
      file.items = before ++ types ++ after ∧
      (declaredNames types).Perm ["Shape_Circle", "Shape", "Shape_KindOneof"] ∧
      (declaredNames types).Nodup := by
  have hok : ((generateFile (Registry.ofFiles [drawing]).value artOptions
      drawing).run.value.toOption.any fun _ => true) = true := by decide +kernel
  have hnames : drawing.entries.flatMap
      (entryNames (Registry.ofFiles [drawing]).value artOptions) =
        ["Shape_Circle", "Shape", "Shape_KindOneof"] := by decide +kernel
  have hnodup : (([drawing].flatMap File.entries).map fun e => e.ref.qualifiedName).Nodup := by
    decide +kernel
  obtain ⟨file, hfile, -⟩ := exists_ok_of_any hok
  obtain ⟨before, types, after, -, hitems, hperm, -, hiff⟩ := declaredNames_nodup_iff hfile
  refine ⟨file, before, types, after, hfile, hitems, hnames ▸ hperm, ?_⟩
  refine (hiff ?_ (registeredName_eq (by simp) hnodup) ?_ ?_).mpr ?_
  · simpa using hnodup
  · decide +kernel
  · decide +kernel
  · decide +kernel

/-- Two messages, with a message in the one that gets the name of the other. -/
private def clash : File :=
  artFile [⟨"A", [], [⟨"B", [], [], [], [], false, []⟩], [], [], false, []⟩,
    ⟨"A_B", [], [], [], [], false, []⟩]

/-- Messages with different qualified names are declared with one name. -/
theorem declaredNames_clash : (clash.entries.map fun e => e.ref.qualifiedName).Nodup ∧
    ∃ file, (generateFile (Registry.ofFiles [clash]).value artOptions clash).run.value = .ok file ∧
      (declaredNames file.items).count "A_B" = 2 := by
  have htwice : ((generateFile (Registry.ofFiles [clash]).value artOptions
      clash).run.value.toOption.any fun file => (declaredNames file.items).count "A_B" == 2) =
        true := by decide +kernel
  obtain ⟨file, hfile, hcount⟩ := exists_ok_of_any htwice
  exact ⟨by decide +kernel, file, hfile, beq_iff_eq.mp hcount⟩

end Protobuf.Emit
