import Protobuf.Proofs.Build.FileHeaders

/-!
# The types that a generated file declares

Every enum becomes one type. Every message becomes one type, with one more for each
of its oneofs that is held as a union, and with the JSON codec there is a partial of
each of these. What they are called follows from the generated name of the message
or enum, as it is registered.
-/

open List Protobuf.Plan.Member Except

namespace Protobuf.Source

/-! ## Names of identifiers -/

/-- A text without the mark of a raw identifier. -/
def unmarked (s : String) : String :=
  if ['r', '#'].isPrefixOf s.toList then String.ofList (s.toList.drop 2) else s

lemma unmarked_eq_self {s : String} (h : ∀ cs, s.toList ≠ 'r' :: '#' :: cs) : unmarked s = s := by
  apply if_neg
  intro hmark
  obtain ⟨cs, hcs⟩ := isPrefixOf_iff_prefix.mp hmark
  exact h cs hcs.symm

lemma unmarked_append {s t : String} {c : Char} {cs : List Char} (ht : t.toList = c :: cs)
    (hr : c ≠ 'r') (hhash : c ≠ '#') : unmarked (s ++ t) = unmarked s ++ t := by
  apply String.toList_inj.mp
  rcases hs : s.toList with _ | ⟨a, _ | ⟨b, rest⟩⟩
  · simp [unmarked, hs, ht, hr.symm]
  · simp [unmarked, hs, ht, hhash.symm]
  · by_cases hmark : 'r' = a ∧ '#' = b
    · obtain ⟨rfl, rfl⟩ := hmark
      simp [unmarked, hs]
    · simp [unmarked, hs, hmark]

lemma unmarked_of_isIdentifier {s : String} (h : Text.isIdentifier s.toList) :
    unmarked s = s := by
  have hhash : Text.isIdentifierContinue '#' = false := by decide +kernel
  apply unmarked_eq_self
  intro cs hcs
  simp [hcs, Text.isIdentifier, hhash] at h

namespace Ident

lemma ofText?_eq_some {s : String} {i : Ident} (h : ofText? s = some i) :
    i.name = unmarked s ∧ Text.isIdentifier i.name.toList := by
  unfold ofText? at h
  split at h
  · rename_i cs hcs
    dsimp only at h
    split_ifs at h with hident
    cases h
    rw [Bool.and_eq_true] at hident
    exact ⟨by simp [unmarked, hcs], by simpa using hident.1⟩
  · rename_i hother
    split_ifs at h with hident
    cases h
    exact ⟨(unmarked_eq_self fun cs hcs => hother cs hcs).symm, hident⟩

end Ident

end Protobuf.Source

namespace Protobuf.Emit

open Naming
open Plan
open Protobuf.Schema
open Source

def typeName (generated : String) : String :=
  if reserved.contains generated then generated ++ "_" else unmarked generated

def groupName (group : String) : String :=
  ((variantIdent? group).map Ident.name).getD ""

/-- What the union of a oneof is called, in a message with a generated name. -/
def unionName (generated group : String) : String :=
  unmarked (generated ++ "_" ++ group ++ "Oneof")

variable {i : Ident}

lemma escape?_eq_some {generated : String} (h : Ident.escape? generated = some i) :
    i.name = typeName generated ∧ Text.isIdentifier i.name.toList := by
  unfold Ident.escape? at h
  unfold typeName
  split_ifs at h with hreserved hkeyword
  · have hmark : ∀ word ∈ reserved, unmarked (word ++ "_") = word ++ "_" := by decide +kernel
    obtain ⟨hname, hident⟩ := Ident.ofText?_eq_some h
    rw [if_pos hreserved]
    exact ⟨hname.trans (hmark generated (contains_iff_mem.mp hreserved)), hident⟩
  · have hword : ∀ word ∈ keywords,
        unmarked word = word ∧ Text.isIdentifier word.toList = true := by
      decide +kernel
    obtain ⟨hmark, hident⟩ := hword generated (contains_iff_mem.mp hkeyword)
    cases h
    rw [if_neg hreserved]
    exact ⟨hmark.symm, hident⟩
  · rw [if_neg hreserved]
    exact Ident.ofText?_eq_some h

lemma unionTypeIdent?_eq_some {generated group : String}
    (h : unionTypeIdent? generated group = some i) :
    i.name = unionName generated (groupName group) ∧
      Text.isIdentifier i.name.toList := by
  obtain ⟨v, hv, htext⟩ := Option.bind_eq_some_iff.mp h
  rw [groupName, hv]
  exact Ident.ofText?_eq_some htext

lemma ident_eq_ok {text : String} {i? : Option Ident} (h : Plan.ident text i? = .ok i) :
    i? = some i := by
  unfold Plan.ident at h
  split at h
  · rw [← ok.inj h]
  · cases h

/-- The partial of a type is called like the type, with a word at the end. -/
lemma partialIdent_eq_ok {j : Ident} (h : partialIdent i = .ok j) :
    j.name = unmarked i.name ++ "Partial" := by
  have hword : "Partial".toList = 'P' :: "artial".toList := by decide +kernel
  rw [(Ident.ofText?_eq_some (ident_eq_ok h)).1, unmarked_append hword (by decide) (by decide)]

/-! ## What items declare -/

/-- The names of the types that items declare. A raw identifier and a plain one can be the same
name. -/
def declaredNames (items : List Item) : List String :=
  items.filterMap fun i => i.declares.map Ident.name

lemma declaredNames_append (items items' : List Item) :
    declaredNames (items ++ items') = declaredNames items ++ declaredNames items' :=
  filterMap_append

@[simp]
lemma declaredNames_typeItem (i : Ident) (c : Code) (items : List Item) :
    declaredNames (typeItem i c :: items) = i.name :: declaredNames items :=
  rfl

@[simp]
lemma declaredNames_plainItem (c : Code) (items : List Item) :
    declaredNames (plainItem c :: items) = declaredNames items :=
  rfl

lemma declaredNames_of_mapM {α ε : Type} {f : α → Except ε Item} {k : α → String}
    (hf : ∀ a item, f a = .ok item → item.declares.map Ident.name = some (k a)) {as : List α}
    {items : List Item} (h : as.mapM f = .ok items) : declaredNames items = as.map k := by
  have hnames : items.map (fun i => i.declares.map Ident.name) = as.map fun a => some (k a) :=
    map_eq_of_mapM hf h
  calc
    declaredNames items = (items.map fun i => i.declares.map Ident.name).filterMap id := by
      rw [declaredNames, filterMap_map]
      rfl
    _ = as.map k := by
      rw [hnames, filterMap_map]
      exact congrFun filterMap_eq_map as

section

variable {s : Scope} {i : Ident} {members : List Member} {items : List Item}

lemma enumItems_eq_ok {e : Enum} (h : enumItems s e i = .ok items) :
    ∃ c methods default, items = [typeItem i c, plainItem methods, plainItem default] := by
  obtain ⟨plan, -, h⟩ := ok_of_bind h
  exact ⟨_, _, _, (ok.inj h).symm⟩

variable {item : Item}

lemma unionItem_declares {u : UnionPlan} (h : unionItem s u = .ok item) :
    item.declares.map Ident.name = some u.typeIdent.name := by
  obtain ⟨variants, -, h⟩ := ok_of_bind h
  cases h
  rfl

lemma messageItems_eq_ok {m : Message} (h : messageItems s m i members = .ok items) :
    ∃ c unions default, (members.filterMap Member.union?).mapM (unionItem s) = .ok unions ∧
      items = typeItem i c :: unions ++ [plainItem default] := by
  obtain ⟨properties, -, h⟩ := ok_of_bind h
  obtain ⟨unions, hunions, h⟩ := ok_of_bind h
  obtain ⟨values, -, h⟩ := ok_of_bind h
  exact ⟨_, unions, _, hunions, (ok.inj h).symm⟩

lemma messageItems_declares {m : Message} (h : messageItems s m i members = .ok items) :
    declaredNames items =
      i.name :: (members.filterMap Member.union?).map fun u => u.typeIdent.name := by
  obtain ⟨c, unions, default, hunions, rfl⟩ := messageItems_eq_ok h
  rw [cons_append, declaredNames_typeItem, declaredNames_append,
    declaredNames_of_mapM (fun _ _ => unionItem_declares) hunions, declaredNames_plainItem]
  exact congrArg _ (append_nil _)

lemma wireItem_declares (h : wireItem s i members = .ok item) : item.declares = none := by
  obtain ⟨writes, -, h⟩ := ok_of_bind h
  obtain ⟨arms, -, h⟩ := ok_of_bind h
  cases h
  rfl

lemma jsonItem_declares (h : jsonItem s i members = .ok item) : item.declares = none := by
  obtain ⟨reads, -, h⟩ := ok_of_bind h
  cases h
  rfl

lemma partialUnion_declares {u : UnionPlan} (h : partialUnion s u = .ok item) :
    item.declares.map Ident.name = some (unmarked u.typeIdent.name ++ "Partial") := by
  obtain ⟨j, hj, h⟩ := ok_of_bind h
  obtain ⟨variants, -, h⟩ := ok_of_bind h
  cases h
  exact congrArg some (partialIdent_eq_ok hj)

lemma partialItems_eq_ok (h : partialItems s i members = .ok items) :
    ∃ j c unions conversion, partialIdent i = .ok j ∧
      (members.filterMap Member.union?).mapM (partialUnion s) = .ok unions ∧
      items = typeItem j c :: unions ++ [plainItem conversion] := by
  obtain ⟨j, hj, h⟩ := ok_of_bind h
  obtain ⟨fields, -, h⟩ := ok_of_bind h
  obtain ⟨merges, -, h⟩ := ok_of_bind h
  obtain ⟨unions, hunions, h⟩ := ok_of_bind h
  exact ⟨j, _, unions, _, hj, hunions, (ok.inj h).symm⟩

lemma partialItems_declares (h : partialItems s i members = .ok items) :
    declaredNames items =
      (i.name :: (members.filterMap Member.union?).map fun u => u.typeIdent.name).map
        fun n => unmarked n ++ "Partial" := by
  obtain ⟨j, c, unions, conversion, hj, hunions, rfl⟩ := partialItems_eq_ok h
  rw [cons_append, declaredNames_typeItem, declaredNames_append,
    declaredNames_of_mapM (fun _ _ => partialUnion_declares) hunions, declaredNames_plainItem,
    map_cons, map_map, partialIdent_eq_ok hj]
  exact congrArg _ (append_nil _)

end

/-! ## Unions of a message -/

def usedOneofs (m : Message) : List (Oneof × Nat) :=
  m.oneofs.zipIdx.filter fun p => m.fields.any fun f => f.oneof == some p.2

/-- The names of the oneofs that become unions, of which an enum has none. -/
def unionGroups (o : Options) : TypeDescriptor → List String
  | .enum _ => []
  | .message m =>
    if o.oneofs = .union then (usedOneofs m).map fun p => groupName p.1.name else []

section

open Scope

variable {s : Scope} {ref : TypeRef} {message : Message} {group : Nat} {oneof : Oneof}
  {ms : List Member}

lemma leading_keys (key : Field → Option Nat) (placed : List Nat) (fields : List Field) :
    ((leading key placed fields).filterMap key).Nodup ∧ ∀ group,
      group ∈ (leading key placed fields).filterMap key ↔
        group ∉ placed ∧ group ∈ fields.filterMap key := by
  induction fields generalizing placed with
  | nil => simp [leading]
  | cons f fields ih => grind [leading]

/-- One union is planned for each oneof with a field. -/
lemma planMembers_groups (h : s.planMembers ref message [] message.fields = .ok ms) :
    ((ms.filterMap Member.union?).map UnionPlan.group).Nodup ∧
      ∀ group, group ∈ (ms.filterMap Member.union?).map UnionPlan.group ↔
        group ∈ message.fields.filterMap (s.unionGroup message) := by
  have hgroups : (ms.filterMap union?).map UnionPlan.group =
      (leading (s.unionGroup message) [] message.fields).filterMap (s.unionGroup message) := by
    rw [planMembers_eq_ok] at h
    generalize leading (s.unionGroup message) [] message.fields = starts at h
    induction h with
    | nil => rfl
    | cons hm _ ih =>
      rcases planMember_eq_ok hm with ⟨p, hnone, -, rfl⟩ | ⟨u, group, oneof, hunion, hu, rfl⟩
      · simp [filterMap_cons, union?, unionGroup, hnone, ih]
      · simp [union?, unionGroup, hunion, (planUnion_eq_ok hu).1, ih]
  rw [hgroups]
  simpa using leading_keys (s.unionGroup message) [] message.fields

lemma planMembers_typeIdents (h : s.planMembers ref message [] message.fields = .ok ms) :
    ∀ u ∈ ms.filterMap Member.union?, ∃ oneof, message.oneofs[u.group]? = some oneof ∧
      unionTypeIdent? ref.generatedName oneof.name = some u.typeIdent := by
  intro u hu
  obtain ⟨m, hm, hunion⟩ := mem_filterMap.mp hu
  rcases planMembers_mem (fun _ hf => hf) h m hm with
    ⟨p, f, -, rfl, -⟩ | ⟨u', group, oneof, rfl, hplan, f, hgroup⟩ <;> cases hunion
  obtain ⟨rfl, -, htype⟩ := planUnion_eq_ok hplan
  exact ⟨oneof, (unionOf?_eq_some.mp hgroup).2.2, ident_eq_ok htype⟩

lemma mem_usedOneofs :
    (oneof, group) ∈ usedOneofs message ↔
      message.oneofs[group]? = some oneof ∧ ∃ f ∈ message.fields, f.oneof = some group := by
  simp [usedOneofs, mem_filter, mk_mem_zipIdx_iff_getElem?]

lemma nodup_usedOneofs (m : Message) : ((usedOneofs m).map Prod.snd).Nodup := by
  refine List.Nodup.sublist (List.Sublist.map _ filter_sublist) ?_
  rw [zipIdx_map_snd]
  exact nodup_range'

lemma mem_filterMap_unionGroup : group ∈ message.fields.filterMap (s.unionGroup message) ↔
    s.options.oneofs = .union ∧ group ∈ (usedOneofs message).map Prod.snd := by
  simp only [mem_filterMap, unionGroup, Option.map_eq_some_iff, mem_map, Prod.exists,
    unionOf?_eq_some, mem_usedOneofs]
  grind

/-- The unions of a message are called after its oneofs that have a field. -/
lemma planMembers_unionNames (h : s.planMembers ref message [] message.fields = .ok ms) :
    ((ms.filterMap Member.union?).map fun u => u.typeIdent.name).Perm
      ((unionGroups s.options (.message message)).map (unionName ref.generatedName)) := by
  obtain ⟨hnodup, hmem⟩ := planMembers_groups h
  have hidents := planMembers_typeIdents h
  let nameAt (group : Nat) : String :=
    unionName ref.generatedName (groupName ((message.oneofs[group]?.map Oneof.name).getD ""))
  have hnames : ((ms.filterMap union?).map fun u => u.typeIdent.name) =
      ((ms.filterMap union?).map UnionPlan.group).map nameAt := by
    rw [map_map]
    refine map_congr_left fun u hu => ?_
    obtain ⟨oneof, honeof, htype⟩ := hidents u hu
    rw [(unionTypeIdent?_eq_some htype).1]
    simp [nameAt, honeof]
  rw [hnames, unionGroups]
  split_ifs with hoptions
  · have hgroups : ((ms.filterMap union?).map UnionPlan.group).Perm
        ((usedOneofs message).map Prod.snd) := by
      refine (perm_ext_iff_of_nodup hnodup (nodup_usedOneofs message)).mpr fun group => ?_
      rw [hmem, mem_filterMap_unionGroup]
      simp [hoptions]
    have hused : ((usedOneofs message).map Prod.snd).map nameAt =
        ((usedOneofs message).map fun p => groupName p.1.name).map
          (unionName ref.generatedName) := by
      rw [map_map, map_map]
      refine map_congr_left fun p hp => ?_
      simp [nameAt, (mem_usedOneofs.mp hp).1]
    rw [← hused]
    exact hgroups.map nameAt
  · have hnone : (ms.filterMap union?).map UnionPlan.group = [] := by
      rw [eq_nil_iff_forall_not_mem]
      intro group hgroup
      exact hoptions (mem_filterMap_unionGroup.mp ((hmem group).mp hgroup)).1
    rw [hnone]
    rfl

end

/-! ## Types of a file -/

/-- The generated name under which the qualified name of an entry is registered. -/
def registeredName (r : Registry) (e : Entry) : String :=
  ((r.find? e.ref.qualifiedName).map fun e => e.ref.generatedName).getD ""

def ownNames (r : Registry) (o : Options) (e : Entry) : List String :=
  typeName (registeredName r e) ::
    (unionGroups o e.descriptor).map (unionName (registeredName r e))

def partialNames (r : Registry) (o : Options) (e : Entry) : List String :=
  if o.jsonCodec && e.message?.isSome then (ownNames r o e).map (· ++ "Partial") else []

def entryNames (r : Registry) (o : Options) (e : Entry) : List String :=
  ownNames r o e ++ partialNames r o e

/-- The items of the type of an entry alone, as they are generated. -/
inductive Emitted (s : Scope) : Entry → List Item → Prop
  | enum {ref : TypeRef} {e : Enum} {referencedBy : String} {items : List Item} :
      emitEnum s ref.qualifiedName referencedBy e = .ok items → Emitted s ⟨ref, .enum e⟩ items
  | message {ref : TypeRef} {m : Message} {referencedBy : String} {items : List Item} :
      emitOwn s ref.qualifiedName referencedBy m = .ok items → Emitted s ⟨ref, .message m⟩ items

section

variable {s : Scope} {qualified referencedBy : String} {items items' : List Item} {e : Entry}

/-- The identifier of a type is that of its registered name. -/
lemma resolve_ident {α : Type} {f : Entry → Ident → Except CompileError α} {a : α}
    (h : (do
      let entry ← s.registry.resolve qualified referencedBy
      let i ← Plan.ident entry.ref.generatedName (Ident.escape? entry.ref.generatedName)
      f entry i) = .ok a) :
    ∃ entry i, s.registry.find? qualified = some entry ∧
      Ident.escape? entry.ref.generatedName = some i ∧ f entry i = .ok a := by
  obtain ⟨entry, hentry, h⟩ := ok_of_bind h
  obtain ⟨i, hi, h⟩ := ok_of_bind h
  exact ⟨entry, i, Registry.resolve_eq_ok hentry, ident_eq_ok hi, h⟩

/-- The items of a message are its declaration, then codecs, of which only the one for JSON declares
types. -/
lemma emitOwn_eq_ok {m : Message} (h : emitOwn s qualified referencedBy m = .ok items) :
    ∃ entry i members declaration wire json, s.registry.find? qualified = some entry ∧
      Ident.escape? entry.ref.generatedName = some i ∧
      s.planMembers entry.ref m [] m.fields = .ok members ∧
      messageItems s m i members = .ok declaration ∧ declaredNames wire = [] ∧
      (if s.options.jsonCodec then ∃ item partials, item.declares = none ∧
        partialItems s i members = .ok partials ∧ json = item :: partials else json = []) ∧
      items = declaration ++ wire ++ json := by
  obtain ⟨entry, i, hfind, hident, h⟩ := resolve_ident h
  obtain ⟨members, hmembers, h⟩ := ok_of_bind h
  obtain ⟨declaration, hdeclaration, h⟩ := ok_of_bind h
  obtain ⟨entry', hentry', hplanned⟩ := ok_of_bind hmembers
  obtain rfl : entry = entry' :=
    Option.some.inj (hfind.symm.trans (Registry.resolve_eq_ok hentry'))
  refine ⟨entry, i, members, declaration, ?_⟩
  -- The JSON codec is dealt with alike after both branches for the binary one.
  obtain ⟨wire, hwire, h⟩ : ∃ wire, declaredNames wire = [] ∧
      (if s.options.jsonCodec then (do
        let item ← jsonItem s i members
        let partials ← partialItems s i members
        return declaration ++ wire ++ (item :: partials))
      else return declaration ++ wire ++ []) = ok items := by
    dsimp only at h
    split at h
    · obtain ⟨item, hitem, h⟩ := ok_of_bind h
      exact ⟨[item], by simp [declaredNames, wireItem_declares hitem], h⟩
    · exact ⟨[], rfl, h⟩
  split_ifs at h ⊢
  · obtain ⟨item, hitem, h⟩ := ok_of_bind h
    obtain ⟨partials, hpartials, h⟩ := ok_of_bind h
    exact ⟨wire, _, hfind, hident, hplanned, hdeclaration, hwire,
      ⟨item, partials, jsonItem_declares hitem, hpartials, rfl⟩, (ok.inj h).symm⟩
  · exact ⟨wire, [], hfind, hident, hplanned, hdeclaration, hwire, rfl, (ok.inj h).symm⟩

/-- A message declares its type and its unions, and with the JSON codec their partials. -/
lemma emitOwn_declares {m : Message} (h : emitOwn s qualified referencedBy m = .ok items)
    (he : e.ref.qualifiedName = qualified) (hm : e.descriptor = .message m) :
    (declaredNames items).Perm (entryNames s.registry s.options e) := by
  obtain ⟨entry, i, members, declaration, wire, json, hfind, hescape, hplanned, hdeclaration, hwire,
    hjson, rfl⟩ := emitOwn_eq_ok h
  obtain ⟨hname, hident⟩ := escape?_eq_some hescape
  have hregistered : registeredName s.registry e = entry.ref.generatedName := by
    simp [registeredName, he, hfind]
  have hidents : ∀ u ∈ members.filterMap union?,
      Text.isIdentifier u.typeIdent.name.toList = true := by
    intro u hu
    obtain ⟨oneof, -, htype⟩ := planMembers_typeIdents hplanned u hu
    exact (unionTypeIdent?_eq_some htype).2
  have hown : (i.name :: (members.filterMap union?).map fun u => u.typeIdent.name).Perm
      (ownNames s.registry s.options e) := by
    rw [ownNames, hregistered, hname, hm]
    exact (planMembers_unionNames hplanned).cons _
  rw [declaredNames_append, declaredNames_append, hwire, append_nil,
    messageItems_declares hdeclaration]
  refine hown.append ?_
  have hmessage : e.message?.isSome := by simp [Entry.message?, hm]
  simp only [partialNames, hmessage, Bool.and_true]
  split_ifs at hjson ⊢
  · obtain ⟨item, partials, hitem, hpartials, rfl⟩ := hjson
    have hmarks : (i.name :: (members.filterMap union?).map fun u =>
        u.typeIdent.name).map (fun n => unmarked n ++ "Partial") =
        (i.name :: (members.filterMap union?).map fun u => u.typeIdent.name).map
          (· ++ "Partial") := by
      refine map_congr_left fun n hn => ?_
      rcases mem_cons.mp hn with rfl | hn
      · rw [unmarked_of_isIdentifier hident]
      · obtain ⟨u, hu, rfl⟩ := mem_map.mp hn
        rw [unmarked_of_isIdentifier (hidents u hu)]
    have hcons : declaredNames (item :: partials) = declaredNames partials := by
      simp [declaredNames, hitem]
    rw [hcons, partialItems_declares hpartials, hmarks]
    exact hown.map _
  · rw [hjson]
    exact .refl _

lemma Emitted.declares (h : Emitted s e items) :
    (declaredNames items).Perm (entryNames s.registry s.options e) := by
  cases h with
  | enum h =>
    obtain ⟨entry, i, hfind, hescape, hitems⟩ := resolve_ident h
    obtain ⟨c, methods, default, rfl⟩ := enumItems_eq_ok hitems
    rw [declaredNames_typeItem, (escape?_eq_some hescape).1]
    simp [entryNames, ownNames, partialNames, registeredName, hfind, unionGroups, Entry.message?,
      declaredNames, plainItem]
  | message h => exact emitOwn_declares h rfl rfl

def EmittedAll (s : Scope) (entries : List Entry) (items : List Item) : Prop :=
  ∃ groups : List (Entry × List Item), (groups.map Prod.fst).Perm entries ∧
    (∀ g ∈ groups, Emitted s g.1 g.2) ∧ items = groups.flatMap Prod.snd

namespace EmittedAll

variable {entries entries' : List Entry}

lemma nil : EmittedAll s [] [] :=
  ⟨[], .refl _, by simp, rfl⟩

lemma single (h : Emitted s e items) : EmittedAll s [e] items :=
  ⟨[(e, items)], .refl _, by simpa using h, by simp⟩

lemma append (h : EmittedAll s entries items) (h' : EmittedAll s entries' items') :
    EmittedAll s (entries ++ entries') (items ++ items') := by
  obtain ⟨groups, hperm, hgroups, rfl⟩ := h
  obtain ⟨groups', hperm', hgroups', rfl⟩ := h'
  refine ⟨groups ++ groups', ?_, ?_, flatMap_append.symm⟩
  · rw [map_append]
    exact hperm.append hperm'
  · exact forall_mem_append.mpr ⟨hgroups, hgroups'⟩

lemma perm (h : EmittedAll s entries items) (hperm : entries.Perm entries') :
    EmittedAll s entries' items := by
  obtain ⟨groups, hgroups, h⟩ := h
  exact ⟨groups, hgroups.trans hperm, h⟩

lemma declares (h : EmittedAll s entries items) :
    (declaredNames items).Perm (entries.flatMap (entryNames s.registry s.options)) := by
  obtain ⟨groups, hperm, hgroups, rfl⟩ := h
  have hnames : declaredNames (groups.flatMap Prod.snd) =
      groups.flatMap fun g => declaredNames g.2 := by
    rw [declaredNames, filterMap_flatMap]
    rfl
  rw [hnames]
  refine (List.Perm.flatMap_left _ fun g hg => (hgroups g hg).declares).trans ?_
  rw [← flatMap_map]
  exact hperm.flatMap_right _

end EmittedAll

lemma emitEnums_emitted {scope : String} {enums : List Enum} {groups : List (List Item)}
    (h : enums.mapM (fun e => emitEnum s (qualify scope e.name) referencedBy e) = .ok groups)
    (o : Origin) (outer : String) :
    EmittedAll s (enums.map (enumEntry o scope outer)) groups.flatten := by
  rw [mapM_eq_ok_iff] at h
  induction h with
  | nil => exact .nil
  | cons hfirst _ ih => exact (EmittedAll.single (.enum hfirst)).append ih

mutual

theorem emitMessage_emitted {scope referencedBy : String} : ∀ {m : Message} {items : List Item},
    emitMessage s (qualify scope m.name) referencedBy m = .ok items → ∀ o outer,
      EmittedAll s (messageEntries o scope outer m) items
  | ⟨name, fields, messages, enums, oneofs, isMapEntry, path⟩, items, h, o, outer => by
    unfold emitMessage at h
    obtain ⟨nestedEnums, henums, h⟩ := ok_of_bind h
    obtain ⟨own, hown, h⟩ := ok_of_bind h
    obtain ⟨nested, hnested, h⟩ := ok_of_bind h
    cases h
    let inner := outer ++ name ++ "_"
    rw [messageEntries, append_assoc, append_assoc]
    refine (emitEnums_emitted henums o inner).append (.perm ?_ perm_append_comm)
    exact .append (.single (.message hown)) (emitMessages_emitted hnested o inner)

theorem emitMessages_emitted {scope referencedBy : String} :
    ∀ {ms : List Message} {items : List Item},
      emitMessages s scope referencedBy ms = .ok items → ∀ o outer,
        EmittedAll s (messagesEntries o scope outer ms) items
  | [], items, h, o, outer => by
    cases h
    exact .nil
  | m :: ms, items, h, o, outer => by
    unfold emitMessages at h
    obtain ⟨own, hown, h⟩ := ok_of_bind h
    obtain ⟨rest, hrest, h⟩ := ok_of_bind h
    cases h
    rw [messagesEntries]
    exact (emitMessage_emitted hown o outer).append (emitMessages_emitted hrest o outer)

end

end

/-- The items of the enums and messages of a file. -/
def typeItems (s : Scope) (f : File) : Except CompileError (List Item) := do
  let scope := packageScope f.package
  let enums ← f.enums.mapM fun e => emitEnum s (qualify scope e.name) f.path e
  let messages ← emitMessages s scope f.path f.messages
  return enums.flatten ++ messages

/-- The items of the enums and messages of a file are those of its entries. -/
lemma typeItems_emitted {s : Scope} {f : File} {items : List Item}
    (h : typeItems s f = .ok items) : EmittedAll s f.entries items := by
  obtain ⟨enums, henums, h⟩ := ok_of_bind h
  obtain ⟨messages, hmessages, h⟩ := ok_of_bind h
  cases h
  let o : Origin := ⟨moduleSegments f.path, f.package⟩
  exact (emitEnums_emitted henums o "").append (emitMessages_emitted hmessages o "")

lemma exists_typeItems {r : Registry} {o : Options} {f : File} {file : GeneratedFile}
    (h : (generateFile r o f).run.value = .ok file) :
    ∃ before types after, typeItems (scopeOf r o f) f = .ok types ∧
      file.items = before ++ types ++ after := by
  obtain ⟨enums, messages, package, services, henums, hmessages, rfl⟩ := generateFile_eq_ok h
  let body := enums.flatten ++ messages ++ package ++ services
  refine ⟨importItem :: usedHelpers (body.flatMap Item.code), enums.flatten ++ messages,
    package ++ services, ?_, ?_⟩
  · change (f.enums.mapM _ >>= _) = _
    rw [henums]
    change (emitMessages _ _ _ _ >>= _) = _
    rw [hmessages]
    rfl
  · simp only [body, append_assoc]

end Protobuf.Emit
