import Protobuf.Proofs.Emit.VariantNames

/-!
# References to declared types

A type is declared in the file of its message or enum and referred to from any module.
Both sides make the identifier from the registered name. They agree on types. They make
the identifier of a partial differently, which shows for the names that cannot be
identifiers even with a mark.
-/

namespace Protobuf.Source

lemma unmarked_partial (s : String) : unmarked (s ++ "Partial") = unmarked s ++ "Partial" :=
  unmarked_append (show _ = 'P' :: "artial".toList by decide +kernel) (by decide) (by decide)

/-- A text spells an identifier if without the mark it has the form of one and is not reserved. -/
lemma Ident.exists_ofText? {s : String} (hident : Text.isIdentifier (unmarked s).toList)
    (hword : unmarked s ∉ reserved) : ∃ i, ofText? s = some i := by
  by_cases hmark : ∃ cs, s.toList = 'r' :: '#' :: cs
  · obtain ⟨cs, hcs⟩ := hmark
    have hs : unmarked s = String.ofList cs := by simp [unmarked, hcs]
    rw [hs, String.toList_ofList] at hident
    rw [hs] at hword
    simp [ofText?, hcs, hident, hword]
  · rw [unmarked_eq_self fun cs hcs => hmark ⟨cs, hcs⟩] at hident
    exact ⟨_, ofText?_of_isIdentifier hident⟩

end Protobuf.Source

namespace Protobuf.Emit

open Naming
open Plan
open Protobuf.Schema
open Source

variable {generated : String} {i j : Ident}

/-- A name that gives an identifier has the form of one, apart from a mark. -/
lemma isIdentifier_of_escape? (h : Ident.escape? generated = some i) :
    Text.isIdentifier (unmarked generated).toList := by
  obtain ⟨hname, hident⟩ := escape?_eq_some h
  rw [hname, typeName] at hident
  split_ifs at hident with hreserved
  · have hwords : ∀ word ∈ reserved, Text.isIdentifier (unmarked word).toList := by
      decide +kernel
    exact hwords generated (List.contains_iff_mem.mp hreserved)
  · exact hident

/-- The partial of a type is called like the type, unless the type has a reserved name. -/
lemma partialIdent_name_iff (hi : Ident.escape? generated = some i)
    (hj : partialIdent i = .ok j) :
    unmarked generated ++ "Partial" = j.name ↔ generated ∉ reserved := by
  obtain ⟨hname, hident⟩ := escape?_eq_some hi
  rw [partialIdent_eq_ok hj, unmarked_of_isIdentifier hident, hname, typeName]
  split_ifs with hreserved
  · have hwords : ∀ word ∈ reserved, unmarked word ++ "Partial" ≠ word ++ "_" ++ "Partial" := by
      decide +kernel
    have hmem := List.contains_iff_mem.mp hreserved
    exact iff_of_false (hwords generated hmem) (not_not_intro hmem)
  · exact iff_of_true rfl fun hmem => hreserved (List.contains_iff_mem.mpr hmem)

section

variable {s : Scope} {e : Entry} {items : List Item}

/-- The first item of an entry declares its type, with the identifier of the registered name, and
the partials of a message are made for the same identifier. -/
lemma Emitted.head (h : Emitted s e items) :
    ∃ entry i, s.registry.find? e.ref.qualifiedName = some entry ∧
      Ident.escape? entry.ref.generatedName = some i ∧
      items.head?.bind Item.declares = some i ∧
      (s.options.jsonCodec → e.message?.isSome → ∃ members partials,
        partialItems s i members = .ok partials ∧ partials <:+ items) := by
  cases h with
  | enum h =>
    obtain ⟨entry, i, hfind, hescape, hitems⟩ := resolve_ident h
    obtain ⟨c, methods, default, rfl⟩ := enumItems_eq_ok hitems
    exact ⟨entry, i, hfind, hescape, rfl, by simp [Entry.message?]⟩
  | message h =>
    obtain ⟨entry, i, members, declaration, wire, json, hfind, hescape, -, hdeclaration, -, hjson,
      rfl⟩ := emitOwn_eq_ok h
    obtain ⟨c, unions, default, -, rfl⟩ := messageItems_eq_ok hdeclaration
    refine ⟨entry, i, hfind, hescape, rfl, fun hcodec _ => ?_⟩
    rw [if_pos hcodec] at hjson
    obtain ⟨item, partials, -, hpartials, rfl⟩ := hjson
    refine ⟨members, partials, hpartials, ?_⟩
    exact (List.suffix_cons item partials).trans (List.suffix_append ..)

end

lemma getLast?_pathCode (p : RelativePath) : (pathCode p).getLast? = some (.ident p.name) :=
  List.getLast?_concat ..

section

variable (s : Scope) {ref : TypeRef}

lemma typePath_eq_ok (h : Ident.escape? ref.generatedName = some i) :
    ∃ code, s.typePath ref = .ok code ∧ code.getLast? = some (.ident i) :=
  ⟨_, by rw [Scope.typePath, h]; rfl, getLast?_pathCode _⟩

lemma partialPath_eq_ok (h : Ident.escape? ref.generatedName = some i) :
    ∃ code j, s.partialPath ref = .ok code ∧ code.getLast? = some (.ident j) ∧
      j.name = unmarked ref.generatedName ++ "Partial" := by
  have hident : Text.isIdentifier (unmarked (ref.generatedName ++ "Partial")).toList := by
    rw [unmarked_partial, String.toList_append]
    exact Text.isIdentifier_append (isIdentifier_of_escape? h) (by decide +kernel)
  have hword : unmarked (ref.generatedName ++ "Partial") ∉ reserved := by
    have hends : ∀ word ∈ reserved, word.toList.getLast? ≠ some 'l' := by decide +kernel
    rw [unmarked_partial]
    intro hmem
    refine hends _ hmem ?_
    rw [String.toList_append]
    exact (List.getLast?_append_of_ne_nil _ (by decide +kernel)).trans (by decide +kernel)
  obtain ⟨j, hj⟩ := Ident.exists_ofText? hident hword
  refine ⟨_, j, by rw [Scope.partialPath, hj]; rfl, getLast?_pathCode _, ?_⟩
  rw [(Ident.ofText?_eq_some hj).1, unmarked_partial]

end

/-- The type of an enum or message of a generated file is declared by the first item that is
generated for it, and every path to the type ends in that identifier. The partial of a message is
declared by the first of its items at the end, and every path to the partial ends in that name,
unless the message has one of the names that cannot be identifiers even with a mark. -/
theorem paths_end_declared {r : Registry} {o : Options} {f : File} {file : GeneratedFile}
    (h : (generateFile r o f).run.value = .ok file) {e : Entry} (he : e ∈ f.entries) :
    ∃ entry i items, r.find? e.ref.qualifiedName = some entry ∧
      Emitted (scopeOf r o f) e items ∧ items <:+: file.items ∧
      items.head?.bind Item.declares = some i ∧
      (∀ s : Scope, ∃ code, s.typePath entry.ref = .ok code ∧ code.getLast? = some (.ident i)) ∧
      (o.jsonCodec = true → e.message?.isSome = true → ∃ j members partials,
        partialItems (scopeOf r o f) i members = .ok partials ∧ partials <:+ items ∧
        partials.head?.bind Item.declares = some j ∧
        ∀ s : Scope, ∃ code j', s.partialPath entry.ref = .ok code ∧
          code.getLast? = some (.ident j') ∧
          (j'.name = j.name ↔ entry.ref.generatedName ∉ reserved)) := by
  obtain ⟨before, types, after, htypes, hfile⟩ := exists_typeItems h
  obtain ⟨groups, hperm, hgroups, rfl⟩ := typeItems_emitted htypes
  obtain ⟨⟨e, items⟩, hg, rfl⟩ := List.mem_map.mp (hperm.mem_iff.mpr he)
  have hemitted := hgroups _ hg
  obtain ⟨entry, i, hfind, hescape, hhead, hpartials⟩ := hemitted.head
  have hinfix : items <:+: file.items := by
    rw [hfile]
    refine .trans ?_ (List.infix_append ..)
    exact List.infix_of_mem_flatten (List.mem_map_of_mem hg)
  refine ⟨entry, i, items, hfind, hemitted, hinfix, hhead, fun s => typePath_eq_ok s hescape, ?_⟩
  intro hcodec hmessage
  obtain ⟨members, partials, hitems, hsuffix⟩ := hpartials hcodec hmessage
  obtain ⟨j, c, unions, conversion, hj, -, rfl⟩ := partialItems_eq_ok hitems
  refine ⟨j, members, _, hitems, hsuffix, rfl, fun s => ?_⟩
  obtain ⟨code, j', hcode, hlast, hname⟩ := partialPath_eq_ok s hescape
  exact ⟨code, j', hcode, hlast, hname ▸ partialIdent_name_iff hescape hj⟩

/-- A message that is called by a reserved word. -/
private def bare : Message :=
  ⟨"self", [], [], [], [], false, []⟩

private def bareFile : File :=
  ⟨"bare.proto", "", .proto3, [bare], [], [], [], .empty⟩

private def bareScope (jsonCodec : Bool) : Scope :=
  scopeOf (Registry.ofFiles [bareFile]).value { binaryCodec := false, jsonCodec } bareFile

theorem paths_end_declared_reserved : ∃ file entry i items,
    (generateFile (bareScope false).registry (bareScope false).options bareFile).run.value =
        .ok file ∧
      (bareScope false).registry.find? ".self" = some entry ∧ items <:+: file.items ∧
      items.head?.bind Item.declares = some i ∧
      ∀ s : Scope, ∃ code, s.typePath entry.ref = .ok code ∧
        code.getLast? = some (.ident i) := by
  have hok : ((generateFile (bareScope false).registry (bareScope false).options
      bareFile).run.value.toOption.any fun _ => true) = true := by decide +kernel
  obtain ⟨file, hfile, -⟩ := exists_ok_of_any hok
  have he : ⟨⟨["bare"], "", "self", ".self"⟩, .message bare⟩ ∈ bareFile.entries :=
    List.mem_singleton.mpr rfl
  obtain ⟨entry, i, items, hfind, -, hinfix, hhead, htype, -⟩ := paths_end_declared hfile he
  exact ⟨file, entry, i, items, hfile, hfind, hinfix, hhead, htype⟩

/-- The partial of that message is declared with one name and referred to with another. -/
theorem partialPath_reserved :
    (emitOwn (bareScope true) ".self" "" bare).toOption.map declaredNames =
        some ["self_", "self_Partial"] ∧
      ((bareScope true).registry.find? ".self").bind (fun entry =>
        ((bareScope true).partialPath entry.ref).toOption) =
          some [.ident ⟨false, "selfPartial"⟩] := by
  decide +kernel

end Protobuf.Emit
