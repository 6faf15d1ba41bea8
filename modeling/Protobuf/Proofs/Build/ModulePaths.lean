import Mathlib
import Protobuf.Build.ModuleTree
import Protobuf.Plan.Types

/-!
# Module paths and references

The parts of a module path are words of the generated source, none of them reserved,
so the path can be read off the name of the generated file. A reference climbs from
its module by `super` and descends by the names of modules. The path from one module
to another leads there wherever the modules on its way are declared.
-/

open List

namespace Protobuf.Naming

open Source

/-- A text that is one word of the source: ASCII letters, digits and underscores. -/
def IsWord (s : String) : Prop :=
  s ≠ "" ∧ ∀ c ∈ s.toList, isWordChar c = true

/-! ## Parts of module paths -/

/-- A part with an underscore for all that is neither an ASCII letter nor a digit. -/
def keptChars (part : List Char) : List Char :=
  part.map fun c =>
    if ('a' ≤ c && c ≤ 'z') || ('A' ≤ c && c ≤ 'Z') || ('0' ≤ c && c ≤ '9') then c else '_'

/-- A part that starts with no digit, before a reserved word is changed. -/
def cleanedPart (part : List Char) : String :=
  String.ofList (if startsWithDigit (keptChars part) then '_' :: keptChars part else keptChars part)

lemma moduleSegment_eq (part : List Char) : moduleSegment part =
    if keywords.contains (cleanedPart part) || reserved.contains (cleanedPart part) then
      cleanedPart part ++ "_"
    else cleanedPart part :=
  rfl

variable {part : List Char} {parts : List String} (source target : List String)

lemma isWordChar_of_mem_cleanedPart {c : Char} (hc : c ∈ (cleanedPart part).toList) :
    isWordChar c := by
  have hkept : ∀ c ∈ keptChars part, isWordChar c := by
    intro c hc
    obtain ⟨d, -, rfl⟩ := mem_map.mp hc
    split_ifs with hd
    · simp [isWordChar, hd]
    · rfl
  rw [cleanedPart, String.toList_ofList] at hc
  split_ifs at hc
  · rcases mem_cons.mp hc with rfl | hc
    · rfl
    · exact hkept c hc
  · exact hkept c hc

lemma cleanedPart_ne_empty (hpart : part ≠ []) : cleanedPart part ≠ "" := by
  rw [cleanedPart, Ne, ← String.toList_eq_nil_iff, String.toList_ofList]
  split_ifs
  · simp
  · simpa [keptChars] using hpart

lemma isWord_moduleSegment (hpart : part ≠ []) : IsWord (moduleSegment part) := by
  rw [moduleSegment_eq]
  split_ifs
  · refine ⟨by simp, fun c hc => ?_⟩
    rw [String.toList_append, mem_append] at hc
    rcases hc with hc | hc
    · exact isWordChar_of_mem_cleanedPart hc
    · obtain rfl : c = '_' := by simpa using hc
      rfl
  · exact ⟨cleanedPart_ne_empty hpart, fun c hc => isWordChar_of_mem_cleanedPart hc⟩

lemma moduleSegment_ne_super (part : List Char) : moduleSegment part ≠ "super" := by
  rw [moduleSegment_eq]
  split_ifs with hreserved
  · intro h
    have hlast := congrArg (fun s => s.toList.getLast?) h
    simp at hlast
  · intro h
    rw [h] at hreserved
    exact hreserved (by decide)

lemma isWord_of_mem_moduleSegments {path part : String} (h : part ∈ moduleSegments path) :
    IsWord part := by
  obtain ⟨cs, hcs, rfl⟩ := mem_map.mp h
  have hne := (mem_filter.mp hcs).2
  exact isWord_moduleSegment (by simpa using hne)

lemma ne_super_of_mem_moduleSegments {path part : String} (h : part ∈ moduleSegments path) :
    part ≠ "super" := by
  obtain ⟨cs, -, rfl⟩ := mem_map.mp h
  exact moduleSegment_ne_super cs

lemma IsWord.not_mem {s : String} (hs : IsWord s) {c : Char} (hc : isWordChar c = false) :
    c ∉ s.toList := by
  intro hmem
  rw [hs.2 c hmem] at hc
  cases hc

/-! ## Names of generated files -/

lemma toList_outputFileName (path : String) : (outputFileName path).toList =
    ['/'].intercalate ((moduleSegments path).map String.toList) ++ ".rs".toList := by
  rw [outputFileName, String.toList_append, String.toList_intercalate]
  rfl

lemma mem_intercalate_slash {c : Char} (hc : c ∈ ['/'].intercalate (parts.map String.toList)) :
    c = '/' ∨ ∃ part ∈ parts, c ∈ part.toList := by
  induction parts with
  | nil => simp at hc
  | cons part parts ih =>
    cases parts with
    | nil => exact .inr ⟨part, by simp, by simpa using hc⟩
    | cons next parts =>
      rw [map_cons, map_cons, intercalate_cons_cons, mem_append,
        mem_append] at hc
      rcases hc with (hc | hc) | hc
      · exact .inr ⟨part, by simp, hc⟩
      · exact .inl (mem_singleton.mp hc)
      · rcases ih hc with rfl | ⟨part', hpart', hc⟩
        · exact .inl rfl
        · exact .inr ⟨part', mem_cons_of_mem _ hpart', hc⟩

lemma withoutEnding?_append (s ending : String) : withoutEnding? ending (s ++ ending) = some s := by
  have hlength : (s ++ ending).toList.length - ending.toList.length = s.toList.length := by simp
  simp only [withoutEnding?, hlength]
  rw [String.toList_append, drop_left, if_pos rfl, take_left, String.ofList_toList]

lemma splitOn_intercalate_words (hparts : ∀ part ∈ parts, IsWord part) (hne : parts ≠ []) :
    (['/'].intercalate (parts.map String.toList)).splitOn '/' = parts.map String.toList := by
  apply splitOn_intercalate
  · intro cs hcs
    obtain ⟨part, hpart, rfl⟩ := mem_map.mp hcs
    exact (hparts part hpart).not_mem (by decide)
  · simpa using hne

lemma segments_outputFileName (path : String) :
    Build.ModuleTree.segments (outputFileName path) = moduleSegments path := by
  have hstem : withoutEnding? ".rs" (outputFileName path) =
      some ("/".intercalate (moduleSegments path)) := withoutEnding?_append _ _
  simp only [Build.ModuleTree.segments, hstem, String.toList_intercalate]
  by_cases hne : moduleSegments path = []
  · rw [hne]
    rfl
  · have hwords : ∀ part ∈ moduleSegments path, IsWord part :=
      fun _ => isWord_of_mem_moduleSegments
    have hall : ∀ cs ∈ (moduleSegments path).map String.toList, (!cs.isEmpty) := by
      intro cs hcs
      obtain ⟨part, hpart, rfl⟩ := mem_map.mp hcs
      simpa using (hwords part hpart).1
    change (((['/'].intercalate _).splitOn '/').filter _).map _ = _
    rw [splitOn_intercalate_words hwords hne, filter_eq_self.mpr hall, map_map]
    simp

/-! ## Paths in common -/

lemma take_commonLength :
    source.take (commonLength source target) = target.take (commonLength source target) := by
  fun_induction commonLength source target with
  | case1 a as bs ih => rw [take_succ_cons, take_succ_cons, ih]
  | case2 => rfl
  | case3 => simp

/-- A relative path leads up to what two module paths have in common, and down from there. -/
lemma exists_common (name : Ident) :
    ∃ common up down, source = common ++ up ∧ target = common ++ down ∧
      relativePath source target name = ⟨up.length, down, name⟩ := by
  refine ⟨source.take (commonLength source target), source.drop (commonLength source target),
    target.drop (commonLength source target), (take_append_drop _ _).symm, ?_, ?_⟩
  · rw [take_commonLength, take_append_drop]
  · rw [relativePath, length_drop]

end Protobuf.Naming

namespace Protobuf.Build

open Source
open Naming

/-- Follow a reference from a module to the module where it ends and the name it has there. It
climbs from a module to the one around it, but not out of the root, and descends only into modules
that are declared. -/
def follow (modules : List (List String)) :
    (here : List String) → Code → Option (List String × Ident)
  | here, [.ident i] => some (here, i)
  | here, .plain part :: .plain "::" :: rest =>
    if part = "super" then
      if here = [] then none else follow modules here.dropLast rest
    else if here ++ [part] ∈ modules then follow modules (here ++ [part]) rest
    else none
  | _, _ => none

variable {modules : List (List String)}

lemma follow_climb (here : List String) (part : String) (rest : Code) :
    follow modules (here ++ [part]) (code "super::" ++ rest) = follow modules here rest := by
  have hcode : code "super::" = [.plain "super", .plain "::"] := by decide +kernel
  simp [hcode, follow]

lemma follow_descend {here : List String} {part : String} (hpart : part ≠ "super")
    (hdeclared : here ++ [part] ∈ modules) (rest : Code) :
    follow modules here (.plain part :: .plain "::" :: rest) =
      follow modules (here ++ [part]) rest := by
  rw [follow, if_neg hpart, if_pos hdeclared]

lemma follow_climbs (here parts : List String) (rest : Code) :
    follow modules (here ++ parts)
        ((replicate parts.length (code "super::")).flatten ++ rest) =
      follow modules here rest := by
  induction parts using reverseRecOn generalizing rest with
  | nil => simp
  | append_singleton parts part ih =>
    rw [length_append, length_singleton, replicate_succ, flatten_cons,
      append_assoc, ← append_assoc here, follow_climb, ih]

/-- Parts that are declared one within the other lead down. -/
lemma follow_descends {parts : List String} (hparts : ∀ part ∈ parts, part ≠ "super")
    {here : List String} (hdeclared : ∀ down, down ≠ [] → down <+: parts → here ++ down ∈ modules)
    (rest : Code) :
    follow modules here ((parts.flatMap fun part => [.plain part, .plain "::"]) ++ rest) =
      follow modules (here ++ parts) rest := by
  induction parts generalizing here with
  | nil => simp
  | cons part parts ih =>
    have hone : here ++ [part] ∈ modules :=
      hdeclared [part] (by simp) (prefix_append [part] parts)
    have hmore : ∀ down, down ≠ [] → down <+: parts → here ++ [part] ++ down ∈ modules := by
      intro down _ hdown
      rw [append_assoc]
      exact hdeclared (part :: down) (by simp) ((prefix_cons_inj part).mpr hdown)
    rw [flatMap_cons, append_assoc, cons_append, cons_append, nil_append,
      follow_descend (hparts part (by simp)) hone,
      ih (fun part hpart => hparts part (by simp [hpart])) hmore, append_assoc,
      singleton_append]

/-- The path from one module to another leads there, if the modules that the target is in are
declared. -/
lemma follow_relativePath {source target : List String}
    (htarget : ∀ part ∈ target, part ≠ "super")
    (hdeclared : ∀ q, q ≠ [] → q <+: target → q ∈ modules) (name : Ident) :
    follow modules source (Plan.pathCode (relativePath source target name)) =
      some (target, name) := by
  obtain ⟨common, up, down, rfl, rfl, hpath⟩ := exists_common source target name
  have hdown : ∀ q, q ≠ [] → q <+: down → common ++ q ∈ modules := by
    intro q hne hprefix
    exact hdeclared _ (by simp [hne]) ((prefix_append_right_inj common).mpr hprefix)
  rw [hpath, Plan.pathCode, append_assoc, follow_climbs,
    follow_descends (fun part hpart => htarget part (mem_append_right common hpart)) hdown]
  rfl

end Protobuf.Build
