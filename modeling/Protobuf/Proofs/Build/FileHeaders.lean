import Protobuf.Proofs.Build.FileOrder
import Protobuf.Proofs.Build.ModulePaths

/-!
# What a generated file comes from

A generated file says in its header which schema file it comes from. The path there
is not marked off from what follows it, but two different schema files with the same
module path never have the same generated file: where the path of one could be taken
for that of the other, the second path is longer by enough to have another module
path.
-/

open List

namespace Protobuf.Naming

open Source

/-! ## Paths with the same module path -/

/-- A word that starts with an underscore is reserved only if it is the underscore. -/
lemma eq_underscore_of_reserved {cs : List Char}
    (h : (keywords.contains (String.ofList ('_' :: cs)) ||
      reserved.contains (String.ofList ('_' :: cs)))) : cs = [] := by
  have hall : ∀ word ∈ keywords ++ reserved, word.toList.head? = some '_' → word = "_" := by
    decide +kernel
  rw [Bool.or_eq_true, contains_iff_mem, contains_iff_mem, ← mem_append] at h
  have hword := hall _ h (by simp)
  simpa [← String.toList_inj] using hword

/-- A part of a module path is as long as what it comes from, or longer by one. -/
lemma length_moduleSegment (part : List Char) :
    part.length ≤ (moduleSegment part).toList.length ∧
      (moduleSegment part).toList.length ≤ part.length + 1 := by
  have hkept : (keptChars part).length = part.length := length_map _
  rw [moduleSegment_eq, cleanedPart]
  cases hdigit : startsWithDigit (keptChars part) with
  | true =>
    -- A part that starts with a digit gets an underscore, and is then no reserved word.
    have hne : keptChars part ≠ [] := by
      rintro hnil
      rw [hnil] at hdigit
      cases hdigit
    have hfree := fun h => hne (eq_underscore_of_reserved h)
    rw [if_pos rfl, if_neg hfree, String.toList_ofList, length_cons, hkept]
    omega
  | false =>
    rw [if_neg Bool.false_ne_true]
    split_ifs
    · rw [String.toList_append, String.toList_ofList, length_append, hkept]
      change part.length ≤ part.length + 1 ∧ part.length + 1 ≤ part.length + 1
      omega
    · rw [String.toList_ofList, hkept]
      omega

lemma splitOn_slash_append (cs more : List Char) : ∃ init last first rest,
    cs.splitOn '/' = init ++ [last] ∧ more.splitOn '/' = first :: rest ∧
      (cs ++ more).splitOn '/' = init ++ (last ++ first) :: rest := by
  induction cs with
  | nil =>
    obtain ⟨first, rest, hmore⟩ := exists_cons_of_ne_nil (splitOn_ne_nil '/' more)
    exact ⟨[], [], first, rest, rfl, hmore, hmore⟩
  | cons c cs ih =>
    obtain ⟨init, last, first, rest, hcs, hmore, happend⟩ := ih
    rw [cons_append]
    simp only [splitOn_cons_eq_if_modifyHead, hcs, happend]
    by_cases hc : (c == '/')
    · rw [if_pos hc, if_pos hc]
      exact ⟨[] :: init, last, first, rest, rfl, hmore, rfl⟩
    · rw [if_neg hc, if_neg hc]
      cases init with
      | nil => exact ⟨[], c :: last, first, rest, rfl, hmore, rfl⟩
      | cons part init => exact ⟨(c :: part) :: init, last, first, rest, rfl, hmore, rfl⟩

/-- The parts of a path between slashes that hold something. -/
def pathParts (cs : List Char) : List (List Char) :=
  (cs.splitOn '/').filter fun part => !part.isEmpty

/-- A path that goes on for two characters before the next slash has another module path. -/
lemma pathParts_append_ne {a b : Char} (ha : a ≠ '/') (hb : b ≠ '/') (cs more : List Char) :
    (pathParts (cs ++ a :: b :: more)).map moduleSegment ≠ (pathParts cs).map moduleSegment := by
  obtain ⟨init, last, first, rest, hcs, hmore, happend⟩ := splitOn_slash_append cs (a :: b :: more)
  obtain ⟨tail, rfl⟩ : ∃ tail, first = a :: b :: tail := by
    obtain ⟨third, others, hthird⟩ := exists_cons_of_ne_nil (splitOn_ne_nil '/' more)
    simp only [splitOn_cons_eq_if_modifyHead, hthird, beq_iff_eq, if_neg ha, if_neg hb,
      modifyHead_cons] at hmore
    exact ⟨third, (cons.inj hmore).1.symm⟩
  have hlong : pathParts (cs ++ a :: b :: more) =
      (init.filter fun part => !part.isEmpty) ++ (last ++ a :: b :: tail) ::
        rest.filter fun part => !part.isEmpty := by
    simp [pathParts, happend]
  intro heq
  by_cases hlast : last = []
  · have hshort : pathParts cs = init.filter fun part => !part.isEmpty := by
      simp [pathParts, hcs, hlast]
    have hlength := congrArg length heq
    simp only [hlong, hshort, length_map, length_append, length_cons] at hlength
    omega
  · have hshort : pathParts cs = (init.filter fun part => !part.isEmpty) ++ [last] := by
      simp [pathParts, hcs, hlast]
    rw [hlong, hshort, map_append, map_append, append_cancel_left_eq,
      map_cons, map_singleton] at heq
    have hsegment := congrArg (fun s => s.toList.length) (cons.inj heq).1
    have hone := length_moduleSegment last
    have htwo := length_moduleSegment (last ++ a :: b :: tail)
    simp only [length_append, length_cons] at hsegment htwo
    omega

lemma withoutEnding?_eq_some_iff {ending s t : String} :
    withoutEnding? ending s = some t ↔ s = t ++ ending := by
  constructor
  · intro h
    simp only [withoutEnding?] at h
    split_ifs at h with hdrop
    obtain rfl := Option.some.inj h
    rw [← String.toList_inj, String.toList_append, String.toList_ofList]
    nth_rewrite 2 [← hdrop]
    rw [take_append_drop]
  · rintro rfl
    exact withoutEnding?_append t ending

/-- The path of a schema file without the usual ending. -/
def stemOf (path : String) : String :=
  (withoutEnding? ".proto" path).getD path

lemma moduleSegments_eq (path : String) :
    moduleSegments path = (pathParts (stemOf path).toList).map moduleSegment :=
  rfl

lemma stemOf_cases (path : String) : path = stemOf path ++ ".proto" ∨ path = stemOf path := by
  unfold stemOf
  cases hstem : withoutEnding? ".proto" path with
  | none => exact .inr rfl
  | some stem => exact .inl (withoutEnding?_eq_some_iff.mp hstem)

/-- What goes on with a blank and a bracket does so before its ending. -/
lemma stemOf_append {p q : String} {more : List Char}
    (h : q.toList = p.toList ++ ' ' :: '(' :: more) :
    ∃ more', (stemOf q).toList = p.toList ++ ' ' :: '(' :: more' := by
  rcases stemOf_cases q with hq | hq
  · have hending : (stemOf q).toList ++ ".proto".toList = p.toList ++ ' ' :: '(' :: more := by
      rw [← h, ← String.toList_append, ← hq]
    rcases append_eq_append_iff.mp hending with ⟨rest, -, hrest⟩ | ⟨rest, hstem, hrest⟩
    · have hblank : ' ' ∈ ".proto".toList := by simp [hrest]
      exact absurd hblank (by decide)
    · -- The ending starts with neither the blank nor the bracket.
      rcases rest with _ | ⟨a, _ | ⟨b, rest⟩⟩
      · exact absurd (cons.inj hrest).1 (by decide)
      · exact absurd (cons.inj (cons.inj hrest).2).1 (by decide)
      · obtain ⟨rfl, rfl, -⟩ : ' ' = a ∧ '(' = b ∧ _ := by
          simpa only [cons_append, cons.injEq] using hrest
        exact ⟨rest, hstem⟩
  · exact ⟨more, by rw [← hq, h]⟩

/-- No path with the same module path goes on with a blank and a bracket. -/
lemma moduleSegments_ne_of_append {p q : String} {more : List Char}
    (h : q.toList = p.toList ++ ' ' :: '(' :: more) : moduleSegments q ≠ moduleSegments p := by
  obtain ⟨more', hstem⟩ := stemOf_append h
  rw [moduleSegments_eq, moduleSegments_eq, hstem]
  rcases stemOf_cases p with hp | hp
  · nth_rewrite 1 [hp]
    rw [String.toList_append, append_assoc]
    exact pathParts_append_ne (by decide) (by decide) _ _
  · nth_rewrite 1 [hp]
    exact pathParts_append_ne (by decide) (by decide) _ _

end Protobuf.Naming

namespace Protobuf.Emit

open Naming
open Protobuf.Schema
open Source

/-! ## Headers -/

def scopeOf (r : Registry) (o : Options) (f : File) : Plan.Scope :=
  ⟨r, o, moduleSegments f.path, f.comments⟩

variable {r : Registry} {o : Options} {f : File} {file : GeneratedFile}

/-- A file that is generated holds the items of its enums and messages, one after the other, between
a prelude and those of its package and services. -/
lemma generateFile_eq_ok (h : (generateFile r o f).run.value = .ok file) :
    ∃ enums messages package services,
      f.enums.mapM (fun e => emitEnum (scopeOf r o f) (qualify (packageScope f.package) e.name)
        f.path e) = .ok enums ∧
      emitMessages (scopeOf r o f) (packageScope f.package) f.path f.messages = .ok messages ∧
      file = {
        name := outputFileName f.path
        header := header f
        items := importItem ::
          usedHelpers ((enums.flatten ++ messages ++ package ++ services).flatMap Item.code) ++
            (enums.flatten ++ messages ++ package ++ services) } := by
  unfold generateFile at h
  obtain ⟨enums, henums, h⟩ := Build.bind_value_eq_ok.mp h
  obtain ⟨messages, hmessages, h⟩ := Build.bind_value_eq_ok.mp h
  -- Both branches for the package go on in the same way.
  obtain ⟨package, h⟩ : ∃ package, (do
      let services ← emitServices (scopeOf r o f) f.package f.services
      let body := enums.flatten ++ messages ++ package ++ services
      if hasWildcard (body.flatMap Item.code) then throw (.malformedSource f.path)
      return { name := outputFileName f.path, header := header f,
               items := importItem :: usedHelpers (body.flatMap Item.code) ++ body } :
      Compile GeneratedFile).run.value = .ok file := by
    dsimp only at h
    split_ifs at h
    · obtain ⟨item, -, h⟩ := Build.bind_value_eq_ok.mp h
      exact ⟨[item], h⟩
    · exact ⟨[], h⟩
  obtain ⟨services, -, h⟩ := Build.bind_value_eq_ok.mp h
  refine ⟨enums, messages, package, services, henums, hmessages, ?_⟩
  dsimp only at h
  split_ifs at h
  · cases h
  · exact (Except.ok.inj h).symm

lemma exists_header_eq (f : File) : ∃ rest, (header f).toList =
    "// @generated by protoforge-build".toList ++ '.' ::
      (" DO NOT EDIT.\n// source: ".toList ++ (f.path.toList ++ ' ' :: '(' :: rest)) := by
  have hmark : "// @generated by protoforge-build. DO NOT EDIT.".toList ++ "\n".toList ++
      "// source: ".toList = "// @generated by protoforge-build".toList ++ '.' ::
        " DO NOT EDIT.\n// source: ".toList := by decide +kernel
  have hbracket : " (".toList = [' ', '('] := by decide +kernel
  simp only [header, map_cons, String.toList_append, String.toList_join, flatMap_cons]
  generalize (((f.comments.lines dialectPath).map headerLine).map (· ++ "\n")).flatMap
    String.toList = comments
  let rest := f.dialect.name.toList ++ (")".toList ++ ("\n".toList ++ (comments ++ "\n".toList)))
  have hall := congrArg (· ++ (f.path.toList ++ ' ' :: '(' :: rest)) hmark
  refine ⟨rest, ?_⟩
  simpa only [rest, hbracket, append_assoc, cons_append, nil_append] using hall

/-- A generated file starts with a mark and the path of the schema file. -/
lemma exists_content_eq (h : (generateFile r o f).run.value = .ok file) :
    ∃ rest, file.content.toList = "// @generated by protoforge-build".toList ++ '.' ::
      (" DO NOT EDIT.\n// source: ".toList ++ (f.path.toList ++ ' ' :: '(' :: rest)) := by
  have hheader : file.header = header f := by
    obtain ⟨enums, messages, package, services, -, -, rfl⟩ := generateFile_eq_ok h
    rfl
  obtain ⟨rest, hrest⟩ := exists_header_eq f
  rw [GeneratedFile.content, String.toList_append, hheader, hrest]
  generalize (String.join (file.items.map fun i => render i.code ++ "\n")).toList = body
  exact ⟨rest ++ body, by simp only [append_assoc, cons_append]⟩

/-- Different schema files with one module path do not have one generated file. -/
lemma path_eq_of_content_eq {g : File} {file' : GeneratedFile}
    (hf : (generateFile r o f).run.value = .ok file)
    (hg : (generateFile r o g).run.value = .ok file')
    (hsegments : moduleSegments f.path = moduleSegments g.path)
    (hcontent : file.content = file'.content) : f.path = g.path := by
  obtain ⟨rest, hrest⟩ := exists_content_eq hf
  obtain ⟨rest', hrest'⟩ := exists_content_eq hg
  rw [hcontent, hrest'] at hrest
  have hpaths := append_cancel_left
    (cons.inj (append_cancel_left hrest)).2
  -- One path goes on where the other one ends, with a blank and a bracket if at all.
  rcases append_eq_append_iff.mp hpaths with ⟨more, hmore, hopen⟩ | ⟨more, hmore, hopen⟩
  · rcases more with _ | ⟨a, _ | ⟨b, more⟩⟩
    · rw [append_nil] at hmore
      exact String.toList_inj.mp hmore
    · exact absurd (cons.inj (cons.inj hopen).2).1 (by decide)
    · obtain ⟨rfl, rfl, -⟩ : ' ' = a ∧ '(' = b ∧ _ := by
        simpa only [cons_append, cons.injEq] using hopen
      exact absurd hsegments (moduleSegments_ne_of_append hmore)
  · rcases more with _ | ⟨a, _ | ⟨b, more⟩⟩
    · rw [append_nil] at hmore
      exact String.toList_inj.mp hmore.symm
    · exact absurd (cons.inj (cons.inj hopen).2).1 (by decide)
    · obtain ⟨rfl, rfl, -⟩ : ' ' = a ∧ '(' = b ∧ _ := by
        simpa only [cons_append, cons.injEq] using hopen
      exact absurd hsegments.symm (moduleSegments_ne_of_append hmore)

lemma content_ne_render (h : (generateFile r o f).run.value = .ok file) (base : Build.IncludeBase)
    (files : List String) : file.content ≠ Build.ModuleTree.render base files := by
  intro heq
  obtain ⟨rest, hrest⟩ := exists_content_eq h
  rw [heq, Build.ModuleTree.render, String.toList_join, map_cons, flatMap_cons,
    String.toList_append, append_assoc] at hrest
  exact absurd (cons.inj (append_cancel_left hrest)).1 (by decide)

end Protobuf.Emit
