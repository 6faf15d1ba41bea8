import Protobuf.Build.Compilation
import Protobuf.Proofs.Build.FileHeaders

/-!
# What compiling leaves on disk

Compiling writes the generated files one after the other and the module file last,
each under its own name in the output directory. So a path holds what was written
there last. The files that compiling returns are all there exactly if no two of the
schema files have one module path and the module file has a path of its own.
-/

open List

namespace Protobuf.Build

open Emit
open Naming
open Protobuf.Schema

/-! ## Writing -/

namespace Disk

variable {d d' : Disk} {p : Path} {content : String}

lemma lookup_put (p : Path) (content : String) (files : List (Path × String)) (q : Path) :
    (put p content files).lookup q = if q = p then some content else files.lookup q := by
  induction files with
  | nil =>
    by_cases hq : q = p
    · simp [put, hq]
    · simp [put, hq, lookup_cons, beq_eq_false_iff_ne.mpr hq]
  | cons f files ih =>
    obtain ⟨p', content'⟩ := f
    by_cases hp : p' = p
    · rw [put, if_pos hp, hp]
      by_cases hq : q = p
      · simp [hq]
      · simp [hq, lookup_cons, beq_eq_false_iff_ne.mpr hq]
    · rw [put, if_neg hp, lookup_cons, lookup_cons, ih]
      by_cases hq : q = p
      · simp [hq, beq_eq_false_iff_ne.mpr (Ne.symm hp)]
      · simp [hq]

lemma read?_write (h : d.write p content = .ok d') (q : Path) :
    d'.read? q = if q = p then some content else d.read? q := by
  unfold write at h
  split_ifs at h
  obtain rfl := Except.ok.inj h
  exact lookup_put p content d.files q

lemma read?_writeDeep (h : d.writeDeep p content = .ok d') (q : Path) :
    d'.read? q = if q = p then some content else d.read? q := by
  obtain ⟨d₁, hd₁, h⟩ := ok_of_bind h
  unfold makeDirectory at hd₁
  split_ifs at hd₁
  obtain rfl := Except.ok.inj hd₁
  exact read?_write h q

/-- A name that leads to a file through directories that exist leads to the path it stands for. -/
lemma locate_eq {here : Path} {parts : List String} (h : d.locate here parts = .ok p) :
    p = parts.foldl enter here := by
  induction parts generalizing here with
  | nil => exact (Except.ok.inj h).symm
  | cons part parts ih =>
    rw [locate] at h
    split_ifs at h with hlast hdots hdirectory
    · simp only [Bool.or_eq_true, Bool.not_eq_true', not_or, Bool.not_eq_false,
        List.isEmpty_iff] at hdots
      rw [hdots.1.1.1]
      exact (Except.ok.inj h).symm
    · exact ih h

lemma read?_writeNamed {directory : Path} {name : String}
    (h : d.writeNamed directory name content = .ok d') (q : Path) :
    d'.read? q = if q = resolve directory name then some content else d.read? q := by
  obtain ⟨p, hp, h⟩ := ok_of_bind h
  rw [read?_write h, locate_eq hp]
  rfl

end Disk

def lastContent? (output : Path) (files : List GeneratedFile) (q : Path) : Option String :=
  files.reverse.findSome? fun f => if output ++ pathOf f.name = q then some f.content else none

variable {output : Path} {files generated : List GeneratedFile} {d d' : Disk}

lemma read?_writeFiles (h : writeFiles output files d = .ok d') (q : Path) :
    d'.read? q = (lastContent? output files q).or (d.read? q) := by
  induction files generalizing d with
  | nil =>
    obtain rfl := Except.ok.inj h
    rfl
  | cons f files ih =>
    obtain ⟨d₁, hd₁, h⟩ := ok_of_bind h
    rw [ih h, Disk.read?_writeDeep hd₁]
    rw [lastContent?, lastContent?, reverse_cons, findSome?_append, Option.or_assoc]
    by_cases hq : output ++ pathOf f.name = q
    · simp [hq]
    · simp [hq, Ne.symm hq]

lemma lastContent?_eq_some {q : Path} {content : String}
    (h : lastContent? output files q = some content) :
    ∃ f ∈ files, output ++ pathOf f.name = q ∧ f.content = content := by
  obtain ⟨f, hf, hcontent⟩ := exists_of_findSome?_eq_some h
  split_ifs at hcontent with hq
  exact ⟨f, mem_reverse.mp hf, hq, Option.some.inj hcontent⟩

lemma exists_lastContent? (output : Path) {f : GeneratedFile} (hf : f ∈ files) :
    ∃ content, lastContent? output files (output ++ pathOf f.name) = some content := by
  rw [← Option.isSome_iff_exists, lastContent?, findSome?_isSome_iff]
  exact ⟨f, mem_reverse.mpr hf, by simp⟩

/-! ## Compiling -/

lemma orFault_eq_ok {α : Type} {x : Except FileFault α} {a : α} :
    (orFault x).run.value = .ok a ↔ x = .ok a := by
  cases x with
  | ok b =>
    have hvalue : (orFault (.ok b : Except FileFault α)).run.value = .ok b := rfl
    rw [hvalue, Except.ok.injEq, Except.ok.injEq]
  | error fault =>
    constructor <;> intro h <;> cases h

/-- What compiling does, if it succeeds. -/
lemma Compilation.run_eq_ok {c : Compilation} (h : (c.run d).run.value = .ok (generated, d')) :
    ∃ output base set names d₁, c.place = .ok (output, base) ∧
      c.input.resolve d = .ok (set, names) ∧
      (generate set (c.only.getD names) c.options).run.value = .ok generated ∧
      writeFiles output generated d = .ok d₁ ∧
      (c.moduleFile = none ∧ d' = d₁ ∨ ∃ name, c.moduleFile = some name ∧
        writeModules base output name generated d₁ = .ok d') := by
  obtain ⟨⟨output, base⟩, hplace, h⟩ := bind_value_eq_ok.mp h
  obtain ⟨⟨set, names⟩, hinput, h⟩ := bind_value_eq_ok.mp h
  obtain ⟨generated', hgenerated, h⟩ := bind_value_eq_ok.mp h
  obtain ⟨d₁, hwritten, h⟩ := bind_value_eq_ok.mp h
  rw [orFault_eq_ok] at hplace hinput hwritten
  cases hmodule : c.moduleFile with
  | none =>
    rw [hmodule] at h
    obtain ⟨rfl, rfl⟩ := Prod.mk.inj (Except.ok.inj h)
    exact ⟨output, base, set, names, d₁, hplace, hinput, hgenerated, hwritten, .inl ⟨rfl, rfl⟩⟩
  | some name =>
    rw [hmodule] at h
    obtain ⟨d₂, hmodules, h⟩ := bind_value_eq_ok.mp h
    rw [orFault_eq_ok] at hmodules
    obtain ⟨rfl, rfl⟩ := Prod.mk.inj (Except.ok.inj h)
    exact ⟨output, base, set, names, d₁, hplace, hinput, hgenerated, hwritten,
      .inr ⟨name, rfl, hmodules⟩⟩

/-! ## Paths of generated files -/

/-- The parts of the name of a generated file: all but the last one are words, and the last one
has an ending. -/
lemma mem_nameParts {path part : String} (h : part ∈ nameParts (outputFileName path)) :
    IsWord part ∨ ∃ stem : String, part = stem ++ ".rs" := by
  obtain ⟨init, last, first, rest, hinit, hending, hparts⟩ := splitOn_slash_append
    (['/'].intercalate ((moduleSegments path).map String.toList)) ".rs".toList
  have hrs : ".rs".toList.splitOn '/' = [".rs".toList] := by decide +kernel
  obtain ⟨rfl, rfl⟩ := cons.inj (hrs.symm.trans hending)
  rw [nameParts, toList_outputFileName, hparts] at h
  obtain ⟨cs, hcs, rfl⟩ := mem_map.mp h
  rcases mem_append.mp hcs with hcs | hcs
  · by_cases hne : moduleSegments path = []
    · rw [hne] at hinit
      have hnil : init = [] := by simpa using congrArg dropLast hinit.symm
      rw [hnil] at hcs
      cases hcs
    · rw [splitOn_intercalate_words (fun _ => isWord_of_mem_moduleSegments) hne] at hinit
      have hmem : cs ∈ (moduleSegments path).map String.toList := by simp [hinit, hcs]
      obtain ⟨word, hword, rfl⟩ := mem_map.mp hmem
      rw [String.ofList_toList]
      exact .inl (isWord_of_mem_moduleSegments hword)
  · rw [mem_singleton.mp hcs]
    exact .inr ⟨String.ofList last, by simp⟩

lemma ne_of_mem_nameParts {path part : String} (h : part ∈ nameParts (outputFileName path)) :
    part ≠ "" ∧ part ≠ "." ∧ part ≠ ".." := by
  rcases mem_nameParts h with hword | ⟨stem, rfl⟩
  · refine ⟨hword.1, ?_, ?_⟩ <;> rintro rfl <;> exact absurd (hword.2 '.' (by decide)) (by decide)
  · refine ⟨?_, ?_, ?_⟩ <;> intro heq <;>
      simpa using congrArg (fun s => s.toList.getLast?) heq

lemma pathOf_outputFileName (path : String) :
    pathOf (outputFileName path) = nameParts (outputFileName path) := by
  refine filter_eq_self.mpr fun part hpart => ?_
  obtain ⟨hempty, hdot, -⟩ := ne_of_mem_nameParts hpart
  simp [hempty, hdot]

lemma pathText_pathOf (path : String) :
    pathText (pathOf (outputFileName path)) = outputFileName path := by
  rw [pathOf_outputFileName, pathText, nameParts, ← String.toList_inj, String.toList_intercalate,
    map_map]
  have hid : String.toList ∘ String.ofList = id := funext fun _ => String.toList_ofList
  rw [hid, map_id]
  exact intercalate_splitOn '/'

lemma moduleSegments_eq_of_pathOf {p q : String}
    (h : pathOf (outputFileName p) = pathOf (outputFileName q)) :
    moduleSegments p = moduleSegments q := by
  rw [← segments_outputFileName, ← segments_outputFileName, ← pathText_pathOf p, h,
    pathText_pathOf]

lemma pathOf_eq_of_moduleSegments {p q : String} (h : moduleSegments p = moduleSegments q) :
    pathOf (outputFileName p) = pathOf (outputFileName q) := by
  rw [outputFileName, outputFileName, h]

def GeneratedFor (files : List File) (r : Registry) (o : Options) (name : String)
    (file : GeneratedFile) : Prop :=
  ∃ f, files.find? (fun f => f.path == name) = some f ∧ (generateFile r o f).run.value = .ok file

namespace GeneratedFor

variable {files : List File} {r : Registry} {o : Options} {p q : String}
  {file file' : GeneratedFile}

section

variable (h : GeneratedFor files r o p file)

include h

lemma name_eq : file.name = outputFileName p := by
  obtain ⟨f, hfind, hf⟩ := h
  obtain ⟨enums, messages, package, services, -, -, rfl⟩ := generateFile_eq_ok hf
  have hpath : f.path = p := by simpa using find?_some hfind
  rw [hpath]

lemma unique (h' : GeneratedFor files r o p file') : file = file' := by
  obtain ⟨f, hfind, hf⟩ := h
  obtain ⟨f', hfind', hf'⟩ := h'
  obtain rfl := Option.some.inj (hfind.symm.trans hfind')
  exact Except.ok.inj (hf.symm.trans hf')

lemma eq_of_content_eq (h' : GeneratedFor files r o q file')
    (hsegments : moduleSegments p = moduleSegments q) (hcontent : file.content = file'.content) :
    p = q := by
  obtain ⟨f, hfind, hf⟩ := h
  obtain ⟨f', hfind', hf'⟩ := h'
  have hp : f.path = p := by simpa using find?_some hfind
  have hq : f'.path = q := by simpa using find?_some hfind'
  rw [← hp, ← hq] at hsegments ⊢
  exact path_eq_of_content_eq hf hf' hsegments hcontent

lemma content_ne (base : IncludeBase) (names : List String) :
    file.content ≠ ModuleTree.render base names := by
  obtain ⟨f, -, hf⟩ := h
  exact content_ne_render hf base names

end

end GeneratedFor

/-! ## The disk after compiling -/

lemma read?_writeModules {base : IncludeBase} {name : String}
    (h : writeModules base output name generated d = .ok d') (path : Path) :
    d'.read? path = if path = resolve output name then
      some (ModuleTree.render base (generated.map GeneratedFile.name)) else d.read? path := by
  unfold writeModules at h
  split_ifs at h
  exact Disk.read?_writeNamed h path

/-- What is written under a path: the module file, or else the last of the generated files that
have the path. -/
def writtenAt? (moduleFile : Option String) (base : IncludeBase) (output : Path)
    (generated : List GeneratedFile) (path : Path) : Option String :=
  (moduleFile.bind fun name =>
    if resolve output name = path then
      some (ModuleTree.render base (generated.map GeneratedFile.name))
    else none).or (lastContent? output generated path)

/-- What was written last is there, and all else is as it was. -/
lemma read?_written {moduleFile : Option String} {base : IncludeBase} {d₁ : Disk}
    (hwritten : writeFiles output generated d = .ok d₁)
    (hmodules : moduleFile = none ∧ d' = d₁ ∨ ∃ name, moduleFile = some name ∧
      writeModules base output name generated d₁ = .ok d') (path : Path) :
    d'.read? path = (writtenAt? moduleFile base output generated path).or (d.read? path) := by
  rw [writtenAt?, Option.or_assoc, ← read?_writeFiles hwritten]
  rcases hmodules with ⟨rfl, rfl⟩ | ⟨name, rfl, hmodules⟩
  · rw [Option.bind_none, Option.none_or]
  · rw [Option.bind_some, read?_writeModules hmodules]
    by_cases hpath : path = resolve output name
    · rw [if_pos hpath, if_pos hpath.symm, Option.some_or]
    · rw [if_neg hpath, if_neg (Ne.symm hpath), Option.none_or]

/-- At the path of a generated file, what was there before is gone. -/
lemma writtenAt?_or (moduleFile : Option String) (base : IncludeBase) (output : Path)
    {f : GeneratedFile} (hf : f ∈ generated) (before : Option String) :
    (writtenAt? moduleFile base output generated (output ++ pathOf f.name)).or before =
      writtenAt? moduleFile base output generated (output ++ pathOf f.name) := by
  obtain ⟨content, hcontent⟩ := exists_lastContent? output hf
  rw [writtenAt?, hcontent, Option.or_assoc, Option.some_or]

section

variable {files : List File} {r : Registry} {o : Options} {names : List String}
  {generated : List GeneratedFile} {output : Path} {moduleFile : Option String}
  {base : IncludeBase} (heach : List.Forall₂ (GeneratedFor files r o) names generated)

include heach

lemma map_name_eq : generated.map GeneratedFile.name = names.map outputFileName :=
  (map_eq_of_forall₂ (heach.imp fun _ _ h => h.name_eq.symm)).symm

/-- Where nothing else has its path, a generated file is what is written there. -/
lemma writtenAt?_of_distinct
    (hdistinct : ∀ p ∈ names, ∀ q ∈ names, moduleSegments p = moduleSegments q → p = q)
    (hmodule : ∀ name ∈ moduleFile, ∀ p ∈ names,
      resolve output name ≠ output ++ pathOf (outputFileName p)) {f : GeneratedFile}
    (hf : f ∈ generated) :
    writtenAt? moduleFile base output generated (output ++ pathOf f.name) = some f.content := by
  obtain ⟨p, hp, hfor⟩ := exists_of_forall₂ heach hf
  have hnone : (moduleFile.bind fun name =>
      if resolve output name = output ++ pathOf f.name then
        some (ModuleTree.render base (generated.map GeneratedFile.name))
      else none) = none := by
    rw [Option.bind_eq_none_iff]
    intro name hname
    rw [hfor.name_eq]
    exact if_neg (hmodule name hname p hp)
  obtain ⟨content, hcontent⟩ := exists_lastContent? output hf
  obtain ⟨g, hg, hpath, rfl⟩ := lastContent?_eq_some hcontent
  obtain ⟨q, hq, hfor'⟩ := exists_of_forall₂ heach hg
  have hsame := append_cancel_left hpath
  rw [hfor.name_eq, hfor'.name_eq] at hsame
  obtain rfl := hdistinct q hq p hp (moduleSegments_eq_of_pathOf hsame)
  rw [writtenAt?, hnone, Option.none_or, hcontent, hfor.unique hfor']

/-- Two generated files with one path are not both there, and none is there that has the path of the
module file. -/
lemma distinct_of_writtenAt? (h : ∀ f ∈ generated,
      writtenAt? moduleFile base output generated (output ++ pathOf f.name) = some f.content) :
    (∀ p ∈ names, ∀ q ∈ names, moduleSegments p = moduleSegments q → p = q) ∧
      ∀ name ∈ moduleFile, ∀ p ∈ names,
        resolve output name ≠ output ++ pathOf (outputFileName p) := by
  have hmade : ∀ p ∈ names, ∃ f ∈ generated, GeneratedFor files r o p f :=
    fun p hp => exists_of_forall₂ heach.flip hp
  constructor
  · intro p hp q hq hsegments
    obtain ⟨f, hf, hfor⟩ := hmade p hp
    obtain ⟨g, hg, hfor'⟩ := hmade q hq
    have hpath : pathOf f.name = pathOf g.name := by
      rw [hfor.name_eq, hfor'.name_eq, pathOf_eq_of_moduleSegments hsegments]
    have hcontent := h f hf
    rw [hpath, h g hg] at hcontent
    exact hfor.eq_of_content_eq hfor' hsegments (Option.some.inj hcontent).symm
  · rintro name rfl p hp hpath
    obtain ⟨f, hf, hfor⟩ := hmade p hp
    have hcontent := h f hf
    rw [writtenAt?, hfor.name_eq, Option.bind_some, if_pos hpath, Option.some_or] at hcontent
    exact hfor.content_ne _ _ (Option.some.inj hcontent).symm

end

/-- Compiling leaves under each path what was written there last. Every file that it returns is
there exactly if different schema files have different module paths, and the module file has the
path of none of them. -/
theorem Compilation.run_leaves_iff {c : Compilation} {d d' : Disk} {generated : List GeneratedFile}
    (h : (c.run d).run.value = .ok (generated, d')) :
    ∃ output base set names, c.place = .ok (output, base) ∧
      c.input.resolve d = .ok (set, names) ∧
      generated.map GeneratedFile.name = (c.only.getD names).map outputFileName ∧
      (∀ path, d'.read? path =
        (writtenAt? c.moduleFile base output generated path).or (d.read? path)) ∧
      ((∀ f ∈ generated, d'.read? (output ++ pathOf f.name) = some f.content) ↔
        (∀ p ∈ c.only.getD names, ∀ q ∈ c.only.getD names,
          moduleSegments p = moduleSegments q → p = q) ∧
        ∀ name ∈ c.moduleFile, ∀ p ∈ c.only.getD names,
          resolve output name ≠ output ++ pathOf (outputFileName p)) := by
  obtain ⟨output, base, set, names, d₁, hplace, hinput, hgenerated, hwritten, hmodules⟩ :=
    run_eq_ok h
  obtain ⟨files, -, hnamed⟩ := generate_eq_ok.mp hgenerated
  have heach : List.Forall₂ (GeneratedFor files _ c.options) (c.only.getD names) generated :=
    generateNamed_eq_ok.mp hnamed
  have hdisk := read?_written hwritten hmodules
  refine ⟨output, base, set, names, hplace, hinput, map_name_eq heach, hdisk, ?_, ?_⟩
  · intro hall
    have hleft (f : GeneratedFile) (hf : f ∈ generated) :
        writtenAt? c.moduleFile base output generated (output ++ pathOf f.name) =
          some f.content := by
      rw [← writtenAt?_or c.moduleFile base output hf (d.read? _), ← hdisk, hall f hf]
    exact distinct_of_writtenAt? heach hleft
  · rintro ⟨hdistinct, hmodule⟩ f hf
    rw [hdisk, writtenAt?_of_distinct heach hdistinct hmodule hf, Option.some_or]

/-- The compilation of files without declarations into a directory. -/
private def emptyFiles (names : List String) : Compilation where
  input := .descriptors (names.map fun name => { name := name, dialect := "proto3" })
  output := some ["out"]

/-- A dash and a slash in the name of a schema file lead to different modules. -/
theorem Compilation.run_leaves_dashed :
    ∃ generated d',
      ((emptyFiles ["a-b.proto", "a/b.proto"]).run ⟨[], []⟩).run.value = .ok (generated, d') ∧
        generated.map GeneratedFile.name = ["a_b.rs", "a/b.rs"] ∧
        ∀ f ∈ generated, d'.read? (["out"] ++ pathOf f.name) = some f.content := by
  have hok : (((emptyFiles ["a-b.proto", "a/b.proto"]).run ⟨[], []⟩).run.value.toOption.any
      fun _ => true) = true := by decide +kernel
  obtain ⟨⟨generated, d'⟩, hrun, -⟩ := exists_ok_of_any hok
  obtain ⟨output, base, set, names, hplace, hinput, hnames, -, hall⟩ :=
    Compilation.run_leaves_iff hrun
  obtain ⟨rfl, -⟩ := Prod.mk.inj (Except.ok.inj hplace)
  obtain ⟨-, rfl⟩ := Prod.mk.inj (Except.ok.inj hinput)
  refine ⟨generated, d', hrun, hnames.trans (by decide +kernel), hall.mpr ⟨?_, ?_⟩⟩
  · decide +kernel
  · decide +kernel

/-- Two schema files of different names can have one module path, and then the first of the two
generated files is lost. -/
theorem Compilation.run_loses_file :
    ["a-b.proto", "a_b.proto"].Nodup ∧ "" ∉ ["a-b.proto", "a_b.proto"] ∧
      ∃ generated d',
        ((emptyFiles ["a-b.proto", "a_b.proto"]).run ⟨[], []⟩).run.value = .ok (generated, d') ∧
          ∃ f ∈ generated, d'.read? (["out"] ++ pathOf f.name) ≠ some f.content := by
  have hlost : (((emptyFiles ["a-b.proto", "a_b.proto"]).run ⟨[], []⟩).run.value.toOption.any
      fun result => result.1.any fun f =>
        result.2.read? (["out"] ++ pathOf f.name) ≠ some f.content) = true := by
    decide +kernel
  obtain ⟨⟨generated, d'⟩, hrun, hany⟩ := exists_ok_of_any hlost
  obtain ⟨f, hf, hne⟩ := List.any_eq_true.mp hany
  refine ⟨by decide +kernel, by decide +kernel, generated, d', hrun, f, hf, ?_⟩
  exact of_decide_eq_true hne

end Protobuf.Build
