import Protobuf.Proofs.Build.ModulePaths
import Protobuf.Proofs.Build.ModuleTree
import Protobuf.Proofs.Text.Quoted

/-!
# What a module file declares

A module file is read line by line: a module begins, ends, or includes a file. What it
declares is given by the paths of its modules and of the files in them, and this is
what the tree of the modules holds. The tree of generated files has a module for every
part of their paths, the modules within one are in the order of their names, and the
file of a path is in the module at the end of it. So references from one generated
file to another lead where they should.
-/

open Option

namespace Protobuf.Build

open Source List
open Naming

/-! ## Reading a module file -/

/-- What a line of a module file says. -/
inductive Statement where
  /-- Nothing: it is blank, or a comment. -/
  | nothing
  | opens (name : String)
  | includes (path : String)
  | closes

def between? (start stop : String) (cs : List Char) : Option (List Char) :=
  (cs.dropPrefix? start.toList).bind fun rest => rest.dropSuffix? stop.toList

/-- What stands in an expression after the directory that the environment names. -/
def afterDirectory? (expression : List Char) : Option (List Char) :=
  between? "concat!(env!(\"OUT_DIR\"), " ")" expression

/-- The path that an expression stands for: a literal, or one after the directory that the
environment names, which is `out`. -/
def pathValue? (out : String) (expression : List Char) : Option String :=
  match afterDirectory? expression with
  | some literal => (Text.literal? literal).map (out ++ ·)
  | none => Text.literal? expression

def opened? (line : List Char) : Option String :=
  (between? "pub mod " " \x7b" line).bind fun name =>
    if !name.isEmpty && name.all isWordChar then some (String.ofList name) else none

def included? (out : String) (line : List Char) : Option String :=
  (between? "include!(" ");" line).bind (pathValue? out)

/-- What a line says that starts with no space. -/
def bareStatement? (out : String) (line : List Char) : Option Statement :=
  if line = [] ∨ "//".toList <+: line then some .nothing
  else if line = ['\x7d'] then some .closes
  else
    match opened? line with
    | some name => some (.opens name)
    | none => (included? out line).map .includes

def statement? (out : String) (line : List Char) : Option Statement :=
  bareStatement? out (line.dropWhile (· = ' '))

structure Declarations where
  /-- The paths of the modules, in the order in which they begin. -/
  modules : List (List String)
  inclusions : List (List String × String)

namespace Declarations

/-- What lines declare that stand in a module with a given path. -/
def ofLines? (out : String) : (here : List String) → List (List Char) → Option Declarations
  | [], [] => some ⟨[], []⟩
  | _ :: _, [] => none
  | here, line :: lines =>
    match statement? out line with
    | some .nothing => ofLines? out here lines
    | some (.opens name) =>
      (ofLines? out (here ++ [name]) lines).map fun d =>
        { d with modules := (here ++ [name]) :: d.modules }
    | some (.includes path) =>
      (ofLines? out here lines).map fun d => { d with inclusions := (here, path) :: d.inclusions }
    | some .closes => if here = [] then none else ofLines? out here.dropLast lines
    | none => none

/-- What a module file declares. The output directory that the environment names is `out`. -/
def ofText? (out text : String) : Option Declarations :=
  ofLines? out [] (text.toList.splitOn '\n')

/-- The names of the modules that begin right in a module, in their order. -/
def children (d : Declarations) (path : List String) : List String :=
  ModuleTree.childNames path d.modules

def files (d : Declarations) (path : List String) : List String :=
  d.inclusions.filterMap fun inclusion => if inclusion.1 = path then some inclusion.2 else none

end Declarations

/-! ## Lines that are written -/

lemma between?_append (start stop : String) (cs : List Char) :
    between? start stop (start.toList ++ cs ++ stop.toList) = some cs := by
  have hstart : (start.toList ++ (cs ++ stop.toList)).dropPrefix? start.toList =
      some (cs ++ stop.toList) :=
    dropPrefix?_eq_some_iff.mpr ⟨start.toList, rfl, by simp⟩
  have hstop : (cs ++ stop.toList).dropSuffix? stop.toList = some cs :=
    dropSuffix?_eq_some_iff.mpr ⟨stop.toList, rfl, by simp⟩
  rw [between?, append_assoc, hstart, bind_some, hstop]

variable {c : Char} {file : String} (out : String) (base : IncludeBase) (depth : Nat)

lemma between?_eq_none_of_head {start stop : String} {d : Char} {cs ds : List Char}
    (hstart : start.toList = c :: cs) (hne : d ≠ c) : between? start stop (d :: ds) = none := by
  have hnone : (d :: ds).dropPrefix? start.toList = none := by
    simp [hstart, dropPrefix?, hne]
  rw [between?, hnone, bind_none]

def IncludeBase.directoryPath (out : String) : IncludeBase → String
  | environment => out
  | directory path => path

def IsPlainName (file : String) : Prop :=
  ∀ c ∈ file.toList, isWordChar c = true ∨ c = '/' ∨ c = '.'

lemma IsPlainName.not_mem (hfile : IsPlainName file) (hword : isWordChar c = false)
    (hslash : c ≠ '/') (hdot : c ≠ '.') : c ∉ file.toList := by
  intro hmem
  rcases hfile c hmem with hc | hc | hc
  · rw [hc] at hword
    cases hword
  · exact hslash hc
  · exact hdot hc

lemma afterDirectory?_environment (file : String) :
    afterDirectory? (IncludeBase.environment.expression file).toList =
      some ('"' :: ('/' :: file.toList) ++ ['"']) := by
  have hstart : "concat!(env!(\"OUT_DIR\"), \"/".toList =
      "concat!(env!(\"OUT_DIR\"), ".toList ++ ['"', '/'] := by decide +kernel
  have hstop : "\")".toList = ['"'] ++ ")".toList := by decide +kernel
  have hexpression : (IncludeBase.environment.expression file).toList =
      "concat!(env!(\"OUT_DIR\"), ".toList ++ ('"' :: ('/' :: file.toList) ++ ['"']) ++
        ")".toList := by
    change ("concat!(env!(\"OUT_DIR\"), \"/" ++ file ++ "\")").toList = _
    rw [String.toList_append, String.toList_append, hstart, hstop]
    simp only [append_assoc, cons_append, nil_append]
  rw [hexpression]
  exact between?_append _ _ _

lemma afterDirectory?_quoted (s : String) : afterDirectory? (Text.quoted s).toList = none := by
  rw [Text.quoted, String.toList_ofList]
  exact between?_eq_none_of_head (c := 'c') rfl (by decide)

lemma pathValue?_expression (hfile : IsPlainName file) :
    pathValue? out (base.expression file).toList =
      some (base.directoryPath out ++ "/" ++ file) := by
  cases base with
  | environment =>
    have hplain : ∀ c ∈ '/' :: file.toList, c ≠ '"' ∧ c ≠ '\\' := by
      intro c hc
      rcases mem_cons.mp hc with rfl | hc
      · decide
      · constructor
        · rintro rfl
          exact hfile.not_mem (by decide) (by decide) (by decide) hc
        · rintro rfl
          exact hfile.not_mem (by decide) (by decide) (by decide) hc
    have hpath : String.ofList ('/' :: file.toList) = "/" ++ file := by
      simp
    simp only [pathValue?, afterDirectory?_environment, Text.literal?_plain hplain, hpath,
      map_some, IncludeBase.directoryPath, String.append_assoc]
  | directory path =>
    have hexpression : (IncludeBase.directory path).expression file =
        Text.quoted (path ++ "/" ++ file) := rfl
    simp only [pathValue?, hexpression, afterDirectory?_quoted, Text.literal?_quoted,
      IncludeBase.directoryPath]

lemma opened?_eq {name : String} (hname : IsWord name) :
    opened? ("pub mod ".toList ++ name.toList ++ " \x7b".toList) = some name := by
  have hword : (!name.toList.isEmpty && name.toList.all isWordChar) := by
    simpa [hname.1] using hname.2
  rw [opened?, between?_append, bind_some, if_pos hword, String.ofList_toList]

lemma included?_eq (hfile : IsPlainName file) :
    included? out ("include!(".toList ++ (base.expression file).toList ++ ");".toList) =
      some (base.directoryPath out ++ "/" ++ file) := by
  rw [included?, between?_append, bind_some, pathValue?_expression out base hfile]

lemma statement?_indent (hc : c ≠ ' ') (cs : List Char) :
    statement? out ((ModuleTree.indent depth).toList ++ c :: cs) =
      bareStatement? out (c :: cs) := by
  have hspaces : ∀ d ∈ (ModuleTree.indent depth).toList, decide (d = ' ') := by
    simp [ModuleTree.indent]
  rw [statement?, dropWhile_append_of_pos hspaces,
    dropWhile_cons_of_neg (by simpa using hc)]

/-- A line that starts with a letter begins a module or includes a file. -/
lemma bareStatement?_cons {out : String} {cs : List Char} (hslash : c ≠ '/')
    (hbrace : c ≠ '\x7d') :
    (∀ name, opened? (c :: cs) = some name → bareStatement? out (c :: cs) = some (.opens name)) ∧
      (opened? (c :: cs) = none → ∀ path, included? out (c :: cs) = some path →
        bareStatement? out (c :: cs) = some (.includes path)) := by
  have hcomment : ¬ (c :: cs = [] ∨ "//".toList <+: c :: cs) := by
    rintro (hnil | ⟨rest, hrest⟩)
    · cases hnil
    · exact hslash (cons.inj hrest).1.symm
  have hcloses : ¬ c :: cs = ['\x7d'] := by simp [hbrace]
  constructor
  · intro name hopened
    simp only [bareStatement?, if_neg hcomment, if_neg hcloses, hopened]
  · intro hopened path hincluded
    simp only [bareStatement?, if_neg hcomment, if_neg hcloses, hopened, hincluded,
      map_some]

lemma statement?_opens {name : String} (hname : IsWord name) :
    statement? out (ModuleTree.indent depth ++ "pub mod " ++ name ++ " \x7b").toList =
      some (.opens name) := by
  have hopened := opened?_eq hname
  have hline : "pub mod ".toList ++ name.toList ++ " \x7b".toList =
      'p' :: ("ub mod ".toList ++ name.toList ++ " \x7b".toList) := rfl
  rw [hline] at hopened
  rw [String.toList_append, String.toList_append, String.toList_append, append_assoc,
    append_assoc, ← append_assoc "pub mod ".toList, hline,
    statement?_indent out depth (by decide)]
  exact (bareStatement?_cons (by decide) (by decide)).1 name hopened

lemma statement?_includes (hfile : IsPlainName file) :
    statement? out
        (ModuleTree.indent depth ++ "include!(" ++ base.expression file ++ ");").toList =
      some (.includes (base.directoryPath out ++ "/" ++ file)) := by
  have hincluded := included?_eq out base hfile
  have hline : "include!(".toList ++ (base.expression file).toList ++ ");".toList =
      'i' :: ("nclude!(".toList ++ (base.expression file).toList ++ ");".toList) := rfl
  rw [hline] at hincluded
  have hopened : opened? ('i' :: ("nclude!(".toList ++ (base.expression file).toList ++
      ");".toList)) = none := by
    rw [opened?, between?_eq_none_of_head (c := 'p') rfl (by decide), bind_none]
  rw [String.toList_append, String.toList_append, String.toList_append, append_assoc,
    append_assoc, ← append_assoc "include!(".toList, hline,
    statement?_indent out depth (by decide)]
  exact (bareStatement?_cons (by decide) (by decide)).2 hopened _ hincluded

lemma statement?_closes :
    statement? out (ModuleTree.indent depth ++ "\x7d").toList = some .closes := by
  rw [String.toList_append]
  exact statement?_indent out depth (by decide) []

/-! ## What a tree holds -/

namespace ModuleTree

def Writable (children : List (String × ModuleTree)) : Prop :=
  ∀ e ∈ entries children, (∀ part ∈ e.1, IsWord part) ∧ ∀ file ∈ e.2, IsPlainName file

lemma Writable.of_cons {name : String} {included : Option String}
    {children others : List (String × ModuleTree)}
    (h : Writable ((name, .node included children) :: others)) :
    IsWord name ∧ (∀ file ∈ included, IsPlainName file) ∧ Writable children ∧ Writable others := by
  have hown := h ([name], included) (by simp [entries])
  refine ⟨hown.1 name (by simp), hown.2, fun e he => ?_, fun e he => h e (by simp [entries, he])⟩
  have hentry := h (name :: e.1, e.2) (by simp only [entries]; simp [he])
  exact ⟨fun part hpart => hentry.1 part (by simp [hpart]), hentry.2⟩

end ModuleTree

/-- What is declared if modules are declared before others, in a module with a given path. -/
def Declarations.add (directory : String) (here : List String)
    (entries : List (List String × Option String)) (d : Declarations) : Declarations where
  modules := entries.map (fun e => here ++ e.1) ++ d.modules
  inclusions :=
    entries.filterMap (fun e => e.2.map fun file => (here ++ e.1, directory ++ "/" ++ file)) ++
      d.inclusions

namespace Declarations

variable {out : String} {here : List String} {line : List Char} {lines : List (List Char)}

lemma ofLines?_nothing (h : statement? out line = some .nothing) :
    ofLines? out here (line :: lines) = ofLines? out here lines := by
  cases here <;> simp only [ofLines?, h]

lemma ofLines?_opens {name : String} (h : statement? out line = some (.opens name)) :
    ofLines? out here (line :: lines) = (ofLines? out (here ++ [name]) lines).map fun d =>
      { d with modules := (here ++ [name]) :: d.modules } := by
  cases here <;> simp only [ofLines?, h]

lemma ofLines?_includes {path : String} (h : statement? out line = some (.includes path)) :
    ofLines? out here (line :: lines) = (ofLines? out here lines).map fun d =>
      { d with inclusions := (here, path) :: d.inclusions } := by
  cases here <;> simp only [ofLines?, h]

lemma ofLines?_closes {name : String} (h : statement? out line = some .closes) :
    ofLines? out (here ++ [name]) (line :: lines) = ofLines? out here lines := by
  have hne : here ++ [name] ≠ [] := by simp
  rw [ofLines?, h]
  · simp only [if_neg hne, dropLast_concat]

lemma add_entries (directory : String) (here : List String) (name : String)
    (included : Option String) (inner others : List (List String × Option String)) :
    add directory here
        (([name], included) :: (inner.map fun e => (name :: e.1, e.2)) ++ others) =
      (add directory here [([name], included)] ∘ add directory (here ++ [name]) inner) ∘
        add directory here others := by
  funext d
  cases included <;> simp [add, Function.comp_def]

end Declarations

namespace ModuleTree

variable {children : List (String × ModuleTree)}

lemma ofLines?_childrenLines (out : String) (base : IncludeBase) (depth : Nat)
    (h : Writable children) (here : List String) (rest : List (List Char)) :
    Declarations.ofLines? out here ((childrenLines base depth children).map String.toList ++ rest) =
      (Declarations.ofLines? out here rest).map
        (Declarations.add (base.directoryPath out) here (entries children)) := by
  fun_induction childrenLines base depth children generalizing here rest with
  | case1 depth =>
    have hid : Declarations.add (base.directoryPath out) here [] = id := rfl
    rw [entries, hid, Option.map_id, map_nil, nil_append, id]
  | case2 depth name included children others own ihchildren ihothers =>
    obtain ⟨hname, hfile, hchildren, hothers⟩ := h.of_cons
    have hopens := statement?_opens out depth hname
    have hcloses := statement?_closes out depth
    -- A module is declared, and what it includes, by the lines before those of its children.
    have hhead (lines : List (List Char)) :
        Declarations.ofLines? out here
            ((indent depth ++ "pub mod " ++ name ++ " \x7b").toList ::
              (own.map String.toList ++ lines)) =
          (Declarations.ofLines? out (here ++ [name]) lines).map
            (Declarations.add (base.directoryPath out) here [([name], included)]) := by
      rw [Declarations.ofLines?_opens hopens]
      cases included with
      | none => rfl
      | some file =>
        have hincludes := statement?_includes out base (depth + 1) (hfile file rfl)
        rw [map_singleton, singleton_append, Declarations.ofLines?_includes hincludes,
          Option.map_map]
        rfl
    simp only [map_cons, map_append, cons_append, append_assoc,
      nil_append]
    rw [hhead, ihchildren hchildren, Declarations.ofLines?_closes hcloses, ihothers hothers,
      Option.map_map, Option.map_map, entries, Declarations.add_entries]

lemma newline_not_mem_expression (base : IncludeBase) {file : String}
    (hfile : IsPlainName file) : '\n' ∉ (base.expression file).toList := by
  cases base with
  | environment =>
    have hname : '\n' ∉ file.toList := hfile.not_mem (by decide) (by decide) (by decide)
    change '\n' ∉ ("concat!(env!(\"OUT_DIR\"), \"/" ++ file ++ "\")").toList
    rw [String.toList_append, String.toList_append, mem_append, mem_append]
    rintro ((hmem | hmem) | hmem)
    · exact absurd hmem (by decide)
    · exact hname hmem
    · exact absurd hmem (by decide)
  | directory path => exact Text.newline_not_mem_quoted _

lemma newline_not_mem_indent (depth : Nat) : '\n' ∉ (indent depth).toList := by
  simp [indent]

lemma newline_not_mem_childrenLines (base : IncludeBase) (depth : Nat) (h : Writable children) :
    ∀ line ∈ childrenLines base depth children, '\n' ∉ line.toList := by
  fun_induction childrenLines base depth children with
  | case1 depth => simp
  | case2 depth name included children others own ihchildren ihothers =>
    obtain ⟨hname, hfile, hchildren, hothers⟩ := h.of_cons
    have hindent (depth : Nat) := newline_not_mem_indent depth
    have hname : '\n' ∉ name.toList := hname.not_mem (by decide)
    have hopens : '\n' ∉ (indent depth ++ "pub mod " ++ name ++ " \x7b").toList := by
      simp [hindent, hname]
    have hcloses : '\n' ∉ (indent depth ++ "\x7d").toList := by
      simp [hindent]
    have hown : ∀ line ∈ own, '\n' ∉ line.toList := by
      cases included with
      | none => simp [own]
      | some file =>
        have hexpression := newline_not_mem_expression base (hfile file rfl)
        simp [own, hindent, hexpression]
    intro line hline
    simp only [cons_append, mem_cons, mem_append, not_mem_nil,
      or_false] at hline
    rcases hline with rfl | ((hline | hline) | rfl) | hline
    · exact hopens
    · exact hown line hline
    · exact ihchildren hchildren line hline
    · exact hcloses
    · exact ihothers hothers line hline

lemma splitOn_newline {lines : List (List Char)} (h : ∀ line ∈ lines, '\n' ∉ line) :
    (lines.flatMap fun line => line ++ ['\n']).splitOn '\n' = lines ++ [[]] := by
  induction lines with
  | nil => rfl
  | cons line lines ih =>
    rw [flatMap_cons, append_assoc, singleton_append,
      splitOn_append_cons_self_of_not_mem (h line (by simp)),
      ih fun line hline => h line (by simp [hline]), cons_append]

lemma lines_eq (base : IncludeBase) (depth : Nat) (t : ModuleTree) :
    t.lines base depth = childrenLines base depth t.children := by
  cases t
  rw [lines, children]

/-- A module file declares what the tree of its modules holds. -/
lemma ofText?_render (out : String) (base : IncludeBase) {files : List String}
    (h : Writable (ofFiles files).children) :
    Declarations.ofText? out (render base files) =
      some (Declarations.add (base.directoryPath out) [] (entries (ofFiles files).children)
        ⟨[], []⟩) := by
  have hlines : ∀ line ∈ "// @generated by protoforge-build" ::
      childrenLines base 0 (ofFiles files).children, '\n' ∉ line.toList := by
    intro line hline
    rcases mem_cons.mp hline with rfl | hline
    · decide
    · exact newline_not_mem_childrenLines base 0 h line hline
  have htext : (render base files).toList =
      (("// @generated by protoforge-build" :: childrenLines base 0 (ofFiles files).children).map
        String.toList).flatMap fun line => line ++ ['\n'] := by
    rw [render, lines_eq, String.toList_join, flatMap_map, flatMap_map]
    simp only [String.toList_append]
    rfl
  have hcomment : statement? out "// @generated by protoforge-build".toList = some .nothing := by
    rw [statement?, bareStatement?, if_pos (Or.inr (by decide +kernel))]
  rw [Declarations.ofText?, htext, splitOn_newline (by simpa using hlines), map_cons,
    cons_append, Declarations.ofLines?_nothing hcomment, ofLines?_childrenLines out base 0 h]
  rfl

end ModuleTree

/-! ## The module file of generated files -/

lemma isPlainName_outputFileName (path : String) : IsPlainName (outputFileName path) := by
  intro c hc
  rw [toList_outputFileName, mem_append] at hc
  rcases hc with hc | hc
  · rcases mem_intercalate_slash hc with rfl | ⟨part, hpart, hc⟩
    · exact .inr (.inl rfl)
    · exact .inl ((isWord_of_mem_moduleSegments hpart).2 c hc)
  · have hending : c = '.' ∨ c = 'r' ∨ c = 's' := by simpa using hc
    rcases hending with rfl | rfl | rfl
    · exact .inr (.inr rfl)
    · exact .inl rfl
    · exact .inl rfl

lemma ModuleTree.writable_ofFiles {files : List String}
    (hdistinct : (files.map segments).Nodup)
    (hfiles : ∀ file ∈ files, IsPlainName file ∧ ∀ part ∈ segments file, IsWord part) :
    Writable (ofFiles files).children := by
  rintro ⟨path, included⟩ he
  constructor
  · intro part hpart
    obtain ⟨-, file, hfile, hpath⟩ := (mem_paths_ofFiles files path).mp (mem_map_of_mem he)
    exact (hfiles file hfile).2 part (hpath.subset hpart)
  · rintro file rfl
    exact (hfiles file ((mem_entries_ofFiles hdistinct).mp he).2.1).1

namespace Declarations

variable (directory : String) (entries : List (List String × Option String))

lemma modules_add : (add directory [] entries ⟨[], []⟩).modules = entries.map Prod.fst := by
  simp [add]

lemma files_add (path : List String) :
    (add directory [] entries ⟨[], []⟩).files path =
      (entries.filterMap fun e => if e.1 = path then e.2 else none).map
        (directory ++ "/" ++ ·) := by
  induction entries with
  | nil => rfl
  | cons e entries ih =>
    obtain ⟨q, _ | file⟩ := e
    · by_cases hq : q = path <;> simpa [add, files, hq] using ih
    · by_cases hq : q = path <;> simpa [add, files, hq] using ih

end Declarations

lemma filterMap_eq_singleton {entries : List (List String × Option String)}
    (hnodup : (entries.map Prod.fst).Nodup) {path : List String}
    (hmem : (path, some file) ∈ entries) :
    (entries.filterMap fun e => if e.1 = path then e.2 else none) = [file] := by
  induction entries with
  | nil => cases hmem
  | cons e entries ih =>
    obtain ⟨hfirst, hnodup⟩ := nodup_cons.mp hnodup
    rcases mem_cons.mp hmem with rfl | hmem
    · have hnone : (entries.filterMap fun e => if e.1 = path then e.2 else none) = [] := by
        rw [filterMap_eq_nil_iff]
        intro e he
        have hkey : e.1 ∈ entries.map Prod.fst := mem_map_of_mem he
        have hne : e.1 ≠ path := fun heq => hfirst (heq ▸ hkey)
        exact if_neg hne
      simp [hnone]
    · have hne : e.1 ≠ path := fun heq => hfirst (heq ▸ mem_map_of_mem hmem)
      rw [filterMap_cons, if_neg hne]
      exact ih hnodup hmem

/-- References between generated files resolve. Whatever order some files with different module
paths come in, their module file can be read. The modules within one are declared once each, in the
order of their names; those that the paths of the files pass through are declared, and the one at
the end of a path includes the file and nothing else. From each of these modules the path to a name
in another one leads there, through modules that are declared and never out of the root. -/
theorem references_resolve (base : IncludeBase) (out : String) {paths : List String}
    (hdistinct : (paths.map moduleSegments).Nodup)
    (hnonempty : ∀ path ∈ paths, moduleSegments path ≠ []) :
    ∃ d, Declarations.ofText? out (ModuleTree.render base (paths.map outputFileName)) = some d ∧
      (∀ q, (d.children q).Pairwise (· < ·)) ∧
      (∀ q, q ∈ d.modules ↔ q ≠ [] ∧ ∃ path ∈ paths, q <+: moduleSegments path) ∧
      (∀ path ∈ paths, d.files (moduleSegments path) =
        [base.directoryPath out ++ "/" ++ outputFileName path]) ∧
      (∀ q, (∀ path ∈ paths, moduleSegments path ≠ q) → d.files q = []) ∧
      ∀ source ∈ paths, ∀ target ∈ paths, ∀ name : Ident,
        follow d.modules (moduleSegments source)
            (Plan.pathCode (relativePath (moduleSegments source) (moduleSegments target) name)) =
          some (moduleSegments target, name) := by
  have hnodup : ((paths.map outputFileName).map ModuleTree.segments).Nodup := by
    simpa [Function.comp_def, segments_outputFileName] using hdistinct
  have hwritable :
      ModuleTree.Writable (ModuleTree.ofFiles (paths.map outputFileName)).children := by
    apply ModuleTree.writable_ofFiles hnodup
    intro file hfile
    obtain ⟨path, -, rfl⟩ := List.mem_map.mp hfile
    rw [segments_outputFileName]
    exact ⟨isPlainName_outputFileName path, fun part hpart => isWord_of_mem_moduleSegments hpart⟩
  have hordered := ModuleTree.ordered_ofFiles (paths.map outputFileName)
  have hmodules (q : List String) :
      q ∈ ModuleTree.paths (ModuleTree.ofFiles (paths.map outputFileName)).children ↔
        q ≠ [] ∧ ∃ path ∈ paths, q <+: moduleSegments path := by
    rw [ModuleTree.mem_paths_ofFiles]
    simp [segments_outputFileName]
  refine ⟨_, ModuleTree.ofText?_render out base hwritable, fun q => ?_, fun q => ?_, ?_, ?_, ?_⟩
  · rw [Declarations.children, Declarations.modules_add]
    exact ModuleTree.pairwise_childNames hordered q
  · rw [Declarations.modules_add]
    exact hmodules q
  · intro path hpath
    have hentry := (ModuleTree.mem_entries_ofFiles hnodup).mpr
      ⟨hnonempty path hpath, List.mem_map_of_mem hpath, segments_outputFileName path⟩
    rw [Declarations.files_add, filterMap_eq_singleton (ModuleTree.nodup_paths hordered) hentry,
      List.map_singleton]
  · intro q hq
    rw [Declarations.files_add, List.map_eq_nil_iff, List.filterMap_eq_nil_iff]
    rintro ⟨q', included⟩ hentry
    split_ifs with heq
    · cases included with
      | none => rfl
      | some file =>
        obtain ⟨-, hfile, hfileq⟩ := (ModuleTree.mem_entries_ofFiles hnodup).mp hentry
        obtain ⟨path, hpath, rfl⟩ := List.mem_map.mp hfile
        rw [segments_outputFileName] at hfileq
        exact absurd (hfileq.trans heq) (hq path hpath)
    · rfl
  · intro source hsource target htarget name
    rw [Declarations.modules_add]
    apply follow_relativePath
    · intro part hpart
      exact ne_super_of_mem_moduleSegments hpart
    · intro q hq hprefix
      exact (hmodules q).mpr ⟨hq, target, htarget, hprefix⟩

/-- A module that includes a file and holds another module, with a reference from each of the two
files to the other one. -/
theorem references_resolve_nested :
    (["acme/v1.proto", "acme.proto"].map moduleSegments).Nodup ∧
    (∀ path ∈ ["acme/v1.proto", "acme.proto"], moduleSegments path ≠ []) ∧
    ∃ d, Declarations.ofText? "target" (ModuleTree.render .environment
        (["acme/v1.proto", "acme.proto"].map outputFileName)) = some d ∧
      d.files ["acme"] = ["target/acme.rs"] ∧ d.files ["acme", "v1"] = ["target/acme/v1.rs"] ∧
      follow d.modules ["acme", "v1"]
          (Plan.pathCode (relativePath ["acme", "v1"] ["acme"] ⟨false, "Entity"⟩)) =
        some (["acme"], ⟨false, "Entity"⟩) ∧
      follow d.modules ["acme"]
          (Plan.pathCode (relativePath ["acme"] ["acme", "v1"] ⟨true, "type"⟩)) =
        some (["acme", "v1"], ⟨true, "type"⟩) := by
  have hinner : moduleSegments "acme/v1.proto" = ["acme", "v1"] := by decide +kernel
  have houter : moduleSegments "acme.proto" = ["acme"] := by decide +kernel
  have hdistinct : (["acme/v1.proto", "acme.proto"].map moduleSegments).Nodup := by
    simp [hinner, houter]
  have hnonempty : ∀ path ∈ ["acme/v1.proto", "acme.proto"], moduleSegments path ≠ [] := by
    simp [hinner, houter]
  obtain ⟨d, hd, -, -, hfiles, -, hfollow⟩ :=
    references_resolve .environment "target" hdistinct hnonempty
  have hv1 := hfiles "acme/v1.proto" (by simp)
  have hacme := hfiles "acme.proto" (by simp)
  have hup := hfollow "acme/v1.proto" (by simp) "acme.proto" (by simp) ⟨false, "Entity"⟩
  have hdown := hfollow "acme.proto" (by simp) "acme/v1.proto" (by simp) ⟨true, "type"⟩
  rw [hinner] at hv1 hup hdown
  rw [houter] at hacme hup hdown
  refine ⟨hdistinct, hnonempty, d, hd, ?_, ?_, hup, hdown⟩
  · rw [hacme]
    decide +kernel
  · rw [hv1]
    decide +kernel

end Protobuf.Build
