import Mathlib
import Protobuf.Build.ModuleTree

/-!
# The tree of generated modules

In the tree of some files the modules within one are in the order of their names, so
a name is there once. Including one more file changes the modules on its path only,
and the one at the end of the path gets the file. From this the tree of all files is
known: it has the modules that the paths of the files pass through, and the module at
the end of a path has the file.
-/

open Option

namespace Protobuf.Build.ModuleTree

open List

def included : ModuleTree → Option String
  | .node file _ => file

def children : ModuleTree → List (String × ModuleTree)
  | .node _ children => children

def find? : List String → ModuleTree → Option ModuleTree
  | [], t => some t
  | part :: parts, .node _ children => (children.lookup part).bind (find? parts)

/-- Modules that are in the order of their names, and so are those in them. -/
def Ordered : List (String × ModuleTree) → Prop
  | [] => True
  | (name, .node _ children) :: others =>
    (∀ other ∈ others, name < other.1) ∧ Ordered children ∧ Ordered others

variable {children : List (String × ModuleTree)} {file name : String}
  {f : ModuleTree → ModuleTree} {t : ModuleTree}

lemma ordered_cons : Ordered ((name, t) :: children) ↔
    (∀ other ∈ children, name < other.1) ∧ Ordered t.children ∧ Ordered children := by
  cases t
  rw [Ordered, ModuleTree.children]

lemma ordered_empty : Ordered empty.children := by
  rw [empty, ModuleTree.children, Ordered]
  trivial

/-! ## One more file -/

lemma lookup_cons_eq (n : String) : lookup n ((name, t) :: children) =
    if n = name then some t else children.lookup n := by
  by_cases hn : n = name
  · rw [lookup_cons, hn, beq_self_eq_true, if_pos rfl]
  · rw [lookup_cons, beq_eq_false_iff_ne.mpr hn, if_neg hn]

lemma lookup_eq_none_of_lt (h : ∀ child ∈ children, name < child.1) :
    children.lookup name = none := by
  rw [lookup_eq_none_iff]
  intro child hchild
  exact bne_iff_ne.mpr (h child hchild).ne

lemma Ordered.of_lookup (h : Ordered children) (ht : children.lookup name = some t) :
    Ordered t.children := by
  induction children with
  | nil => cases ht
  | cons child children ih =>
    obtain ⟨-, hchild, hothers⟩ := ordered_cons.mp h
    rw [lookup_cons_eq] at ht
    split_ifs at ht
    · exact some.inj ht ▸ hchild
    · exact ih hothers ht

lemma lookup_modifyChild (h : Ordered children) (n : String) :
    (modifyChild name f children).lookup n =
      if n = name then some (f ((children.lookup name).getD empty)) else children.lookup n := by
  fun_induction modifyChild name f children with
  | case1 => rw [lookup_cons_eq, lookup_nil, lookup_nil, getD_none]
  | case2 m t children hlt =>
    have hnone : lookup name ((m, t) :: children) = none := by
      apply lookup_eq_none_of_lt
      intro child hchild
      rcases mem_cons.mp hchild with rfl | hchild
      · exact hlt
      · exact hlt.trans ((ordered_cons.mp h).1 child hchild)
    rw [lookup_cons_eq, hnone, getD_none]
  | case3 t children hlt =>
    rw [lookup_cons_eq, lookup_cons_eq, lookup_cons_eq, if_pos rfl, getD_some]
    split_ifs <;> rfl
  | case4 m t children hlt hne ih =>
    rw [lookup_cons_eq, lookup_cons_eq, lookup_cons_eq, if_neg hne, ih (ordered_cons.mp h).2.2]
    by_cases hn : n = m
    · have hother : ¬ n = name := fun heq => hne (heq.symm.trans hn)
      rw [if_pos hn, if_pos hn, if_neg hother]
    · rw [if_neg hn, if_neg hn]

lemma mem_modifyChild {child : String × ModuleTree} (h : child ∈ modifyChild name f children) :
    child.1 = name ∨ child ∈ children := by
  fun_induction modifyChild name f children with
  | case1 => exact .inl (by simp_all)
  | case2 m t children hlt =>
    rcases mem_cons.mp h with rfl | h
    · exact .inl rfl
    · exact .inr h
  | case3 t children hlt =>
    rcases mem_cons.mp h with rfl | h
    · exact .inl rfl
    · exact .inr (mem_cons_of_mem _ h)
  | case4 m t children hlt hne ih =>
    rcases mem_cons.mp h with rfl | h
    · exact .inr mem_cons_self
    · exact (ih h).imp_right (mem_cons_of_mem _)

lemma Ordered.modifyChild (h : Ordered children)
    (hf : ∀ t, Ordered t.children → Ordered (f t).children) :
    Ordered (ModuleTree.modifyChild name f children) := by
  fun_induction ModuleTree.modifyChild name f children with
  | case1 => exact ordered_cons.mpr ⟨by simp, hf _ ordered_empty, h⟩
  | case2 m t children hlt =>
    refine ordered_cons.mpr ⟨fun other hother => ?_, hf _ ordered_empty, h⟩
    rcases mem_cons.mp hother with rfl | hother
    · exact hlt
    · exact hlt.trans ((ordered_cons.mp h).1 other hother)
  | case3 t children hlt =>
    obtain ⟨hfirst, hchild, hothers⟩ := ordered_cons.mp h
    exact ordered_cons.mpr ⟨hfirst, hf _ hchild, hothers⟩
  | case4 m t children hlt hne ih =>
    obtain ⟨hfirst, hchild, hothers⟩ := ordered_cons.mp h
    refine ordered_cons.mpr ⟨fun other hother => ?_, hchild, ih hothers⟩
    rcases mem_modifyChild hother with hother | hother
    · rw [hother]
      exact lt_of_le_of_ne (not_lt.mp hlt) (Ne.symm hne)
    · exact hfirst other hother

lemma Ordered.insert (parts : List String) (h : Ordered t.children) :
    Ordered (ModuleTree.insert file parts t).children := by
  induction parts generalizing t with
  | nil =>
    cases t
    exact h
  | cons part parts ih =>
    cases t
    exact h.modifyChild fun t ht => ih ht

variable {path : List String} (files : List String)

lemma find?_empty (h : path ≠ []) : empty.find? path = none := by
  obtain ⟨part, parts, rfl⟩ := exists_cons_of_ne_nil h
  rfl

/-- Including a file at the end of a path, the modules on the path are made or changed, and no
other ones. -/
lemma find?_insert (parts path : List String) (h : Ordered t.children) :
    (insert file parts t).find? path =
      if path <+: parts then
        some (insert file (parts.drop path.length) ((t.find? path).getD empty))
      else t.find? path := by
  induction parts generalizing t path with
  | nil =>
    obtain ⟨included, children⟩ := t
    cases path with
    | nil => rfl
    | cons p path => simp [insert, find?]
  | cons part parts ih =>
    obtain ⟨included, children⟩ := t
    cases path with
    | nil => rfl
    | cons p path =>
      change Ordered children at h
      have hlookup : (modifyChild part (insert file parts) children).lookup p = _ :=
        lookup_modifyChild h p
      simp only [insert, find?, cons_prefix_cons]
      rw [hlookup]
      by_cases hp : p = part
      · subst hp
        rw [if_pos rfl, bind_some]
        cases hchild : children.lookup p with
        | none =>
          rw [getD_none, ih path ordered_empty, bind_none]
          cases path with
          | nil => simp [find?]
          | cons part' path => simp [find?_empty]
        | some child =>
          rw [getD_some, ih path (h.of_lookup hchild)]
          simp
      · rw [if_neg hp, if_neg fun hprefix => hp hprefix.1]

def fileAt (path : List String) (t : ModuleTree) : Option String :=
  (t.find? path).bind included

lemma included_insert_nil : (insert file [] t).included = some file := by
  cases t
  rfl

lemma included_insert_cons (part : String) (parts : List String) :
    (insert file (part :: parts) t).included = t.included := by
  cases t
  rfl

lemma insertFile_eq (hfile : segments file ≠ []) :
    t.insertFile file = t.insert file (segments file) := by
  unfold insertFile
  split
  · contradiction
  · rfl

lemma Ordered.insertFile (h : Ordered t.children) : Ordered (t.insertFile file).children := by
  by_cases hfile : segments file = []
  · rwa [ModuleTree.insertFile, hfile]
  · rw [insertFile_eq hfile]
    exact h.insert _

lemma isSome_find?_insertFile (h : Ordered t.children) (path : List String) :
    ((t.insertFile file).find? path).isSome ↔ (t.find? path).isSome ∨ path <+: segments file := by
  by_cases hfile : segments file = []
  · rw [insertFile, hfile]
    cases path with
    | nil => simp [find?]
    | cons part parts => simp
  · rw [insertFile_eq hfile, find?_insert _ _ h]
    split_ifs with hpath <;> simp [hpath]

lemma fileAt_insertFile (h : Ordered t.children) (hpath : path ≠ []) :
    (t.insertFile file).fileAt path =
      if path = segments file then some file else t.fileAt path := by
  by_cases hfile : segments file = []
  · rw [insertFile, hfile, if_neg hpath]
  · rw [insertFile_eq hfile, fileAt, find?_insert _ _ h]
    by_cases hprefix : path <+: segments file
    · obtain ⟨rest, hrest⟩ := hprefix
      rw [if_pos ⟨rest, hrest⟩, ← hrest, drop_left, bind_some]
      cases rest with
      | nil => rw [append_nil, if_pos rfl, included_insert_nil]
      | cons part rest =>
        rw [included_insert_cons, if_neg (by simp), fileAt]
        cases t.find? path <;> rfl
    · have hne : path ≠ segments file := fun heq => hprefix ⟨[], by rw [heq, append_nil]⟩
      rw [if_neg hprefix, if_neg hne, fileAt]

/-! ## All files -/

lemma ofFiles_concat (file : String) :
    ofFiles (files ++ [file]) = (ofFiles files).insertFile file :=
  foldl_concat ..

lemma ordered_ofFiles : Ordered (ofFiles files).children := by
  induction files using reverseRecOn with
  | nil => exact ordered_empty
  | append_singleton files file ih =>
    rw [ofFiles_concat]
    exact ih.insertFile

lemma isSome_find?_ofFiles (hpath : path ≠ []) :
    ((ofFiles files).find? path).isSome ↔ ∃ file ∈ files, path <+: segments file := by
  induction files using reverseRecOn with
  | nil => simp [ofFiles, find?_empty hpath]
  | append_singleton files file ih =>
    rw [ofFiles_concat, isSome_find?_insertFile (ordered_ofFiles files), ih]
    simp only [mem_append, mem_singleton, or_and_right, exists_or, exists_eq_left]

/-- Files with different paths are in the modules at the ends of these. -/
lemma fileAt_ofFiles {files : List String} (hfiles : (files.map segments).Nodup)
    (hpath : path ≠ []) :
    (ofFiles files).fileAt path = some file ↔ file ∈ files ∧ segments file = path := by
  induction files using reverseRecOn with
  | nil => simp [ofFiles, fileAt, find?_empty hpath]
  | append_singleton files last ih =>
    rw [map_append, map_singleton, nodup_append] at hfiles
    rw [ofFiles_concat, fileAt_insertFile (ordered_ofFiles files) hpath]
    rw [mem_append, mem_singleton, or_and_right]
    split_ifs with hlast
    · have hother : ¬ (file ∈ files ∧ segments file = path) := by
        rintro ⟨hmem, hpath⟩
        exact hfiles.2.2 _ (mem_map_of_mem hmem) _ (mem_singleton_self _)
          (hpath.trans hlast)
      constructor
      · intro heq
        obtain rfl := some.inj heq
        exact .inr ⟨rfl, hlast.symm⟩
      · rintro (hmem | ⟨rfl, -⟩)
        · exact absurd hmem hother
        · rfl
    · rw [ih hfiles.1]
      refine ⟨.inl, fun hmem => hmem.resolve_right ?_⟩
      rintro ⟨rfl, hpath⟩
      exact hlast hpath.symm

/-! ## Modules by their paths -/

/-- The modules of a tree by their paths, each with the file that it includes: a module comes before
those in it. -/
def entries : List (String × ModuleTree) → List (List String × Option String)
  | [] => []
  | (name, .node included children) :: rest =>
    ([name], included) :: ((entries children).map fun e => (name :: e.1, e.2)) ++ entries rest

lemma exists_of_mem_entries {e : List String × Option String} (he : e ∈ entries children) :
    ∃ child ∈ children, ∃ parts, e.1 = child.1 :: parts := by
  fun_induction entries children with
  | case1 => cases he
  | case2 name included inner rest ihinner ihrest =>
    rw [cons_append, mem_cons, mem_append] at he
    rcases he with rfl | he | he
    · exact ⟨_, mem_cons_self, [], rfl⟩
    · obtain ⟨e', -, rfl⟩ := mem_map.mp he
      exact ⟨_, mem_cons_self, e'.1, rfl⟩
    · obtain ⟨child, hchild, parts, heq⟩ := ihrest he
      exact ⟨child, mem_cons_of_mem _ hchild, parts, heq⟩

def paths (children : List (String × ModuleTree)) : List (List String) :=
  (entries children).map Prod.fst

lemma paths_cons (included : Option String) (inner : List (String × ModuleTree)) :
    paths ((name, .node included inner) :: children) =
      [[name]] ++ (paths inner).map (name :: ·) ++ paths children := by
  simp [paths, entries]

lemma nil_not_mem_paths : [] ∉ paths children := by
  intro hmem
  obtain ⟨e, he, heq⟩ := mem_map.mp hmem
  obtain ⟨child, -, parts, hparts⟩ := exists_of_mem_entries he
  rw [heq] at hparts
  cases hparts

lemma cons_not_mem_paths (h : ∀ child ∈ children, name < child.1) (parts : List String) :
    name :: parts ∉ paths children := by
  intro hmem
  obtain ⟨e, he, heq⟩ := mem_map.mp hmem
  obtain ⟨child, hchild, parts', hparts⟩ := exists_of_mem_entries he
  rw [heq] at hparts
  exact (h child hchild).ne (cons.inj hparts).1

lemma cons_mem_entries (h : Ordered children) {part : String} {parts : List String}
    {file : Option String} :
    (part :: parts, file) ∈ entries children ↔
      ∃ t, (children.lookup part).bind (find? parts) = some t ∧ t.included = file := by
  fun_induction entries children generalizing part parts with
  | case1 => simp
  | case2 name included inner rest ihinner ihrest =>
    obtain ⟨hfirst, hinner, hrest⟩ := ordered_cons.mp h
    rw [cons_append, mem_cons, mem_append, lookup_cons_eq]
    by_cases hpart : part = name
    · subst hpart
      have hothers : (part :: parts, file) ∉ entries rest := fun hmem =>
        cons_not_mem_paths hfirst parts (mem_map_of_mem hmem)
      rw [if_pos rfl, bind_some]
      cases parts with
      | nil =>
        have hinside : ([], file) ∉ entries inner := fun hmem =>
          nil_not_mem_paths (mem_map_of_mem hmem)
        simp [hinside, hothers, find?, ModuleTree.included, eq_comm]
      | cons p parts =>
        rw [find?, ← ihinner hinner]
        simp [hothers]
    · rw [if_neg hpart, ← ihrest hrest]
      simp [hpart, Ne.symm hpart]

lemma mem_entries (h : Ordered t.children) (hpath : path ≠ []) {file : Option String} :
    (path, file) ∈ entries t.children ↔ ∃ u, t.find? path = some u ∧ u.included = file := by
  obtain ⟨part, parts, rfl⟩ := exists_cons_of_ne_nil hpath
  cases t
  exact cons_mem_entries h

lemma nodup_paths (h : Ordered children) : (paths children).Nodup := by
  fun_induction entries children with
  | case1 => simp [paths, entries]
  | case2 name included inner rest ihinner ihrest =>
    obtain ⟨hfirst, hinner, hrest⟩ := ordered_cons.mp h
    have hmap : ((paths inner).map (name :: ·)).Nodup :=
      (ihinner hinner).map fun _ _ heq => (cons.inj heq).2
    rw [paths_cons, append_assoc, singleton_append, nodup_cons]
    refine ⟨?_, hmap.append (ihrest hrest) ?_⟩
    · simp [nil_not_mem_paths, cons_not_mem_paths hfirst]
    · intro q hq hother
      obtain ⟨parts, -, rfl⟩ := mem_map.mp hq
      exact cons_not_mem_paths hfirst parts hother

lemma mem_paths_ofFiles (path : List String) :
    path ∈ paths (ofFiles files).children ↔
      path ≠ [] ∧ ∃ file ∈ files, path <+: segments file := by
  by_cases hpath : path = []
  · simp [hpath, nil_not_mem_paths]
  · rw [← isSome_find?_ofFiles files hpath, isSome_iff_exists]
    constructor
    · intro hmem
      obtain ⟨e, he, rfl⟩ := mem_map.mp hmem
      obtain ⟨u, hu, -⟩ := (mem_entries (ordered_ofFiles files) hpath).mp he
      exact ⟨hpath, u, hu⟩
    · rintro ⟨-, u, hu⟩
      have he := (mem_entries (ordered_ofFiles files) hpath).mpr ⟨u, hu, rfl⟩
      exact mem_map_of_mem he

lemma mem_entries_ofFiles {files : List String} (hfiles : (files.map segments).Nodup) :
    (path, some file) ∈ entries (ofFiles files).children ↔
      path ≠ [] ∧ file ∈ files ∧ segments file = path := by
  by_cases hpath : path = []
  · have hnil : ([], some file) ∉ entries (ofFiles files).children := fun hmem =>
      nil_not_mem_paths (mem_map_of_mem hmem)
    simp [hpath, hnil]
  · rw [mem_entries (ordered_ofFiles files) hpath, ← fileAt_ofFiles hfiles hpath, fileAt,
      bind_eq_some_iff]
    simp [hpath]

/-- The last parts of the paths that lead from a module right into another one. -/
def childNames (path : List String) (paths : List (List String)) : List String :=
  paths.filterMap fun q => if q.dropLast = path then q.getLast? else none

lemma mem_childNames {paths : List (List String)} {n : String} :
    n ∈ childNames path paths ↔ path ++ [n] ∈ paths := by
  rw [childNames, mem_filterMap]
  constructor
  · rintro ⟨q, hq, hn⟩
    split_ifs at hn with hpath
    obtain ⟨init, rfl⟩ := getLast?_eq_some_iff.mp hn
    rw [dropLast_concat] at hpath
    exact hpath ▸ hq
  · intro hmem
    exact ⟨path ++ [n], hmem, by simp⟩

lemma childNames_append (path : List String) (paths paths' : List (List String)) :
    childNames path (paths ++ paths') = childNames path paths ++ childNames path paths' :=
  filterMap_append

lemma childNames_map_cons (name : String) {paths : List (List String)} (hpaths : [] ∉ paths) :
    childNames path (paths.map (name :: ·)) =
      if path.head? = some name then childNames path.tail paths else [] := by
  have hcons : ∀ q ∈ paths, (if (name :: q).dropLast = path then (name :: q).getLast? else none) =
      if path.head? = some name ∧ q.dropLast = path.tail then q.getLast? else none := by
    intro q hq
    obtain ⟨c, cs, rfl⟩ := exists_cons_of_ne_nil (ne_of_mem_of_not_mem hq hpaths)
    cases path with
    | nil => simp
    | cons part path => simp [eq_comm]
  rw [childNames, filterMap_map]
  refine (filterMap_congr hcons).trans ?_
  split_ifs with hpart
  · simp only [hpart, true_and]
    rfl
  · simp [hpart]

lemma pairwise_childNames (h : Ordered children) (path : List String) :
    (childNames path (paths children)).Pairwise (· < ·) := by
  fun_induction entries children generalizing path with
  | case1 => simp [paths, entries, childNames]
  | case2 name included inner rest ihinner ihrest =>
    obtain ⟨hfirst, hinner, hrest⟩ := ordered_cons.mp h
    rw [paths_cons, childNames_append, childNames_append,
      childNames_map_cons name nil_not_mem_paths]
    cases path with
    | nil =>
      have hown : childNames [] [[name]] = [name] := by simp [childNames]
      have hlater : ∀ n ∈ childNames [] (paths rest), name < n := by
        intro n hn
        obtain ⟨e, he, heq⟩ := mem_map.mp (mem_childNames.mp hn)
        obtain ⟨child, hchild, parts, hparts⟩ := exists_of_mem_entries he
        rw [heq] at hparts
        exact (cons.inj hparts).1 ▸ hfirst child hchild
      rw [hown, if_neg (by simp), append_nil, singleton_append, pairwise_cons]
      exact ⟨hlater, ihrest hrest []⟩
    | cons part path =>
      have hown : childNames (part :: path) [[name]] = [] := by simp [childNames]
      rw [hown, nil_append]
      by_cases hpart : part = name
      · have hlater : childNames (part :: path) (paths rest) = [] := by
          rw [eq_nil_iff_forall_not_mem, hpart]
          intro n hn
          exact cons_not_mem_paths hfirst _ (mem_childNames.mp hn)
        rw [hlater, hpart, head?_cons, if_pos rfl, append_nil]
        exact ihinner hinner path
      · rw [head?_cons, if_neg (by simpa using hpart), nil_append]
        exact ihrest hrest (part :: path)

end Protobuf.Build.ModuleTree
