import Protobuf.Proofs.Plan.Members

/-!
# What a registry holds

A file declares types, and messages declare types in turn. Every declared type is
found under its name; where a name is declared again, the declaration that is visited
last counts, and each one before it has been reported.
-/

namespace Protobuf.Schema

open List

/-! ## Declarations -/

/-- A type that a file declares. -/
structure Declaration where
  file : File
  /-- The names of the messages around the type, from the outside, and its own. -/
  path : List String
  descriptor : TypeDescriptor

/-- The package of a file, if it has one, and the names of a path, joined by dots, after a dot. -/
def File.qualified (f : File) (path : List String) : String :=
  "." ++ ".".intercalate (if f.package.isEmpty then path else f.package :: path)

def Declaration.name (d : Declaration) : String :=
  d.file.qualified d.path

/-- The entry of a declared type: module and package are those of the file, and the names of the
path are joined by underscores. -/
def Declaration.entry (d : Declaration) : Entry :=
  ⟨⟨Naming.moduleSegments d.file.path, d.file.package, "_".intercalate d.path, d.name⟩,
    d.descriptor⟩

mutual

/-- The declarations of a message at the end of a path, as they are visited: its enums, the messages
nested in it, and itself. -/
def visitMessage (f : File) (path : List String) : Message → List Declaration
  | ⟨name, fields, messages, enums, oneofs, isMapEntry, place⟩ =>
    enums.map (fun e => ⟨f, path ++ [name] ++ [e.name], .enum e⟩) ++
      visitMessages f (path ++ [name]) messages ++
      [⟨f, path ++ [name], .message ⟨name, fields, messages, enums, oneofs, isMapEntry, place⟩⟩]

def visitMessages (f : File) (path : List String) : List Message → List Declaration
  | [] => []
  | m :: messages => visitMessage f path m ++ visitMessages f path messages

end

/-- The declarations of files in turn: of each one the enums, then the messages. -/
def visited (files : List File) : List Declaration :=
  files.flatMap fun f =>
    f.enums.map (fun e => ⟨f, [e.name], .enum e⟩) ++ visitMessages f [] f.messages

/-! ## Entries -/

lemma intercalate_concat (sep : String) {names : List String} (h : names ≠ []) (name : String) :
    sep.intercalate (names ++ [name]) = sep.intercalate names ++ (sep ++ name) := by
  rw [String.intercalate_append_of_ne_nil h (by simp), String.intercalate_singleton,
    String.append_assoc]

lemma File.qualified_concat (f : File) {path : List String} (h : path ≠ []) (name : String) :
    f.qualified (path ++ [name]) = qualify (f.qualified path) name := by
  unfold File.qualified qualify
  split_ifs
  · rw [intercalate_concat "." h, String.append_assoc, String.append_assoc]
  · rw [← cons_append, intercalate_concat "." (by simp), String.append_assoc,
      String.append_assoc]

/-- The scope at the end of a path, and what stands before the generated names of its types. -/
structure ScopeAt (f : File) (path : List String) (scope outer : String) : Prop where
  qualified : ∀ name, qualify scope name = f.qualified (path ++ [name])
  generated : ∀ name, outer ++ name = "_".intercalate (path ++ [name])

namespace ScopeAt

variable {f : File} {path : List String} {scope outer : String}

lemma top (f : File) : ScopeAt f [] (packageScope f.package) "" where
  qualified name := by
    unfold packageScope File.qualified qualify
    split_ifs
    · simp
    · rw [← cons_append, intercalate_concat "." (by simp), String.intercalate_singleton,
        String.append_assoc, String.append_assoc]
  generated name := by simp

lemma enter (h : ScopeAt f path scope outer) (name : String) :
    ScopeAt f (path ++ [name]) (qualify scope name) (outer ++ name ++ "_") where
  qualified inner := by rw [f.qualified_concat (by simp), h.qualified]
  generated inner := by rw [intercalate_concat "_" (by simp), h.generated, String.append_assoc]

end ScopeAt

section

variable {f : File} {path : List String} {scope outer : String}

lemma map_enumEntry (h : ScopeAt f path scope outer) (enums : List Enum) :
    enums.map (enumEntry ⟨Naming.moduleSegments f.path, f.package⟩ scope outer) =
      (enums.map fun e => (⟨f, path ++ [e.name], .enum e⟩ : Declaration)).map
        Declaration.entry := by
  rw [map_map]
  refine map_congr_left fun e _ => ?_
  simp only [enumEntry, h.qualified, h.generated]
  rfl

mutual

theorem messageEntries_eq : ∀ {path : List String} {scope outer : String} (m : Message),
    ScopeAt f path scope outer →
      messageEntries ⟨Naming.moduleSegments f.path, f.package⟩ scope outer m =
        (visitMessage f path m).map Declaration.entry
  | path, scope, outer, ⟨name, fields, messages, enums, oneofs, isMapEntry, place⟩, h => by
    have hinner := h.enter name
    rw [messageEntries, visitMessage, map_append, map_append, map_enumEntry hinner,
      messagesEntries_eq messages hinner, h.qualified, h.generated]
    rfl

theorem messagesEntries_eq : ∀ {path : List String} {scope outer : String}
    (messages : List Message), ScopeAt f path scope outer →
      messagesEntries ⟨Naming.moduleSegments f.path, f.package⟩ scope outer messages =
        (visitMessages f path messages).map Declaration.entry
  | _, _, _, [], _ => by rw [messagesEntries, visitMessages, map_nil]
  | _, _, _, m :: messages, h => by
    rw [messagesEntries, visitMessages, map_append, messageEntries_eq m h,
      messagesEntries_eq messages h]

end

end

/-- The entries of files are those of their declarations, as they are visited. -/
lemma flatMap_entries (files : List File) :
    files.flatMap File.entries = (visited files).map Declaration.entry := by
  rw [visited, map_flatMap]
  refine congrArg (fun k => files.flatMap k) (funext fun f => ?_)
  have htop := ScopeAt.top f
  rw [File.entries, map_enumEntry htop, messagesEntries_eq f.messages htop, map_append]
  rfl

/-! ## Registration -/

namespace Registry

lemma find?_put (e : Entry) (entries : List Entry) (name : String) :
    find? ⟨put e entries⟩ name =
      if e.ref.qualifiedName = name then some e else find? ⟨entries⟩ name := by
  induction entries with
  | nil => rw [put, find?_cons]
  | cons d entries ih =>
    rw [put]
    split_ifs with hd hname hname
    · rw [find?_cons, if_pos hname]
    · rw [find?_cons, if_neg hname, find?_cons, if_neg (hd ▸ hname)]
    · rw [find?_cons, ih, if_pos hname, if_neg (hname ▸ hd)]
    · rw [find?_cons, ih, if_neg hname, find?_cons]

lemma find?_insert (r : Registry) (e : Entry) (name : String) :
    (insert r e).value.find? name =
      if e.ref.qualifiedName = name then some e else r.find? name := by
  rw [← find?_put, ← insert_entries]

def replaced (e : Entry) : Warning :=
  .duplicateType e.ref.qualifiedName e.ref.module

def isAbout (name : String) : Warning → Bool
  | .duplicateType other _ => other = name
  | _ => false

lemma insert_warnings (r : Registry) (e : Entry) (name : String) :
    (insert r e).warnings.filter (isAbout name) =
      if e.ref.qualifiedName = name then (r.find? name).toList.map replaced else [] := by
  unfold insert
  split
  · rename_i previous hfind
    have hname : previous.ref.qualifiedName = e.ref.qualifiedName :=
      beq_iff_eq.mp (find?_some hfind :)
    split_ifs with h
    · simp [isAbout, replaced, ← h, hfind, hname]
    · simp [isAbout, h]
  · rename_i hfind
    split_ifs with h
    · rw [← h, hfind]
      rfl
    · rfl

/-- The entries that registering some on top of others has for a name, the last one of which is
found and the others were given up. -/
def candidates (r : Registry) (es : List Entry) (name : String) : List Entry :=
  (r.find? name).toList ++ es.filter fun e => e.ref.qualifiedName = name

lemma foldlM_insert (es : List Entry) (r : Registry) (name : String) :
    (es.foldlM insert r).value.find? name = (r.candidates es name).getLast? ∧
      (es.foldlM insert r).warnings.filter (isAbout name) =
        (r.candidates es name).dropLast.map replaced := by
  induction es generalizing r with
  | nil => cases h : r.find? name <;> simp [candidates, h, pure, Logged.pure]
  | cons e es ih =>
    obtain ⟨hvalue, hwarnings⟩ := ih (insert r e).value
    have hfold : (e :: es).foldlM insert r = ⟨(es.foldlM insert (insert r e).value).value,
        (insert r e).warnings ++ (es.foldlM insert (insert r e).value).warnings⟩ := rfl
    rw [hfold, filter_append, hwarnings, hvalue, insert_warnings]
    simp only [candidates, find?_insert]
    by_cases hname : e.ref.qualifiedName = name
    · simp [hname, dropLast_append_of_ne_nil, getLast?_cons]
    · simp [hname]

lemma foldlM_warnings (es : List Entry) (r : Registry) :
    ∀ w ∈ (es.foldlM insert r).warnings, ∃ name, isAbout name w := by
  induction es generalizing r with
  | nil => simp [pure, Logged.pure]
  | cons e es ih =>
    intro w hw
    rcases mem_append.mp (show w ∈ (insert r e).warnings ++ _ from hw) with hw | hw
    · unfold insert at hw
      split at hw <;> simp_all [isAbout]
    · exact ih _ w hw

/-- A name of several files stands for the last declaration of it that is visited. -/
lemma find?_ofFiles (files : List File) (name : String) :
    (ofFiles files).value.find? name =
      ((visited files).filter fun d => d.name = name).getLast?.map Declaration.entry := by
  rw [ofFiles, (foldlM_insert _ empty name).1, flatMap_entries, candidates, filter_map,
    ← getLast?_map]
  rfl

lemma isSome_find?_ofFiles (files : List File) (name : String) :
    ((ofFiles files).value.find? name).isSome ↔ ∃ d ∈ visited files, d.name = name := by
  simp [find?_ofFiles]

lemma size_ofFiles (files : List File) :
    (ofFiles files).value.size = ((visited files).map Declaration.name).toFinset.card := by
  have hnames : ((visited files).map Declaration.name).toFinset =
      ((ofFiles files).value.entries.map fun e => e.ref.qualifiedName).toFinset := by
    ext name
    have hfound := isSome_find?_ofFiles files name
    simp only [find?, find?_isSome, beq_iff_eq] at hfound
    simpa using hfound.symm
  rw [hnames, toFinset_card_of_nodup (ofFiles_nodup files), length_map]
  rfl

/-- A name is found exactly if a type is declared with it, and what is found is the entry of the
declaration of the name that is visited last. Of the others there is one warning each, in the order
of the visit, and there are no other warnings. There are as many entries as declared names. -/
theorem ofFiles_exact (files : List File) :
    (∀ name referencedBy, (∃ e, (ofFiles files).value.resolve name referencedBy = .ok e) ↔
      ∃ d ∈ visited files, d.name = name) ∧
    (∀ name referencedBy e, (ofFiles files).value.resolve name referencedBy = .ok e ↔
      ∃ d, ((visited files).filter fun d => d.name = name).getLast? = some d ∧ d.entry = e) ∧
    (∀ name, (ofFiles files).warnings.filter (isAbout name) =
      ((visited files).filter fun d => d.name = name).dropLast.map fun d =>
        .duplicateType d.name (Naming.moduleSegments d.file.path)) ∧
    (∀ w ∈ (ofFiles files).warnings, ∃ name, isAbout name w = true) ∧
    (ofFiles files).value.size = ((visited files).map Declaration.name).toFinset.card := by
  have hresolve (name referencedBy : String) (e : Entry) :
      (ofFiles files).value.resolve name referencedBy = .ok e ↔
        (ofFiles files).value.find? name = some e := by
    rw [resolve]
    cases (ofFiles files).value.find? name <;> simp
  refine ⟨fun name referencedBy => ?_, fun name referencedBy e => ?_, fun name => ?_,
    foldlM_warnings _ _, size_ofFiles files⟩
  · simp only [hresolve, ← Option.isSome_iff_exists, isSome_find?_ofFiles]
  · rw [hresolve, find?_ofFiles, Option.map_eq_some_iff]
  · rw [ofFiles, (foldlM_insert _ empty name).2, flatMap_entries, candidates, List.filter_map]
    change (((visited files).filter fun d => d.name = name).map Declaration.entry).dropLast.map _ = _
    rw [← List.map_dropLast, List.map_map]
    rfl

end Registry

end Protobuf.Schema
