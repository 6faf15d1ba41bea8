import Protobuf.Proofs.Emit.Alike
import Protobuf.Proofs.Plan.Recursion
import Protobuf.Sample.Declare

/-!
# Generation and the order of files

What is generated for a file depends on the set of descriptors, not on the order in
which they come, and not on the other files that are asked for.
-/

namespace Protobuf

open Protobuf.Schema List

/-! ## Names of types -/

namespace Descriptor

mutual

/-- The qualified names of the types that a message declares in a scope: its enums, the messages
nested in it, and itself. -/
def Message.typeNames (scope : String) : Message → List String
  | ⟨name, _, messages, enums, _, _⟩ =>
    enums.map (fun e => qualify (qualify scope name) e.name) ++
      messagesTypeNames (qualify scope name) messages ++ [qualify scope name]

/-- The qualified names of the types that messages declare in a scope. -/
def messagesTypeNames (scope : String) : List Message → List String
  | [] => []
  | m :: messages => m.typeNames scope ++ messagesTypeNames scope messages

end

def File.typeNames (f : File) : List String :=
  f.enums.map (fun e => qualify (packageScope f.package) e.name) ++
    messagesTypeNames (packageScope f.package) f.messages

end Descriptor

namespace Schema

lemma qualifiedName_enumEntries (o : Origin) (scope outer : String) (path : SourcePath)
    (step : Int) (enums : List Descriptor.Enum) :
    (((numbered path step enums).map fun (p, e) => placeEnum p e).map
      (enumEntry o scope outer)).map (fun e => e.ref.qualifiedName) =
      enums.map fun e => qualify scope e.name := by
  simp only [numbered, map_map]
  calc
    _ = (enums.zipIdx.map Prod.fst).map fun e => qualify scope e.name := by
      rw [map_map]
      rfl
    _ = _ := by rw [zipIdx_map_fst]

mutual

theorem checkMessage_typeNames {scope : String} {path : SourcePath} :
    ∀ {d : Descriptor.Message} {m : Message}, checkMessage scope path d = .ok m → ∀ o outer,
      (messageEntries o scope outer m).map (fun e => e.ref.qualifiedName) = d.typeNames scope
  | ⟨name, fields, messages, enums, oneofs, mapEntry⟩, m, h, o, outer => by
    obtain ⟨fields', messages', -, hmessages, -, rfl⟩ := checkMessage_eq_ok h
    simp only [messageEntries, Descriptor.Message.typeNames, map_append,
      qualifiedName_enumEntries, checkMessages_typeNames hmessages, map_cons, map_nil]

theorem checkMessages_typeNames {scope : String} {list : SourcePath} :
    ∀ {index : Nat} {ds : List Descriptor.Message} {ms : List Message},
      checkMessages scope list index ds = .ok ms → ∀ o outer,
      (messagesEntries o scope outer ms).map (fun e => e.ref.qualifiedName) =
        Descriptor.messagesTypeNames scope ds
  | _, [], ms, h, o, outer => by
    cases h
    rfl
  | index, d :: ds, ms, h, o, outer => by
    unfold checkMessages at h
    obtain ⟨m, hm, h⟩ := ok_of_bind h
    obtain ⟨ms', hms, h⟩ := ok_of_bind h
    cases h
    simp only [messagesEntries, Descriptor.messagesTypeNames, map_append,
      checkMessage_typeNames hm, checkMessages_typeNames hms]

end

/-- A checked file has the path and declares the types of its descriptor. -/
lemma File.check_names {d : Descriptor.File} {f : File} (h : File.check d = .ok f) :
    f.path = d.name ∧ f.entries.map (fun e => e.ref.qualifiedName) = d.typeNames := by
  obtain ⟨messages, hmessages, rfl⟩ := check_eq_ok h
  refine ⟨rfl, ?_⟩
  simp only [File.entries, Descriptor.File.typeNames, map_append,
    qualifiedName_enumEntries, checkMessages_typeNames hmessages]

end Schema

/-! ## Generation -/

namespace Build

open Emit

lemma bind_value_eq_ok {α β : Type} {x : Compile α} {f : α → Compile β} {b : β} :
    (x >>= f).run.value = .ok b ↔ ∃ a, x.run.value = .ok a ∧ (f a).run.value = .ok b := by
  have hrun : (x >>= f).run.value =
      (ExceptT.bindCont f x.run.value : Logged (Except CompileError β)).value := rfl
  rw [hrun]
  cases hx : x.run.value with
  | error e => simp [ExceptT.bindCont, pure, Logged.pure]
  | ok a => simp [ExceptT.bindCont, ExceptT.run]

variable {r : Registry} {o : Options} {files : List File}

variable {names : List String} {generated : List GeneratedFile}

lemma generateNamed_cons {name : String} :
    (generateNamed r o files (name :: names)).run.value = .ok generated ↔
      ∃ f file rest, files.find? (fun f => f.path == name) = some f ∧
        (generateFile r o f).run.value = .ok file ∧
        (generateNamed r o files names).run.value = .ok rest ∧ file :: rest = generated := by
  rw [generateNamed]
  cases hfind : files.find? fun f => f.path == name with
  | none =>
    constructor
    · intro h
      cases h
    · rintro ⟨f, -, -, hf, -⟩
      cases hf
  | some f =>
    simp only [bind_value_eq_ok, Option.some.injEq]
    constructor
    · rintro ⟨file, hfile, rest, hrest, h⟩
      exact ⟨f, file, rest, rfl, hfile, hrest, Except.ok.inj h⟩
    · rintro ⟨g, file, rest, rfl, hfile, hrest, h⟩
      exact ⟨file, hfile, rest, hrest, congrArg Except.ok h⟩

lemma generateNamed_eq_ok :
    (generateNamed r o files names).run.value = .ok generated ↔
      List.Forall₂ (fun name file => ∃ f, files.find? (fun f => f.path == name) = some f ∧
        (generateFile r o f).run.value = .ok file) names generated := by
  induction names generalizing generated with
  | nil =>
    constructor
    · intro h
      cases h
      exact .nil
    · intro h
      cases h
      rfl
  | cons name names ih =>
    rw [generateNamed_cons]
    constructor
    · rintro ⟨f, file, rest, hf, hfile, hrest, rfl⟩
      exact .cons ⟨f, hf, hfile⟩ (ih.mp hrest)
    · rintro (_ | ⟨⟨f, hf, hfile⟩, hrest⟩)
      exact ⟨f, _, _, hf, hfile, ih.mpr hrest, rfl⟩

variable {set : List Descriptor.File}

lemma generate_eq_ok :
    (generate set names o).run.value = .ok generated ↔
      ∃ files, set.mapM File.check = .ok files ∧
        (generateNamed (Registry.ofFiles files).value o files names).run.value =
          .ok generated := by
  rw [generate, bind_value_eq_ok]
  rfl

/-- Each of the files asked for is generated as if it were the only one. -/
lemma generate_eq_ok_iff_each :
    (generate set names o).run.value = .ok generated ↔
      (generate set [] o).run.value = .ok [] ∧
        List.Forall₂ (fun name file => (generate set [name] o).run.value = .ok [file])
          names generated := by
  simp only [generate_eq_ok, generateNamed_eq_ok]
  constructor
  · rintro ⟨files, hfiles, heach⟩
    refine ⟨⟨files, hfiles, .nil⟩, heach.imp ?_⟩
    intro name file hfile
    exact ⟨files, hfiles, .cons hfile .nil⟩
  · rintro ⟨⟨files, hfiles, -⟩, heach⟩
    refine ⟨files, hfiles, heach.imp ?_⟩
    rintro name file ⟨files', hfiles', hfile⟩
    rw [hfiles, Except.ok.injEq] at hfiles'
    rw [← hfiles', forall₂_cons] at hfile
    exact hfile.1

section

variable {set' : List Descriptor.File} (hperm : set.Perm set')
  (hnames : (set.map Descriptor.File.name).Nodup)
  (htypes : (set.flatMap Descriptor.File.typeNames).Nodup)

include hperm hnames htypes

/-- If the files of a set can be checked, so can they in another order, and all that is looked up
in them is the same. -/
lemma check_perm {files : List File} (hfiles : set.mapM File.check = .ok files) :
    ∃ files', set'.mapM File.check = .ok files' ∧
      (Registry.ofFiles files).value.Alike (Registry.ofFiles files').value ∧
      ∀ name, files.find? (fun f => f.path == name) = files'.find? (fun f => f.path == name) := by
  obtain ⟨files', hfiles', hreordered⟩ :=
    perm_comp_forall₂ hperm.symm (mapM_eq_ok_iff.mp hfiles)
  have hpaths : files.map File.path = set.map Descriptor.File.name :=
    map_eq_of_mapM (fun _ _ h => (File.check_names h).1) hfiles
  have hentries : files.map (fun f => f.entries.map fun e => e.ref.qualifiedName) =
      set.map Descriptor.File.typeNames :=
    map_eq_of_mapM (fun _ _ h => (File.check_names h).2) hfiles
  have hnodup : ((files.flatMap File.entries).map fun e => e.ref.qualifiedName).Nodup := by
    rwa [map_flatMap, flatMap_def, hentries, ← flatMap_def]
  have hflat := hreordered.symm.flatMap_right File.entries
  refine ⟨files', mapM_eq_ok_iff.mpr hfiles', ?_, ?_⟩
  · apply Registry.Alike.of_perm
    · rwa [Registry.ofFiles_entries hnodup, Registry.ofFiles_entries]
      exact (hflat.map _).nodup_iff.mp hnodup
    · exact Registry.ofFiles_nodup files
  · apply find?_eq_of_perm hreordered.symm
    rwa [hpaths]

/-- What can be generated from a set of files is generated from them in any order. -/
lemma generate_of_perm {names : List String} {generated : List GeneratedFile}
    (h : (generate set names o).run.value = .ok generated) :
    (generate set' names o).run.value = .ok generated := by
  obtain ⟨files, hfiles, hgenerated⟩ := generate_eq_ok.mp h
  obtain ⟨files', hfiles', hregistry, hfind⟩ := check_perm hperm hnames htypes hfiles
  rw [generateNamed_eq_ok] at hgenerated
  rw [generate_eq_ok]
  refine ⟨files', hfiles', generateNamed_eq_ok.mpr (hgenerated.imp ?_)⟩
  rintro name file ⟨f, hf, hfile⟩
  refine ⟨f, ?_, ?_⟩
  · rwa [← hfind]
  · rwa [← generateFile_eq hregistry]

end

/-- What is generated does not depend on the order of the files, if neither two files nor two types
have the same name. Each file is generated as if it were the only one that is asked for. -/
theorem generate_perm {set₁ set₂ : List Descriptor.File} (hperm : set₁.Perm set₂)
    (hnames : (set₁.map Descriptor.File.name).Nodup)
    (htypes : (set₁.flatMap Descriptor.File.typeNames).Nodup) (o : Options) (names : List String)
    (generated : List GeneratedFile) :
    ((generate set₁ names o).run.value = .ok generated ↔
      (generate set₂ names o).run.value = .ok generated) ∧
    ((generate set₁ names o).run.value = .ok generated ↔
      (generate set₁ [] o).run.value = .ok [] ∧
        List.Forall₂ (fun name file => (generate set₁ [name] o).run.value = .ok [file])
          names generated) := by
  have hnames₂ : (set₂.map Descriptor.File.name).Nodup := (hperm.map _).nodup_iff.mp hnames
  have htypes₂ : (set₂.flatMap Descriptor.File.typeNames).Nodup :=
    (hperm.flatMap_right _).nodup_iff.mp htypes
  refine ⟨⟨?_, ?_⟩, generate_eq_ok_iff_each⟩
  · exact generate_of_perm hperm hnames htypes
  · exact generate_of_perm hperm.symm hnames₂ htypes₂

/-- Two files, one of which uses a type of the other. -/
private def orchardFiles : List Descriptor.File :=
  [{ name := "tree.proto"
     package := "orchard"
     dialect := "proto3"
     messages := [{ name := "Tree", fields := [Sample.message ".orchard.Fruit" "fruit" 1] }] },
   { name := "fruit.proto"
     package := "orchard"
     dialect := "proto3"
     messages := [{ name := "Fruit", fields := [Sample.scalar .int32 "weight" 1] }] }]

private def orchardOptions : Options :=
  { binaryCodec := false, jsonCodec := false, client := false }

private def orchardNames : List String := ["fruit.proto", "tree.proto"]

/-- The files of the orchard are generated alike in either order, and one by one. -/
theorem generate_perm_orchard : orchardFiles.Perm orchardFiles.reverse ∧
    (orchardFiles.map Descriptor.File.name).Nodup ∧
    (orchardFiles.flatMap Descriptor.File.typeNames).Nodup ∧
    ∃ generated,
      (generate orchardFiles orchardNames orchardOptions).run.value = .ok generated ∧
      (generate orchardFiles.reverse orchardNames orchardOptions).run.value = .ok generated ∧
      List.Forall₂
        (fun name file => (generate orchardFiles [name] orchardOptions).run.value = .ok [file])
        orchardNames generated := by
  have hperm : orchardFiles.Perm orchardFiles.reverse := (List.reverse_perm _).symm
  have hnames : (orchardFiles.map Descriptor.File.name).Nodup := by decide
  have htypes : (orchardFiles.flatMap Descriptor.File.typeNames).Nodup := by decide +kernel
  have hsome : (generate orchardFiles orchardNames orchardOptions).run.value.toOption.isSome := by
    decide +kernel
  obtain ⟨generated, hgenerated⟩ : ∃ generated,
      (generate orchardFiles orchardNames orchardOptions).run.value = .ok generated := by
    cases hvalue : (generate orchardFiles orchardNames orchardOptions).run.value with
    | error e =>
      rw [hvalue] at hsome
      cases hsome
    | ok generated => exact ⟨generated, rfl⟩
  obtain ⟨hreversed, heach⟩ :=
    generate_perm hperm hnames htypes orchardOptions orchardNames generated
  exact ⟨hperm, hnames, htypes, generated, hgenerated, hreversed.mp hgenerated,
    (heach.mp hgenerated).2⟩

end Build

end Protobuf
