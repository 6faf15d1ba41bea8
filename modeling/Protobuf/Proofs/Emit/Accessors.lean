import Protobuf.Proofs.Emit.DeclaredTypes
import Protobuf.Rpc.Interface

/-!
# Accessors of a service

The accessor of a method `BatchItem` is `GetItem`. In snake case the two names differ in
nothing but their beginnings, so that accessors have different names if methods have. A
method with another name than an accessor can still get its identifier.
-/

open List

namespace Protobuf.Text

/-! ## Snake case after a beginning -/

variable {c d : Char}

lemma isLower_spec (hc : c.isLower) : breakOf c = .other ∧
    inRuns caseIgnorableRuns c.toNat = false ∧ inRuns casedRuns c.toNat ∧
    upperChar c = [Char.ofNat (c.toNat - 32)] ∧ Char.ofNat (c.toNat - 32) ≠ c ∧
    lowerChar c = [c] ∧ c.toNat ≠ 0x3A3 ∧ isDigitCluster [c] = false ∧
    isSeparator [c] = false := by
  obtain ⟨n, rfl⟩ : ∃ n : Fin 26, c = Char.ofNat (97 + n) := by
    rw [Char.isLower, Bool.and_eq_true, decide_eq_true_eq, decide_eq_true_eq] at hc
    have hrange : 97 ≤ c.toNat ∧ c.toNat ≤ 122 := hc
    refine ⟨⟨c.toNat - 97, by omega⟩, ?_⟩
    rw [Nat.add_sub_cancel' hrange.1, Char.ofNat_toNat]
  clear hc
  revert n
  decide +kernel

/-- What follows a cluster or a word depends on its end alone. -/
lemma clustersFrom_eq (s : ClusterState) (cs : List Char) :
    ∃ g gs, ∀ current, clustersFrom current s cs = (current.reverse ++ g) :: gs := by
  induction cs generalizing s with
  | nil => exact ⟨[], [], by simp [clustersFrom]⟩
  | cons c cs ih =>
    by_cases hjoins : s.joins (breakOf c)
    · obtain ⟨g, gs, h⟩ := ih (s.next (breakOf c))
      exact ⟨c :: g, gs, fun current => by simp [clustersFrom, hjoins, h]⟩
    · exact ⟨[], _, fun current => by simp [clustersFrom, hjoins]; rfl⟩

lemma wordsFrom_eq (gs : List (List Char)) :
    ∃ w ws, ∀ current, wordsFrom current gs = (current.reverse ++ w) :: ws := by
  induction gs with
  | nil => exact ⟨[], [], by simp [wordsFrom]⟩
  | cons g gs ih =>
    by_cases hseparator : isSeparator g
    · exact ⟨[], _, fun current => by simp [wordsFrom, hseparator]; rfl⟩
    · by_cases hcut : cutsAfter g gs
      · exact ⟨[g], _, fun current => by simp [wordsFrom, hseparator, hcut]; rfl⟩
      · obtain ⟨w, ws, h⟩ := ih
        exact ⟨g :: w, ws, fun current => by simp [wordsFrom, hseparator, hcut, h]⟩

/-- Before a letter, all that counts is that it is one. -/
lemma startsCased_append (hc : c.isLower) (hd : d.isLower) (a b b' : List Char) :
    startsCased (a ++ c :: b) = startsCased (a ++ d :: b') := by
  induction a with
  | nil => simp [startsCased, isLower_spec hc, isLower_spec hd]
  | cons e a ih =>
    by_cases he : inRuns caseIgnorableRuns e.toNat
    · simpa [startsCased, he] using ih
    · simp [startsCased, he]

lemma lowerFrom_letter (hc : c.isLower) (hd : d.isLower) (b b' cs : List Char) :
    lowerFrom (c :: b) cs = lowerFrom (d :: b') cs := by
  suffices h : ∀ a, lowerFrom (a ++ c :: b) cs = lowerFrom (a ++ d :: b') cs from h []
  induction cs with
  | nil => exact fun _ => rfl
  | cons e cs ih =>
    intro a
    rw [lowerFrom, lowerFrom, startsCased_append hc hd a b b', ← cons_append,
      ← cons_append, ih (e :: a)]

lemma lowerFrom_small (hc : c.isLower) (before cs : List Char) :
    lowerFrom before (c :: cs) = c :: lowerFrom ['a'] cs := by
  obtain ⟨-, -, -, -, -, hlower, hsigma, -, -⟩ := isLower_spec hc
  rw [lowerFrom, if_neg hsigma, hlower,
    lowerFrom_letter hc (show 'a'.isLower by rfl) before []]
  rfl

/-- A cluster that begins with a small letter is neither a capital, a digit nor a separator, and
which letter it is makes no difference. -/
lemma cluster_small (hc : c.isLower) (g : List Char) :
    isUpper (c :: g) = false ∧ isDigitCluster (c :: g) = false ∧ isSeparator (c :: g) = false ∧
      isLower (c :: g) = (g == lowerFrom ['a'] g) := by
  obtain ⟨-, -, -, hu, hne, -, -, hdigit, hseparator⟩ := isLower_spec hc
  refine ⟨?_, ?_, ?_, ?_⟩
  · simp [isUpper, upper, hu, hne.symm]
  · cases g with
    | nil => exact hdigit
    | cons => rfl
  · simp_all [isSeparator]
  · simp [isLower, upper, lower, hu, hne, lowerFrom_small hc]

/-- The words after a small letter at the beginning depend on the rest of the text alone. -/
lemma wordsFrom_small (cs : List Char) : ∃ g w ws, ∀ c, c.isLower → ∀ current,
    wordsFrom current (clusters (c :: cs)) = (current.reverse ++ (c :: g) :: w) :: ws := by
  obtain ⟨g, gs, hclusters⟩ := clustersFrom_eq (.start .other) cs
  have hcut : ∀ c, c.isLower → cutsAfter (c :: g) gs = cutsAfter ('a' :: g) gs := by
    intro c hc
    obtain ⟨hupper, hdigit, -, hlower⟩ := cluster_small hc g
    obtain ⟨hupper', hdigit', -, hlower'⟩ := cluster_small (show 'a'.isLower by rfl) g
    cases gs with
    | nil => rfl
    | cons => simp [cutsAfter, hupper, hdigit, hlower, hupper', hdigit', hlower']
  by_cases hend : cutsAfter ('a' :: g) gs
  · refine ⟨g, [], wordsFrom [] gs, fun c hc current => ?_⟩
    rw [clusters, (isLower_spec hc).1, hclusters]
    simp [wordsFrom, cluster_small hc g, hcut c hc, hend]
  · obtain ⟨w, ws, hwords⟩ := wordsFrom_eq gs
    refine ⟨g, w, ws, fun c hc current => ?_⟩
    rw [clusters, (isLower_spec hc).1, hclusters]
    simp [wordsFrom, cluster_small hc g, hcut c hc, hend, hwords]

/-- The words after a first word are put in snake case by themselves. -/
lemma exists_intercalate (ws : List (List (List Char))) : ∃ rest, ∀ w,
    ['_'].intercalate ((w :: ws).map fun w => lower w.flatten) = lower w.flatten ++ rest := by
  cases ws with
  | nil => exact ⟨[], by simp⟩
  | cons w' ws =>
    exact ⟨_, fun w => intercalate_cons_cons.trans (append_assoc ..)⟩

/-- A text that begins with a small letter, put in snake case, and the same with one more letter
before it. -/
lemma snakeWords_small (cs : List Char) : ∃ rest, ∀ c, c.isLower →
    snakeWords (c :: cs) = c :: rest ∧ ∀ d, breakOf d = .other ∧ isSeparator [d] = false ∧
      isDigitCluster [d] = false ∧ d.toNat ≠ 0x3A3 →
      snakeWords (d :: c :: cs) = lowerChar d ++ c :: rest := by
  obtain ⟨g, w, ws, hwords⟩ := wordsFrom_small cs
  obtain ⟨rest, hrest⟩ := exists_intercalate ws
  refine ⟨lowerFrom ['a'] (g ++ w.flatten) ++ rest, fun c hc => ⟨?_, ?_⟩⟩
  · rw [snakeWords, words, if_neg (by simp), hwords c hc, hrest]
    simp [lower, lowerFrom_small hc]
  · rintro d ⟨hclass, hseparator, hdigit, hsigma⟩
    have hclusters : clusters (d :: c :: cs) = [d] :: clusters (c :: cs) := by
      simp [clusters, clustersFrom, hclass, (isLower_spec hc).1, ClusterState.joins,
        ClusterState.start]
    obtain ⟨g', gs, hfirst⟩ := clustersFrom_eq (.start (breakOf c)) cs
    have hcut : cutsAfter [d] (clusters (c :: cs)) = false := by
      rw [clusters, hfirst]
      simp [cutsAfter, cluster_small hc g', hdigit]
    rw [snakeWords, words, if_neg (by simp), hclusters, wordsFrom, if_neg (by simp [hseparator]),
      if_neg (by simp [hcut]), hwords c hc, hrest]
    have hlower : lower (d :: c :: (g ++ w.flatten)) =
        lowerChar d ++ c :: lowerFrom ['a'] (g ++ w.flatten) := by
      rw [lower, lowerFrom, if_neg hsigma, lowerFrom_small hc]
    simp [hlower]

lemma snakeWords_cons (hc : c.isLower) (hd : breakOf d = .other ∧
    isSeparator [d] = false ∧ isDigitCluster [d] = false ∧ d.toNat ≠ 0x3A3) (cs : List Char) :
    snakeWords (d :: c :: cs) = lowerChar d ++ snakeWords (c :: cs) := by
  obtain ⟨rest, h⟩ := snakeWords_small cs
  rw [(h c hc).1, (h c hc).2 d hd]

end Protobuf.Text

namespace Protobuf.Emit

open Naming Plan Rpc Protobuf.Schema Source

/-! ## Names of methods and accessors -/

/-- In snake case, the name of an accessor and that of its method go on alike. -/
lemma snakeCase_accessor (item : String) : ∃ rest,
    snakeCase ("Get" ++ item) = String.ofList ('g' :: 'e' :: 't' :: rest) ∧
      snakeCase ("Batch" ++ item) = String.ofList ('b' :: 'a' :: 't' :: 'c' :: 'h' :: rest) := by
  obtain ⟨rest, hrest⟩ := Text.snakeWords_small item.toList
  have hget : Text.snakeWords ('G' :: 'e' :: 't' :: item.toList) = 'g' :: 'e' :: 't' :: rest := by
    simp (disch := decide +kernel) only [Text.snakeWords_cons]
    rw [(hrest 't' rfl).1]
    rfl
  have hbatch : Text.snakeWords ('B' :: 'a' :: 't' :: 'c' :: 'h' :: item.toList) =
      'b' :: 'a' :: 't' :: 'c' :: 'h' :: rest := by
    simp (disch := decide +kernel) only [Text.snakeWords_cons]
    rw [(hrest 'h' rfl).1]
    rfl
  refine ⟨rest, ?_, ?_⟩
  · simp [snakeCase, isSnakeChar, hget, startsWithDigit]
  · simp [snakeCase, isSnakeChar, hbatch, startsWithDigit]

/-- A name that begins like no reserved word and without a mark is kept. -/
lemma typeName_eq_self {s : String} {c : Char} {cs : List Char} (hs : s.toList = c :: cs)
    (hr : 'r' ≠ c) (hwords : ∀ word ∈ reserved, word.toList.head? ≠ some c) : typeName s = s := by
  rw [typeName, if_neg, unmarked_eq_self]
  · intro cs' hmark
    exact hr (cons.inj (hmark.symm.trans hs)).1
  · intro hreserved
    exact hwords s (contains_iff_mem.mp hreserved) (by rw [hs]; rfl)

variable {style : MethodStyle} {item item' name : String} {i : Ident}

lemma methodIdent_eq_ok (h : methodIdent style name = .ok i) :
    i.name = typeName (interfaceName style name) := by
  cases style with
  | snake | declared => exact (escape?_eq_some (ident_eq_ok h)).1

lemma accessor_name (h : methodIdent style ("Get" ++ item) = .ok i) :
    i.name = interfaceName style ("Get" ++ item) := by
  rw [methodIdent_eq_ok h]
  cases style with
  | snake =>
    obtain ⟨rest, hget, -⟩ := snakeCase_accessor item
    rw [interfaceName, hget]
    exact typeName_eq_self String.toList_ofList (by decide) (by decide +kernel)
  | declared =>
    exact typeName_eq_self (String.toList_append ..) (by decide) (by decide +kernel)

/-- Methods of accessors with one name have one name. -/
lemma interfaceName_accessor
    (h : interfaceName style ("Get" ++ item) = interfaceName style ("Get" ++ item')) :
    interfaceName style ("Batch" ++ item) = interfaceName style ("Batch" ++ item') := by
  cases style with
  | snake =>
    obtain ⟨rest, hget, hbatch⟩ := snakeCase_accessor item
    obtain ⟨rest', hget', hbatch'⟩ := snakeCase_accessor item'
    simp only [interfaceName, hget, hget', hbatch, hbatch', String.ofList_inj] at h ⊢
    simpa using h
  | declared =>
    rw [interfaceName, interfaceName, String.append_right_inj] at h
    rw [h]

/-! ## Plans of services -/

section

variable {s : Scope} {service : Service} {fullName : String}

lemma afterStart?_eq_some {start rest : String} (h : afterStart? start name = some rest) :
    name = start ++ rest := by
  unfold afterStart? at h
  split_ifs at h with hstart
  obtain ⟨cs, hcs⟩ := isPrefixOf_iff_prefix.mp hstart
  cases h
  apply String.toList_inj.mp
  simp [← hcs]

lemma accessorOf?_eq_some {method : Method} {input output : FieldPlan} {b : BatchPlan}
    (h : s.accessorOf? service fullName method item input output = .ok (some b)) :
    (∀ m ∈ service.methods, m.name ≠ "Get" ++ item) ∧
      methodIdent s.options.methods ("Get" ++ item) = .ok b.accessor := by
  unfold Scope.accessorOf? at h
  rcases ite_eq_iff.mp h with ⟨-, h⟩ | ⟨-, h⟩
  · cases h
  · obtain ⟨keyType, -, h⟩ := ok_of_bind h
    obtain ⟨items?, -, h⟩ := ok_of_bind h
    cases items? with
    | none => cases h
    | some items =>
      dsimp only at h
      split_ifs at h with hdeclared
      · cases h
      · obtain ⟨entry, -, h⟩ := ok_of_bind h
        obtain ⟨own, -, h⟩ := ok_of_bind h
        obtain ⟨accessor, haccessor, h⟩ := ok_of_bind h
        obtain ⟨param, -, h⟩ := ok_of_bind h
        obtain ⟨path, -, h⟩ := ok_of_bind h
        cases h
        exact ⟨by simpa using hdeclared, haccessor⟩

/-- An accessor is planned for a method whose name begins with `Batch`, if no method has the name
that begins with `Get` and goes on alike. -/
lemma batchOf?_eq_some {method : Method} {b : BatchPlan}
    (h : s.batchOf? service fullName method = .ok (some b)) :
    ∃ item, method.name = "Batch" ++ item ∧ (∀ m ∈ service.methods, m.name ≠ "Get" ++ item) ∧
      methodIdent s.options.methods ("Get" ++ item) = .ok b.accessor := by
  unfold Scope.batchOf? at h
  split at h
  · cases h
  · rename_i item hitem
    dsimp only at h
    split_ifs at h
    · cases h
    · obtain ⟨input?, -, h⟩ := ok_of_bind h
      cases input? with
      | none => cases h
      | some input =>
        obtain ⟨output?, -, h⟩ := ok_of_bind h
        cases output? with
        | none => cases h
        | some output =>
          obtain ⟨hfree, haccessor⟩ := accessorOf?_eq_some h
          exact ⟨item, afterStart?_eq_some hitem, hfree, haccessor⟩

/-- What is planned for a method of a service. -/
structure Planned (s : Scope) (service : Service) (m : Method) (p : MethodPlan × Option BatchPlan) :
    Prop where
  ident : methodIdent s.options.methods m.name = .ok p.1.ident
  accessor : ∀ b ∈ p.2, ∃ item, m.name = "Batch" ++ item ∧
    (∀ m ∈ service.methods, m.name ≠ "Get" ++ item) ∧
    methodIdent s.options.methods ("Get" ++ item) = .ok b.accessor

lemma planMethods_eq_ok {methods : List Method} {plans : List (MethodPlan × Option BatchPlan)}
    (h : s.planMethods service fullName methods = .ok plans) :
    List.Forall₂ (Planned s service) methods plans := by
  induction methods generalizing plans with
  | nil =>
    cases h
    exact .nil
  | cons m methods ih =>
    obtain ⟨plan, hplan, h⟩ := ok_of_bind h
    obtain ⟨input, -, hplan⟩ := ok_of_bind hplan
    obtain ⟨output, -, hplan⟩ := ok_of_bind hplan
    obtain ⟨i, hi, hplan⟩ := ok_of_bind hplan
    obtain ⟨inputPath, -, hplan⟩ := ok_of_bind hplan
    obtain ⟨outputPath, -, hplan⟩ := ok_of_bind hplan
    cases hplan
    dsimp only at h
    split at h
    · obtain ⟨batch, hbatch, h⟩ := ok_of_bind h
      obtain ⟨rest, hrest, h⟩ := ok_of_bind h
      cases h
      refine .cons ⟨hi, fun b hb => batchOf?_eq_some (hbatch.trans ?_)⟩ (ih hrest)
      exact congrArg _ hb
    · obtain ⟨batch, hnone, h⟩ := ok_of_bind h
      obtain ⟨rest, hrest, h⟩ := ok_of_bind h
      cases hnone
      cases h
      exact .cons ⟨hi, by simp⟩ (ih hrest)

variable {package : String} {plan : ServicePlan}

lemma planService_eq_ok (h : s.planService package service = .ok plan) :
    ∃ plans, List.Forall₂ (Planned s service) service.methods plans ∧
      plan.methods = plans.map Prod.fst ∧ plan.batches = plans.filterMap Prod.snd := by
  obtain ⟨plans, hplans, h⟩ := ok_of_bind h
  obtain ⟨i, -, h⟩ := ok_of_bind h
  cases h
  exact ⟨plans, planMethods_eq_ok hplans, rfl, rfl⟩

/-- Accessors with one name would be those of methods with one name. -/
lemma accessors_nodup (h : s.planService package service = .ok plan)
    (hmethods : (plan.methods.map fun m => m.ident.name).Nodup) :
    (plan.batches.map fun b => b.accessor.name).Nodup := by
  obtain ⟨plans, hplanned, hplan, hbatches⟩ := planService_eq_ok h
  rw [hplan, map_map, Nodup, pairwise_map] at hmethods
  rw [hbatches, Nodup, pairwise_map, pairwise_filterMap]
  refine hmethods.imp_of_mem fun {p q} hp hq hne b hb b' hb' hsame => hne ?_
  obtain ⟨m, -, hident, haccessor⟩ := exists_of_forall₂ hplanned hp
  obtain ⟨m', -, hident', haccessor'⟩ := exists_of_forall₂ hplanned hq
  obtain ⟨item, hname, -, hget⟩ := haccessor b hb
  obtain ⟨item', hname', -, hget'⟩ := haccessor' b' hb'
  rw [accessor_name hget, accessor_name hget'] at hsame
  change p.1.ident.name = q.1.ident.name
  rw [methodIdent_eq_ok hident, methodIdent_eq_ok hident', hname, hname',
    interfaceName_accessor hsame]

/-- Declared names that have no mark are not those of accessors. -/
lemma name_ne_accessor (hmark : '#' ∉ name.toList) (hname : name ≠ "Get" ++ item) :
    typeName name ≠ "Get" ++ item := by
  rw [typeName]
  split_ifs with hreserved
  · have hwords : ∀ word ∈ reserved, (word ++ "_").toList.head? ≠ some 'G' := by decide +kernel
    intro heq
    refine hwords name (contains_iff_mem.mp hreserved) ?_
    rw [heq, String.toList_append]
    rfl
  · rwa [unmarked_eq_self fun cs hcs => hmark (by simp [hcs])]

end

/-- The names of the functions of a service. -/
def functionNames (plan : ServicePlan) : List String :=
  (plan.methods.map fun m => m.ident.name) ++ plan.batches.map fun b => b.accessor.name

/-- In a service whose methods have different names, the accessors have different names. An
accessor is not planned where its name is declared, but a method with another name can have its
identifier: all functions have different names exactly if none has. Names that are kept as they
are declared never meet so, unless one is written with a mark. -/
theorem functionNames_nodup_iff {s : Scope} {package : String} {service : Service}
    {plan : ServicePlan} (h : s.planService package service = .ok plan)
    (hmethods : (plan.methods.map fun m => m.ident.name).Nodup) :
    (plan.batches.map fun b => b.accessor.name).Nodup ∧
    (∀ b ∈ plan.batches, ∃ item, (∃ m ∈ service.methods, m.name = "Batch" ++ item) ∧
      (∀ m ∈ service.methods, m.name ≠ "Get" ++ item) ∧
      methodIdent s.options.methods ("Get" ++ item) = .ok b.accessor) ∧
    ((functionNames plan).Nodup ↔
      ∀ m ∈ plan.methods, ∀ b ∈ plan.batches, m.ident.name ≠ b.accessor.name) ∧
    (s.options.methods = .declared → (∀ m ∈ service.methods, '#' ∉ m.name.toList) →
      (functionNames plan).Nodup) := by
  have hnodup := accessors_nodup h hmethods
  have hiff : (functionNames plan).Nodup ↔
      ∀ m ∈ plan.methods, ∀ b ∈ plan.batches, m.ident.name ≠ b.accessor.name := by
    rw [functionNames, nodup_append]
    simp only [hmethods, hnodup, true_and, forall_mem_map]
  obtain ⟨plans, hplanned, hplan, hbatches⟩ := planService_eq_ok h
  have haccessor : ∀ b ∈ plan.batches, ∃ item, (∃ m ∈ service.methods, m.name = "Batch" ++ item) ∧
      (∀ m ∈ service.methods, m.name ≠ "Get" ++ item) ∧
      methodIdent s.options.methods ("Get" ++ item) = .ok b.accessor := by
    intro b hb
    obtain ⟨p, hp, hb⟩ := mem_filterMap.mp (hbatches ▸ hb)
    obtain ⟨m, hm, -, haccessor⟩ := exists_of_forall₂ hplanned hp
    obtain ⟨item, hname, hrest⟩ := haccessor b hb
    exact ⟨item, ⟨m, hm, hname⟩, hrest⟩
  refine ⟨hnodup, haccessor, hiff, fun hstyle hmark => hiff.mpr fun m hm b hb => ?_⟩
  obtain ⟨p, hp, rfl⟩ := mem_map.mp (hplan ▸ hm)
  obtain ⟨m, hm, hident, -⟩ := exists_of_forall₂ hplanned hp
  obtain ⟨item, -, hfree, hget⟩ := haccessor b hb
  rw [methodIdent_eq_ok hident, accessor_name hget, hstyle]
  exact name_ne_accessor (hmark m hm) (hfree m hm)

/-- A list of names, which is both request and response. -/
private def shelf : Message :=
  ⟨"Shelf", [⟨"names", 1, .scalar .string, .repeated, none, none, false, []⟩], [], [], [],
    false, []⟩

private def shelfFile : File :=
  ⟨"shelf.proto", "", .proto3, [shelf], [], [], [], .empty⟩

/-- The plan of a service with methods of some names. -/
private def planShelf (names : List String) : Except CompileError ServicePlan :=
  (scopeOf (Registry.ofFiles [shelfFile]).value { context := true } shelfFile).planService ""
    ⟨"Shelves", names.map fun name => ⟨name, ".Shelf", ".Shelf", false, false, []⟩, []⟩

theorem functionNames_nodup_iff_batches : ∃ plan,
    planShelf ["BatchBook", "BatchReader"] = .ok plan ∧ plan.batches.length = 2 ∧
      (functionNames plan).Nodup := by
  obtain ⟨plan, hplan, hnames⟩ := exists_ok_of_any (x := planShelf ["BatchBook", "BatchReader"])
    (p := fun plan => plan.methods.map (fun m => m.ident.name) = ["batch_book", "batch_reader"] ∧
      plan.batches.map (fun b => b.accessor.name) = ["get_book", "get_reader"])
    (by decide +kernel)
  obtain ⟨hmethods, hbatches⟩ := of_decide_eq_true hnames
  have hlength := congrArg length hbatches
  rw [length_map] at hlength
  refine ⟨plan, hplan, hlength, ?_⟩
  refine (functionNames_nodup_iff hplan (hmethods ▸ by decide)).2.2.1.mpr fun m hm b hb => ?_
  have happart : ∀ n ∈ ["batch_book", "batch_reader"], ∀ n' ∈ ["get_book", "get_reader"],
      n ≠ n' := by decide
  exact happart _ (hmethods ▸ mem_map_of_mem hm) _ (hbatches ▸ mem_map_of_mem hb)

/-- A method and an accessor with one identifier, where the names of the methods differ. -/
theorem functionNames_twice :
    (planShelf ["getBook", "BatchBook"]).toOption.map (fun plan =>
      (plan.methods.map fun m => m.ident.name, functionNames plan)) =
        some (["get_book", "batch_book"], ["get_book", "batch_book", "get_book"]) := by
  decide +kernel

end Protobuf.Emit
