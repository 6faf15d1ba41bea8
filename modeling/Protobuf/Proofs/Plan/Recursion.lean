import Protobuf.Proofs.Plan.Places

/-!
# Messages that contain themselves

Singular message fields make a graph of the types. A field is held behind a pointer
just when it lies on a cycle of this graph, which a depth-first walk finds out. So
what is held without a pointer goes round no cycle, and every generated type has a
finite size.
-/

open List

namespace Protobuf.Schema

/-- A message among the entries has a singular field of the message type `target`. -/
def Embeds (entries : List Entry) (owner target : String) : Prop :=
  ∃ e ∈ entries, e.ref.qualifiedName = owner ∧ ∃ m, e.message? = some m ∧
    ∃ f ∈ m.fields, f.type = .message ∧ f.isRepeated = false ∧ f.typeName = some target

namespace Registry

variable {r : Registry} {owner : String}

/-! ## The walk -/

lemma mem_successors {name target : String}
    (hnames : (r.entries.map fun e => e.ref.qualifiedName).Nodup) :
    target ∈ r.successors name ↔ Embeds r.entries name target := by
  unfold successors Embeds
  constructor
  · intro htarget
    split at htarget
    · rename_i m hm
      obtain ⟨e, he, hmessage⟩ := Option.bind_eq_some_iff.mp hm
      obtain ⟨f, hf, hname⟩ := mem_filterMap.mp htarget
      simp only [mem_filter, Bool.and_eq_true, beq_iff_eq, Bool.not_eq_true'] at hf
      have hmem : e ∈ r.entries := mem_of_find?_eq_some he
      have hkey : e.ref.qualifiedName = name := beq_iff_eq.mp (find?_some he :)
      exact ⟨e, hmem, hkey, m, hmessage, f, hf.1, hf.2.1, hf.2.2, hname⟩
    · cases htarget
  · rintro ⟨e, he, rfl, m, hm, f, hf, htype, hsingle, hname⟩
    rw [find?_of_mem hnames he, Option.bind_some, hm]
    refine mem_filterMap.mpr ⟨f, mem_filter.mpr ⟨hf, ?_⟩, hname⟩
    simp [htype, hsingle]

/-- The walk from the names on the stack, with some names seen before, comes to an end, having met
`owner` or not. -/
inductive Walks (r : Registry) (owner : String) : (seen stack : List String) → Bool → Prop
  | found {seen stack : List String} : Walks r owner seen (owner :: stack) true
  | done {seen : List String} : Walks r owner seen [] false
  | skip {seen stack : List String} {name : String} {met : Bool} :
      name ≠ owner → name ∈ seen → Walks r owner seen stack met →
      Walks r owner seen (name :: stack) met
  | expand {seen stack : List String} {name : String} {met : Bool} :
      name ≠ owner → name ∉ seen → Walks r owner (name :: seen) (r.successors name ++ stack) met →
      Walks r owner seen (name :: stack) met

/-- The number of names that expanding all entries but those seen puts on the stack. -/
def unseen (r : Registry) (seen : List String) : Nat :=
  ((r.entries.filter fun e => !seen.contains e.ref.qualifiedName).map fun e =>
    (r.successors e.ref.qualifiedName).length).sum

lemma walkBound_eq : r.walkBound = 2 + r.unseen [] := by
  unfold walkBound unseen
  have hall : (r.entries.filter fun e => !([] : List String).contains e.ref.qualifiedName) =
      r.entries := filter_eq_self.mpr fun _ _ => rfl
  rw [hall]
  exact foldl_eq_apply_foldr

lemma unseen_cons {seen : List String} {name : String} (hname : name ∉ seen) :
    (r.successors name).length + r.unseen (name :: seen) ≤ r.unseen seen := by
  have hle (es : List Entry) :
      ((es.filter fun e => e.ref.qualifiedName != name).map fun e =>
        (r.successors e.ref.qualifiedName).length).sum ≤
      (es.map fun e => (r.successors e.ref.qualifiedName).length).sum :=
    (filter_sublist.map _).sum_le_sum fun _ _ => Nat.zero_le _
  have hfilter : (r.entries.filter fun e => !(name :: seen).contains e.ref.qualifiedName) =
      (r.entries.filter fun e => !seen.contains e.ref.qualifiedName).filter
        fun e => e.ref.qualifiedName != name := by
    rw [filter_filter]
    exact filter_congr fun e _ => by simp [bne, Bool.beq_eq_decide_eq]
  unfold unseen
  rw [hfilter]
  cases hfind : r.find? name with
  | none =>
    have hnil : r.successors name = [] := by simp [successors, hfind]
    rw [hnil, length_nil, Nat.zero_add]
    exact hle _
  | some e =>
    have hkey : e.ref.qualifiedName = name := beq_iff_eq.mp (find?_some hfind :)
    have hmem : e ∈ r.entries.filter fun e => !seen.contains e.ref.qualifiedName := by
      refine mem_filter.mpr ⟨mem_of_find?_eq_some hfind, ?_⟩
      simpa [hkey] using hname
    obtain ⟨before, after, hsplit⟩ := append_of_mem hmem
    have hbefore := hle before
    have hafter := hle after
    rw [hsplit, filter_append, filter_cons_of_neg (by simp [hkey])]
    simp only [map_append, map_cons, sum_append, sum_cons, hkey]
    omega

lemma walks_reaches {fuel : Nat} {seen stack : List String}
    (hfuel : stack.length + r.unseen seen < fuel) :
    r.Walks owner seen stack (r.reaches owner fuel seen stack) := by
  induction fuel generalizing seen stack with
  | zero => omega
  | succ fuel ih =>
    cases stack with
    | nil => exact .done
    | cons name stack =>
      rw [reaches]
      split_ifs with howner hseen
      · rw [howner]
        exact .found
      · have hmem : name ∈ seen := by simpa using hseen
        refine .skip howner hmem (ih ?_)
        simp only [length_cons] at hfuel
        omega
      · have hfresh : name ∉ seen := by simpa using hseen
        have hused := unseen_cons (r := r) hfresh
        refine .expand howner hfresh (ih ?_)
        simp only [length_cons, length_append] at hfuel ⊢
        omega

lemma walks_isRecursive (target : String) :
    r.Walks owner [] [target] (r.isRecursive owner target) := by
  apply walks_reaches
  rw [walkBound_eq, length_singleton]
  omega

/-! ## What the walk finds -/

section

variable {graph : String → String → Prop}
  (hgraph : ∀ name target, target ∈ r.successors name ↔ graph name target)

include hgraph

lemma Walks.reachable {seen stack : List String} (h : r.Walks owner seen stack true) :
    ∃ name ∈ stack, Relation.ReflTransGen graph name owner := by
  generalize hmet : true = met at h
  induction h with
  | found => exact ⟨owner, by simp, .refl⟩
  | done => cases hmet
  | skip _ _ _ ih =>
    obtain ⟨name, hname, hreach⟩ := ih hmet
    exact ⟨name, by simp [hname], hreach⟩
  | @expand seen stack first met _ _ _ ih =>
    obtain ⟨name, hname, hreach⟩ := ih hmet
    rcases mem_append.mp hname with hnext | hrest
    · exact ⟨first, by simp, hreach.head ((hgraph first name).mp hnext)⟩
    · exact ⟨name, by simp [hrest], hreach⟩

/-- A walk that does not meet `owner` leaves a set of names behind that no field leads out of. -/
lemma Walks.exists_closed {seen stack : List String} (h : r.Walks owner seen stack false)
    (howner : owner ∉ seen)
    (hclosed : ∀ name ∈ seen, ∀ target, graph name target → target ∈ seen ++ stack) :
    ∃ names : List String, owner ∉ names ∧ seen ++ stack ⊆ names ∧
      ∀ name ∈ names, ∀ target, graph name target → target ∈ names := by
  generalize hmet : false = met at h
  induction h with
  | found => cases hmet
  | done =>
    refine ⟨_, howner, ?_, ?_⟩
    · simp
    · simpa using hclosed
  | @skip seen stack name met _ hseen _ ih =>
    have hstack : seen ++ name :: stack ⊆ seen ++ stack := by
      intro x hx
      rcases mem_append.mp hx with hx | hx
      · simp [hx]
      · rcases mem_cons.mp hx with rfl | hx
        · simp [hseen]
        · simp [hx]
    obtain ⟨names, hnot, hsub, hout⟩ :=
      ih howner (fun x hx target hedge => hstack (hclosed x hx target hedge)) hmet
    exact ⟨names, hnot, List.Subset.trans hstack hsub, hout⟩
  | @expand seen stack name met hne _ _ ih =>
    have hclosed' : ∀ x ∈ name :: seen, ∀ target, graph x target →
        target ∈ (name :: seen) ++ (r.successors name ++ stack) := by
      intro x hx target hedge
      rcases mem_cons.mp hx with rfl | hx
      · have hnext := (hgraph x target).mpr hedge
        simp [hnext]
      · have hold := hclosed x hx target hedge
        simp only [mem_append, mem_cons] at hold ⊢
        tauto
    obtain ⟨names, hnot, hsub, hout⟩ := ih (by simp [hne.symm, howner]) hclosed' hmet
    refine ⟨names, hnot, fun x hx => hsub ?_, hout⟩
    simp only [mem_append, mem_cons] at hx ⊢
    tauto

lemma isRecursive_eq_true_iff (target : String) :
    r.isRecursive owner target ↔ Relation.ReflTransGen graph target owner := by
  have hwalk : r.Walks owner [] [target] (r.isRecursive owner target) := walks_isRecursive target
  constructor
  · intro hmet
    rw [hmet] at hwalk
    obtain ⟨name, hname, hreach⟩ := hwalk.reachable hgraph
    rwa [mem_singleton.mp hname] at hreach
  · intro hreach
    by_contra hmet
    rw [Bool.not_eq_true] at hmet
    rw [hmet] at hwalk
    obtain ⟨names, howner, hstart, hclosed⟩ := hwalk.exists_closed hgraph (by simp) (by simp)
    have hmem : ∀ name, Relation.ReflTransGen graph target name → name ∈ names := by
      intro name hname
      induction hname with
      | refl => exact hstart (by simp)
      | tail _ hedge ih => exact hclosed _ ih _ hedge
    exact howner (hmem owner hreach)

end

lemma ofFiles_entries {files : List File}
    (h : ((files.flatMap File.entries).map fun e => e.ref.qualifiedName).Nodup) :
    (ofFiles files).value.entries = files.flatMap File.entries := by
  have hput (e : Entry) (es : List Entry)
      (he : e.ref.qualifiedName ∉ es.map fun e => e.ref.qualifiedName) :
      put e es = es ++ [e] := by
    induction es with
    | nil => rfl
    | cons d es ih =>
      rw [map_cons, mem_cons, not_or] at he
      rw [put, if_neg (Ne.symm he.1), ih he.2, cons_append]
  have hfold (es : List Entry) (r : Registry)
      (hnames : ((r.entries ++ es).map fun e => e.ref.qualifiedName).Nodup) :
      (es.foldlM insert r).value.entries = r.entries ++ es := by
    induction es generalizing r with
    | nil => exact (append_nil _).symm
    | cons e es ih =>
      have hnew : e.ref.qualifiedName ∉ r.entries.map fun e => e.ref.qualifiedName := by
        rw [map_append, map_cons, nodup_append] at hnames
        intro hmem
        exact hnames.2.2 _ hmem _ (by simp) rfl
      have hvalue : (insert r e).value.entries = r.entries ++ [e] := by
        rw [insert_entries, hput e _ hnew]
      refine (ih (insert r e).value ?_).trans ?_
      · rwa [hvalue, append_assoc]
      · rw [hvalue, append_assoc, singleton_append]
  exact hfold _ empty h

end Registry

end Protobuf.Schema

namespace Protobuf.Plan

open Protobuf.Schema

/-- The types of the single messages that a member holds, each with whether it is held behind a
pointer. -/
def Member.messages : Member → List (String × Bool)
  | .field p =>
    match p.layout, p.kind with
    | .plain, .message ref | .optional, .message ref => [(ref.qualifiedName, p.boxed)]
    | _, _ => []
  | .union u => u.variants.filterMap fun v =>
    match v.kind with
    | .message ref => some (ref.qualifiedName, v.boxed)
    | _ => none

namespace Scope

variable {s : Scope} {owner : String} {f : Field} {p : FieldPlan}

lemma planField_boxed (h : s.planField owner f = .ok p) :
    p.boxed = s.needsBox owner p.kind p.layout := by
  obtain ⟨kind, -, h⟩ := ok_of_bind h
  obtain ⟨layout, -, h⟩ := ok_of_bind h
  obtain ⟨i, -, h⟩ := ok_of_bind h
  cases h
  rfl

/-- A value is a message only if the field says so, and the message is what the field names. -/
lemma valueKind_eq_message {referencedBy : String} {ref : TypeRef}
    (h : s.valueKind f referencedBy = .ok (.message ref)) :
    f.type = .message ∧ f.typeName = some ref.qualifiedName := by
  cases htype : f.type <;> cases hname : f.typeName <;>
    simp only [valueKind, htype, hname, Except.ok.injEq, reduceCtorEq] at h
  case enum.some name =>
    obtain ⟨entry, -, h⟩ := ok_of_bind h
    cases hdescriptor : entry.descriptor <;> simp only [hdescriptor] at h <;> cases h
  case message.some name =>
    obtain ⟨entry, hentry, h⟩ := ok_of_bind h
    have hkey : entry.ref.qualifiedName = name :=
      beq_iff_eq.mp (find?_some (Registry.resolve_eq_ok hentry) :)
    cases hdescriptor : entry.descriptor <;> simp only [hdescriptor] at h
    case enum => cases h
    case message =>
      split at h
      · cases h
      · split_ifs at h <;> cases h
        exact ⟨rfl, by rw [hkey]⟩

lemma layout_of_single (h : s.planField owner f = .ok p) :
    f.isRepeated = false ↔ p.layout = .plain ∨ p.layout = .optional := by
  have hlayout := (planFieldWith_eq_ok h).2
  rw [fieldLayout_eq_ok] at hlayout
  rcases hlayout with ⟨hsingle, heq⟩ | ⟨hmany, -, heq⟩ | ⟨_, _, _, _, _, hmany, -, -, -, -, heq⟩
  · refine ⟨fun _ => ?_, fun _ => hsingle⟩
    rw [← heq]
    unfold singleLayout
    split_ifs
    · exact .inr rfl
    · split <;> simp
  · simp [hmany, ← heq]
  · simp [hmany, ← heq]

/-- A singular message field is an edge of the graph of types. It needs a pointer just when the
walk from its type meets its owner. -/
lemma planField_message {ref : TypeRef} (h : s.planField owner f = .ok p)
    (hsingle : f.isRepeated = false) (hkind : p.kind = .message ref) :
    f.type = .message ∧ f.typeName = some ref.qualifiedName ∧
      p.boxed = s.registry.isRecursive owner ref.qualifiedName := by
  have hvalue := planFieldWith_kind h
  rw [hkind] at hvalue
  obtain ⟨htype, hname⟩ := valueKind_eq_message hvalue
  refine ⟨htype, hname, ?_⟩
  rw [planField_boxed h, hkind]
  rcases (layout_of_single h).mp hsingle with hlayout | hlayout
  · rw [hlayout]
    rfl
  · rw [hlayout]
    rfl

/-- A single message that a member holds comes from a singular field of the message, whose plan
says whether there is a pointer. -/
lemma members_messages {m : Message} {ms : List Member} (h : s.members m owner = .ok ms)
    {member : Member} (hmember : member ∈ ms) {target : String} {boxed : Bool}
    (hmessage : (target, boxed) ∈ member.messages) :
    ∃ f ∈ m.fields, f.isRepeated = false ∧ ∃ p, s.planField owner f = .ok p ∧
      p.boxed = boxed ∧ ∃ ref, p.kind = .message ref ∧ ref.qualifiedName = target := by
  obtain ⟨e, he, h⟩ := ok_of_bind h
  have hkey : e.ref.qualifiedName = owner :=
    beq_iff_eq.mp (find?_some (Registry.resolve_eq_ok he) :)
  rcases planMembers_mem (fun _ hf => hf) h member hmember with
    ⟨p, f, hf, rfl, hp, -⟩ | ⟨u, group, oneof, rfl, hu, -⟩
  · have hplan : s.planField owner f = .ok p := by rwa [hkey] at hp
    refine ⟨f, hf, ?_⟩
    cases hlayout : p.layout <;> cases hkind : p.kind <;>
      simp only [Member.messages, hlayout, hkind, mem_singleton, not_mem_nil,
        Prod.mk.injEq] at hmessage
    case plain.message ref => 
      exact ⟨(layout_of_single hplan).mpr (.inl hlayout), p, hplan, hmessage.2.symm, ref, hkind,
        hmessage.1.symm⟩
    case optional.message ref => 
      exact ⟨(layout_of_single hplan).mpr (.inr hlayout), p, hplan, hmessage.2.symm, ref, hkind,
        hmessage.1.symm⟩
  · obtain ⟨v, hv, hsome⟩ := mem_filterMap.mp hmessage
    obtain ⟨f, hf, hvariant⟩ := planUnion_variants hu v hv
    obtain ⟨p, hp, hlayout, -, hkind, hboxed, -⟩ := planVariant_eq_ok hvariant
    rw [hkey] at hp
    refine ⟨f, hf, (layout_of_single hp).mpr (.inr hlayout), p, hp, ?_⟩
    rw [← hboxed, ← hkind]
    split at hsome
    · rename_i ref href
      cases hsome
      exact ⟨rfl, ref, href, rfl⟩
    · cases hsome

end Scope

/-- Under the options, the generated type of a message of the files holds one message of the type
`target` behind no pointer. -/
def Inlines (files : List File) (options : Options) (owner target : String) : Prop :=
  ∃ e ∈ files.flatMap File.entries, e.ref.qualifiedName = owner ∧ ∃ m, e.message? = some m ∧
    ∃ s : Scope, s.registry = (Registry.ofFiles files).value ∧ s.options = options ∧
      ∃ ms, s.members m owner = .ok ms ∧ ∃ member ∈ ms, (target, false) ∈ member.messages

section

variable {files : List File}
  (hnames : ((files.flatMap File.entries).map fun e => e.ref.qualifiedName).Nodup)

include hnames

lemma isRecursive_iff_embeds (owner target : String) :
    (Registry.ofFiles files).value.isRecursive owner target ↔
      Relation.ReflTransGen (Embeds (files.flatMap File.entries)) target owner := by
  have hentries := Registry.ofFiles_entries hnames
  apply Registry.isRecursive_eq_true_iff
  intro name target
  rw [Registry.mem_successors (Registry.ofFiles_nodup files), hentries]

/-- A singular message field lies on a cycle of the types just when it is held behind a pointer. -/
lemma boxed_iff_embeds {s : Scope} (hregistry : s.registry = (Registry.ofFiles files).value)
    {e : Entry} (he : e ∈ files.flatMap File.entries) {m : Message} (hm : e.message? = some m)
    {f : Field} (hf : f ∈ m.fields) (hsingle : f.isRepeated = false) {p : FieldPlan}
    (hp : s.planField e.ref.qualifiedName f = .ok p) {ref : TypeRef}
    (hkind : p.kind = .message ref) :
    Embeds (files.flatMap File.entries) e.ref.qualifiedName ref.qualifiedName ∧
      (p.boxed ↔ Relation.ReflTransGen (Embeds (files.flatMap File.entries))
        ref.qualifiedName e.ref.qualifiedName) := by
  obtain ⟨htype, hname, hboxed⟩ := Scope.planField_message hp hsingle hkind
  constructor
  · exact ⟨e, he, rfl, m, hm, f, hf, htype, hsingle, hname⟩
  · rw [hboxed, hregistry]
    exact isRecursive_iff_embeds hnames _ _

/-- What a generated type holds without a pointer does not lead back to it. -/
lemma not_reachable_of_inlines {options : Options} {owner target : String}
    (h : Inlines files options owner target) :
    Embeds (files.flatMap File.entries) owner target ∧
      ¬ Relation.ReflTransGen (Embeds (files.flatMap File.entries)) target owner := by
  obtain ⟨e, he, rfl, m, hm, s, hregistry, -, ms, hms, member, hmember, hmessage⟩ := h
  obtain ⟨f, hf, hsingle, p, hp, hboxed, ref, hkind, rfl⟩ :=
    Scope.members_messages hms hmember hmessage
  obtain ⟨hedge, hiff⟩ := boxed_iff_embeds hnames hregistry he hm hf hsingle hp hkind
  refine ⟨hedge, ?_⟩
  rw [← hiff, hboxed]
  exact Bool.false_ne_true

end

/-- The walk from the type of a singular message field comes to an end, and meets the owner of the
field just when the field lies on a cycle of the types; then, and only then, the field is held
behind a pointer, be it on its own or in a union. What is left without pointers has no cycle. -/
theorem boxed_iff_on_cycle {files : List File}
    (hnames : ((files.flatMap File.entries).map fun e => e.ref.qualifiedName).Nodup) :
    let r := (Registry.ofFiles files).value
    let embeds := Embeds (files.flatMap File.entries)
    (∀ owner target, r.Walks owner [] [target] (r.isRecursive owner target) ∧
      (r.isRecursive owner target = true ↔ Relation.ReflTransGen embeds target owner)) ∧
    (∀ s : Scope, s.registry = r → ∀ e ∈ files.flatMap File.entries, ∀ m, e.message? = some m →
      (∀ f ∈ m.fields, f.isRepeated = false → ∀ p, s.planField e.ref.qualifiedName f = .ok p →
        ∀ ref, p.kind = .message ref → embeds e.ref.qualifiedName ref.qualifiedName ∧
          (p.boxed = true ↔
            Relation.ReflTransGen embeds ref.qualifiedName e.ref.qualifiedName)) ∧
      ∀ ms, s.members m e.ref.qualifiedName = .ok ms → ∀ member ∈ ms,
        ∀ target boxed, (target, boxed) ∈ member.messages →
          embeds e.ref.qualifiedName target ∧
            (boxed = true ↔ Relation.ReflTransGen embeds target e.ref.qualifiedName)) ∧
    ∀ options name, ¬ Relation.TransGen (Inlines files options) name name := by
  intro r embeds
  refine ⟨fun owner target => ⟨?_, ?_⟩, fun s hregistry e he m hm => ⟨?_, ?_⟩, ?_⟩
  · exact Registry.walks_isRecursive target
  · exact isRecursive_iff_embeds hnames owner target
  · intro f hf hsingle p hp ref hkind
    exact boxed_iff_embeds hnames hregistry he hm hf hsingle hp hkind
  · intro ms hms member hmember target boxed hmessage
    obtain ⟨f, hf, hsingle, p, hp, rfl, ref, hkind, rfl⟩ :=
      Scope.members_messages hms hmember hmessage
    exact boxed_iff_embeds hnames hregistry he hm hf hsingle hp hkind
  · intro options name hcycle
    -- The first edge of the cycle leads back to its start through edges of the larger graph.
    obtain ⟨next, hedge, hback⟩ := Relation.TransGen.head'_iff.mp hcycle
    refine (not_reachable_of_inlines hnames hedge).2 ?_
    exact Relation.ReflTransGen.mono (fun _ _ h => (not_reachable_of_inlines hnames h).1) _ _ hback

/-- A tree is a leaf or a branch, and a branch holds trees. -/
private def treeFile : File :=
  { path := "tree.proto"
    package := "tree"
    dialect := .proto3
    messages := [
      ⟨"Tree", [⟨"leaf", 1, .message, .optional, some ".tree.Leaf", some 0, false, []⟩,
          ⟨"branch", 2, .message, .optional, some ".tree.Branch", some 0, false, []⟩],
        [], [], [⟨"shape", []⟩], false, []⟩,
      ⟨"Branch", [⟨"left", 1, .message, .optional, some ".tree.Tree", none, false, []⟩],
        [], [], [], false, []⟩,
      ⟨"Leaf", [], [], [], [], false, []⟩]
    enums := []
    services := []
    dependencies := []
    comments := .empty }

/-- A branch leads back to the tree that holds it, and a leaf does not. -/
theorem boxed_iff_on_cycle_tree :
    (([treeFile].flatMap File.entries).map fun e => e.ref.qualifiedName).Nodup ∧
      Relation.ReflTransGen (Embeds ([treeFile].flatMap File.entries)) ".tree.Branch"
        ".tree.Tree" ∧
      ¬ Relation.ReflTransGen (Embeds ([treeFile].flatMap File.entries)) ".tree.Leaf"
        ".tree.Tree" ∧
      ∀ options name, ¬ Relation.TransGen (Inlines [treeFile] options) name name := by
  have hnames : (([treeFile].flatMap File.entries).map fun e => e.ref.qualifiedName).Nodup := by
    decide +kernel
  obtain ⟨hwalk, -, hacyclic⟩ := boxed_iff_on_cycle hnames
  refine ⟨hnames, ?_, ?_, hacyclic⟩
  · rw [← (hwalk ".tree.Tree" ".tree.Branch").2]
    decide +kernel
  · rw [← (hwalk ".tree.Tree" ".tree.Leaf").2]
    decide +kernel

end Protobuf.Plan
