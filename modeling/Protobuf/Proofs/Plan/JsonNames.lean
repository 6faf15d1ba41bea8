import Protobuf.Proofs.Plan.Members

/-!
# JSON names

A field can be given in JSON under its JSON name or under the name that the schema
gives it. The second one never stands for another field: making a JSON name of a
JSON name changes nothing, so a name that is the JSON name of some field is also
its own.
-/

namespace Protobuf.Text

lemma ofNat_ne_underscore {n : Nat} (hn : n ≠ 95) : Char.ofNat n ≠ '_' := by
  intro h
  have hnat : (Char.ofNat n).toNat = 95 := by rw [h]; rfl
  by_cases hvalid : n.isValidChar
  · rw [Char.toNat_ofNat, if_pos hvalid] at hnat
    exact hn hnat
  · rw [Char.toNat_ofNat, if_neg hvalid] at hnat
    cases hnat

lemma inSpans_ne {spans : List (Nat × Nat × Nat × Nat)} {n m k : Nat}
    (hspans : ∀ span ∈ spans, k < span.2.2.2 ∨ span.2.2.2 + (span.2.1 - span.1) < k)
    (h : inSpans spans n = some m) : m ≠ k := by
  induction spans with
  | nil => cases h
  | cons span spans ih =>
    obtain ⟨first, last, step, image⟩ := span
    rw [inSpans] at h
    split_ifs at h with hin
    · have hspan := hspans _ (List.mem_cons_self ..)
      cases h
      dsimp only at hspan
      omega
    · exact ih (fun span hspan => hspans span (List.mem_cons_of_mem _ hspan)) h

lemma underscore_not_mem_upperChar {c : Char} (hc : c ≠ '_') : '_' ∉ upperChar c := by
  have hsequences : ∀ entry ∈ upperSequences, ∀ n ∈ entry.2, n ≠ 95 := by decide +kernel
  have hspans : ∀ span ∈ upperSpans, 95 < span.2.2.2 ∨ span.2.2.2 + (span.2.1 - span.1) < 95 := by
    decide +kernel
  have hnat : c.toNat ≠ 95 := fun h => hc (Char.toNat_inj.mp h)
  unfold upperChar
  split_ifs with hsmall hascii
  · have hrange : c.toNat ≤ 122 := hsmall.2
    simpa using (ofNat_ne_underscore (n := c.toNat - 32) (by omega)).symm
  · simpa using hc.symm
  · split
    · rename_i ns hlookup
      obtain ⟨before, after, htable, -⟩ := List.lookup_eq_some_iff.mp hlookup
      intro hmem
      obtain ⟨n, hn, heq⟩ := List.mem_map.mp hmem
      exact ofNat_ne_underscore (hsequences (c.toNat, ns) (by simp [htable]) n hn) heq
    · cases himage : inSpans upperSpans c.toNat with
      | none => simpa using (ofNat_ne_underscore hnat).symm
      | some image => simpa using (ofNat_ne_underscore (inSpans_ne hspans himage)).symm

end Protobuf.Text

namespace Protobuf.Naming

lemma underscore_not_mem_camelChars (raise : Bool) (cs : List Char) :
    '_' ∉ camelChars raise cs := by
  induction cs generalizing raise with
  | nil => simp [camelChars]
  | cons c cs ih =>
    unfold camelChars
    split_ifs with hc hraise
    · exact ih true
    · simp [Text.underscore_not_mem_upperChar hc, ih false]
    · simp [Ne.symm hc, ih false]

lemma camelChars_eq_self {cs : List Char} (hcs : '_' ∉ cs) : camelChars false cs = cs := by
  induction cs with
  | nil => rfl
  | cons c cs ih =>
    rw [List.mem_cons, not_or] at hcs
    simp [camelChars, Ne.symm hcs.1, ih hcs.2]

lemma jsonName_jsonName (style : NameStyle) (field : String) :
    jsonName style (jsonName style field) = jsonName style field := by
  cases style with
  | verbatim => rfl
  | camel =>
    simp only [jsonName, String.toList_ofList]
    rw [camelChars_eq_self (underscore_not_mem_camelChars false _)]

end Protobuf.Naming

namespace Protobuf.Plan

open Protobuf.Schema

/-- The names of the fields of a member: the JSON name and the one that the schema gives. -/
def Member.names : Member → List (String × String)
  | .field p => [(p.jsonName, p.field.name)]
  | .union u => u.variants.map fun v => (v.jsonName, v.field.name)

def Member.jsonNames (m : Member) : List String :=
  m.names.map Prod.fst

namespace Scope

variable {s : Scope} {owner : String} {f : Field} {p : FieldPlan}

lemma planField_jsonName (h : s.planField owner f = .ok p) :
    p.jsonName = Naming.jsonName s.options.names p.field.name := by
  obtain ⟨kind, -, h⟩ := ok_of_bind h
  obtain ⟨layout, -, h⟩ := ok_of_bind h
  obtain ⟨i, -, h⟩ := ok_of_bind h
  cases h
  rfl

lemma planUnion_jsonName {ref : TypeRef} {message : Message} {group : Nat} {oneof : Oneof}
    {u : UnionPlan} (h : s.planUnion ref message group oneof = .ok u) :
    ∀ v ∈ u.variants, v.jsonName = Naming.jsonName s.options.names v.field.name := by
  intro v hv
  obtain ⟨f, -, hvariant⟩ := planUnion_variants h v hv
  obtain ⟨p, hp, -, hfield, -, -, hname⟩ := planVariant_eq_ok hvariant
  rw [hname, hfield, planField_jsonName hp, planField_field hp]

end Scope

end Protobuf.Plan

namespace Protobuf.Codec.Schema

open Plan Protobuf.Schema

variable {files : List Descriptor.File} {options : Options} {s : Schema}

lemma ofFiles_jsonName_eq (h : ofFiles files options = .ok s) {name : String} {m : Member}
    (hm : m ∈ s.members name) :
    ∀ pair ∈ m.names, pair.1 = Naming.jsonName options.names pair.2 := by
  obtain ⟨-, checked, -, hmembers⟩ := ofFiles_eq_ok h
  rcases hmembers name with ⟨-, hnil⟩ | ⟨e, message, -, -, hplanned⟩
  · rw [hnil] at hm
    cases hm
  intro pair hpair
  rcases Scope.planMembers_mem (fun _ hf => hf) hplanned m hm with
    ⟨p, f, -, rfl, hp, -⟩ | ⟨u, group, oneof, rfl, hu, -⟩
  · obtain rfl := List.mem_singleton.mp hpair
    exact Scope.planField_jsonName hp
  · obtain ⟨v, hv, rfl⟩ := List.mem_map.mp hpair
    exact Scope.planUnion_jsonName hu v hv

lemma ofFiles_jsonName (h : ofFiles files options = .ok s) :
    ∃ style, ∀ name, ∀ m ∈ s.members name, ∀ pair ∈ m.names,
      pair.1 = Naming.jsonName style pair.2 :=
  ⟨options.names, fun _ _ hm => ofFiles_jsonName_eq h hm⟩

end Protobuf.Codec.Schema
