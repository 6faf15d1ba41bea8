import Protobuf.Proofs.Json.Values

/-!
# Members that are null

`withoutNulls` takes the null members out of every object in a value. The fields of
an object are found in it as before, and every coercion reads it as before, except
that a timestamp refuses a part that is null and takes one that is absent as zero.
-/

open Option

namespace Protobuf.Json

open List

mutual

/-- The value without the null members of all objects in it. Items of arrays stay. -/
def withoutNulls : Json → Json
  | .array items => .array (itemsWithoutNulls items)
  | .object members => .object (membersWithoutNulls members)
  | other => other

def itemsWithoutNulls : List Json → List Json
  | [] => []
  | item :: items => item.withoutNulls :: itemsWithoutNulls items

/-- The members that are not null, without the null members of the objects in them. -/
def membersWithoutNulls : List (String × Json) → List (String × Json)
  | [] => []
  | (key, value) :: members =>
    if value.isNull then membersWithoutNulls members
    else (key, value.withoutNulls) :: membersWithoutNulls members

end

mutual

/-- Whether every object in the value has each of its keys once. -/
def hasDistinctKeys : Json → Bool
  | .array items => itemsHaveDistinctKeys items
  | .object members => decide (members.map Prod.fst).Nodup && membersHaveDistinctKeys members
  | _ => true

def itemsHaveDistinctKeys : List Json → Bool
  | [] => true
  | item :: items => item.hasDistinctKeys && itemsHaveDistinctKeys items

/-- Whether every object in the values of the members has each of its keys once. -/
def membersHaveDistinctKeys : List (String × Json) → Bool
  | [] => true
  | (_, value) :: members => value.hasDistinctKeys && membersHaveDistinctKeys members

end

lemma hasDistinctKeys_array {items : List Json} :
    (Json.array items).hasDistinctKeys ↔ ∀ item ∈ items, item.hasDistinctKeys := by
  rw [hasDistinctKeys]
  induction items with
  | nil => simp [itemsHaveDistinctKeys]
  | cons item items ih => simp [itemsHaveDistinctKeys, ih]

variable {members : List (String × Json)} {key : String}

lemma hasDistinctKeys_object :
    (Json.object members).hasDistinctKeys ↔
      (members.map Prod.fst).Nodup ∧ ∀ e ∈ members, e.2.hasDistinctKeys := by
  have hvalues : membersHaveDistinctKeys members ↔
      ∀ e ∈ members, e.2.hasDistinctKeys = true := by
    induction members with
    | nil => simp [membersHaveDistinctKeys]
    | cons e members ih =>
      obtain ⟨key, value⟩ := e
      simp [membersHaveDistinctKeys, ih]
  rw [hasDistinctKeys, Bool.and_eq_true, decide_eq_true_eq, hvalues]

/-! ## Members and fields -/

@[simp]
lemma isNull_withoutNulls (value : Json) : value.withoutNulls.isNull = value.isNull := by
  cases value <;> simp [withoutNulls, isNull]

lemma fst_mem_of_mem_membersWithoutNulls (h : key ∈ (membersWithoutNulls members).map Prod.fst) :
    key ∈ members.map Prod.fst := by
  induction members with
  | nil => simp [membersWithoutNulls] at h
  | cons e members ih =>
    obtain ⟨k, value⟩ := e
    rw [membersWithoutNulls] at h
    split_ifs at h with hnull
    · exact mem_cons_of_mem _ (ih h)
    · rcases mem_cons.mp h with rfl | h
      · exact mem_cons_self ..
      · exact mem_cons_of_mem _ (ih h)

lemma member?_membersWithoutNulls (h : (members.map Prod.fst).Nodup) (key : String) :
    member? key (membersWithoutNulls members) =
      ((member? key members).filter fun value => !value.isNull).map withoutNulls := by
  unfold member?
  induction members with
  | nil => rfl
  | cons e members ih =>
    obtain ⟨k, value⟩ := e
    rw [map_cons, nodup_cons] at h
    rw [membersWithoutNulls, lookup_cons]
    by_cases hkey : key = k
    · -- The key stands nowhere else, so without its member it is not found at all.
      have hrest : (membersWithoutNulls members).lookup k = none := by
        refine lookup_eq_none_iff.mpr fun e he => ?_
        rw [bne_iff_ne]
        intro heq
        have hmem : k ∈ (membersWithoutNulls members).map Prod.fst :=
          mem_map.mpr ⟨e, he, heq.symm⟩
        exact h.1 (fst_mem_of_mem_membersWithoutNulls hmem)
      cases hnull : value.isNull <;> simp [hkey, hnull, hrest]
    · have hother : (key == k) = false := beq_eq_false_iff_ne.mpr hkey
      cases hnull : value.isNull <;> simp [hother, lookup_cons, ih h.2]

lemma field?_membersWithoutNulls (h : (members.map Prod.fst).Nodup) (names : List String) :
    field? (membersWithoutNulls members) names = (field? members names).map withoutNulls := by
  induction names with
  | nil => rfl
  | cons name names ih =>
    rw [field?_cons, field?_cons, member?_membersWithoutNulls h, ih]
    cases hmember : (member? name members).filter fun value => !value.isNull with
    | none => simp
    | some value =>
      have hnull := (filter_eq_some_iff.mp hmember).2
      simp only [Bool.not_eq_true'] at hnull
      simp [hnull]

variable {value : Json} {width : Numeric.Width}

lemma exists_mem_of_field? {names : List String} (h : field? members names = some value) :
    ∃ key, (key, value) ∈ members := by
  induction names with
  | nil => cases h
  | cons name names ih =>
    rw [field?_cons, or_eq_some_iff] at h
    rcases h with h | ⟨-, h⟩
    · obtain ⟨before, after, heq, -⟩ :=
        lookup_eq_some_iff.mp (filter_eq_some_iff.mp h).1
      exact ⟨name, by simp [heq]⟩
    · exact ih h

/-! ## Coercions -/

section

variable (value : Json)

@[simp]
lemma toText_withoutNulls : toText value.withoutNulls = toText value := by
  cases value <;> rfl

@[simp]
lemma toBool_withoutNulls : toBool value.withoutNulls = toBool value := by
  cases value <;> rfl

variable (width : Numeric.Width)

@[simp]
lemma toInteger_withoutNulls : toInteger width value.withoutNulls = toInteger width value := by
  cases value <;> rfl

@[simp]
lemma toIntegerText_withoutNulls :
    toIntegerText width value.withoutNulls = toIntegerText width value := by
  rw [toIntegerText, toInteger_withoutNulls, toIntegerText]

@[simp]
lemma toDouble_withoutNulls : toDouble value.withoutNulls = toDouble value := by
  cases value <;> rfl

@[simp]
lemma toSingle_withoutNulls : toSingle value.withoutNulls = toSingle value := by
  rw [toSingle, toDouble_withoutNulls, toSingle]

end

def HasNullPart (members : List (String × Json)) : Prop :=
  member? "seconds" members = some .null ∨ member? "nanos" members = some .null

lemma timestampPart_of_null (h : member? key members = some .null) :
    timestampPart width key members = .error (.unexpected .integer .null) := by
  rw [timestampPart, h]
  rfl

lemma timestampPart_membersWithoutNulls (h : (members.map Prod.fst).Nodup)
    (hpart : member? key members ≠ some .null) :
    timestampPart width key (membersWithoutNulls members) = timestampPart width key members := by
  unfold timestampPart
  rw [member?_membersWithoutNulls h]
  cases hmember : member? key members with
  | none => rfl
  | some value =>
    have hnull : value.isNull = false := by
      cases value with
      | null => exact absurd hmember hpart
      | _ => rfl
    simp [Option.filter, hnull]

lemma toInstant_of_hasNullPart (h : HasNullPart members) :
    ∃ e, toInstant (.object members) = .error e := by
  rw [toInstant]
  rcases h with hseconds | hnanos
  · rw [timestampPart_of_null hseconds]
    exact ⟨_, rfl⟩
  · rw [timestampPart_of_null hnanos]
    cases timestampPart .int64 "seconds" members <;> exact ⟨_, rfl⟩

lemma toInstant_withoutNulls (hkeys : value.hasDistinctKeys)
    (h : ∀ members, value = .object members → ¬ HasNullPart members) :
    toInstant value.withoutNulls = toInstant value := by
  cases value with
  | object members =>
    have hparts := not_or.mp (h members rfl)
    have hnodup := (hasDistinctKeys_object.mp hkeys).1
    rw [withoutNulls, toInstant, timestampPart_membersWithoutNulls hnodup hparts.1,
      timestampPart_membersWithoutNulls hnodup hparts.2, toInstant]
  | _ => rfl

end Protobuf.Json
