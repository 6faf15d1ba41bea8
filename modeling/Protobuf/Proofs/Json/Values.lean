import Protobuf.Json.Coerce
import Protobuf.Proofs.Base64
import Protobuf.Proofs.Numeric.Rounding
import Protobuf.Proofs.Text.Numeral

/-!
# JSON values are read back

Members under distinct keys are only put in order, so each is found under its
key. A number, a text or bytes, written as JSON, is read as what it was; of a
not-a-number only that it is none is left.
-/

namespace Protobuf.Json

open List

/-! ## Members of an object -/

variable {members : List (String × Json)} {width : Numeric.Width} {n : Int}

lemma insertMember_perm {key : String} {value : Json} (h : key ∉ members.map Prod.fst) :
    (insertMember key value members).Perm ((key, value) :: members) := by
  induction members with
  | nil => exact .refl _
  | cons m members ih =>
    obtain ⟨k, v⟩ := m
    rw [map_cons, mem_cons, not_or] at h
    rw [insertMember]
    split_ifs with hlt heq
    · exact .refl _
    · exact absurd heq h.1
    · exact ((ih h.2).cons (k, v)).trans (.swap ..)

lemma sortMembers_perm (h : (members.map Prod.fst).Nodup) : (sortMembers members).Perm members := by
  have hfold : ∀ (rest acc : List (String × Json)), ((rest ++ acc).map Prod.fst).Nodup →
      (rest.foldl (fun acc m => insertMember m.1 m.2 acc) acc).Perm (rest ++ acc) := by
    intro rest
    induction rest with
    | nil => exact fun acc _ => .refl acc
    | cons m rest ih =>
      intro acc hnodup
      have hnew : m.1 ∉ acc.map Prod.fst := by
        rw [cons_append, map_cons, nodup_cons, map_append] at hnodup
        exact fun hmem => hnodup.1 (mem_append_right _ hmem)
      have hinsert : (rest ++ insertMember m.1 m.2 acc).Perm (m :: rest ++ acc) :=
        ((insertMember_perm hnew).append_left rest).trans perm_middle
      exact (ih _ ((hinsert.map Prod.fst).nodup_iff.mpr hnodup)).trans hinsert
  have hsorted := hfold members [] (by simpa using h)
  rwa [append_nil] at hsorted

lemma lookup_eq_some_iff_mem {key : String} {value : Json} (h : (members.map Prod.fst).Nodup) :
    members.lookup key = some value ↔ (key, value) ∈ members := by
  induction members with
  | nil => simp
  | cons m members ih =>
    obtain ⟨k, v⟩ := m
    rw [map_cons, nodup_cons] at h
    rw [lookup_cons, mem_cons]
    by_cases hkey : key = k
    · subst hkey
      have hnot : (key, value) ∉ members := fun hmem =>
        h.1 (mem_map.mpr ⟨(key, value), hmem, rfl⟩)
      simp [hnot, eq_comm]
    · simp [beq_eq_false_iff_ne.mpr hkey, hkey, ih h.2]

lemma member?_sortMembers (h : (members.map Prod.fst).Nodup) (key : String) :
    member? key (sortMembers members) = members.lookup key := by
  have hperm := sortMembers_perm h
  have hnodup : ((sortMembers members).map Prod.fst).Nodup := (hperm.map Prod.fst).nodup_iff.mpr h
  apply Option.ext
  intro value
  rw [member?, lookup_eq_some_iff_mem hnodup, lookup_eq_some_iff_mem h, hperm.mem_iff]

lemma field?_cons (members : List (String × Json)) (name : String) (names : List String) :
    field? members (name :: names) =
      ((member? name members).filter fun value => !value.isNull).or (field? members names) := by
  rw [field?]
  cases member? name members with
  | none => rfl
  | some value => cases hnull : value.isNull <;> simp [Option.filter, hnull]

/-! ## Numbers -/

lemma toInteger_ofInt (hn : width.holds n) : toInteger width (.ofInt n) = .ok n := by
  simp [toInteger, toWide, ofInt, hn, bind, Except.bind]

lemma wide_of_holds (hn : width.holds n) : wideLeast ≤ n ∧ n ≤ wideGreatest := by
  rw [Numeric.Width.holds_iff] at hn
  have hleast : wideLeast ≤ width.least := by cases width <;> decide
  have hgreatest : width.greatest ≤ wideGreatest := by cases width <;> decide
  omega

lemma toInteger_intText (hn : width.holds n) :
    toInteger width (.string (Text.intText n)) = .ok n := by
  have hwide : wideOfText? (Text.intText n) = some n := by
    rw [wideOfText?, Text.toList_intText, Text.trimChars_intChars,
      Text.integer?_intChars (.inr rfl), Option.filter_some, if_pos]
    simpa using wide_of_holds hn
  simp [toInteger, toWide, hwide, hn, bind, Except.bind]

lemma toDouble_ofDouble {x : Numeric.Double} (hx : x.isNaN = false) :
    toDouble (ofDouble x) = .ok x := by
  have hsign := x.ofMagnitude_magnitude
  by_cases hinfinite : x.isInfinite
  · rw [beq_iff_eq.mp hinfinite] at hsign
    rw [ofDouble, hx, if_neg Bool.false_ne_true, if_pos hinfinite]
    cases hnegative : x.negative <;> rw [hnegative] at hsign
    · exact congrArg Except.ok hsign
    · exact congrArg Except.ok hsign
  · rw [ofDouble, hx, if_neg Bool.false_ne_true, if_neg hinfinite]
    rfl

lemma toDouble_of_isNaN {x : Numeric.Double} (hx : x.isNaN) :
    toDouble (ofDouble x) = .ok (.nan false) := by
  rw [ofDouble, if_pos hx]
  rfl

lemma toSingle_ofSingle {x : Numeric.Single} (hx : x.isNaN = false) :
    toSingle (ofSingle x) = .ok x := by
  rw [toSingle, ofSingle, toDouble_ofDouble (by rw [x.isNaN_toDouble, hx])]
  exact congrArg Except.ok (Numeric.Single.toSingle_toDouble hx)

/-! ## Keys and bytes -/

lemma integerKey_intText (hn : width.holds n) :
    integerKey width (Text.intText n) = .ok n := by
  rw [integerKey, Text.toList_intText, Numeric.Width.parse?_intChars hn]

lemma decimalKey_intText (hn : width.holds n) :
    decimalKey width (Text.intText n) = .ok (Text.intText n) := by
  rw [decimalKey, Text.trim_intText, integerKey_intText hn]
  rfl

lemma toBytes_encode (bytes : List UInt8) : toBytes (Base64.encode bytes) = .ok bytes := by
  rw [toBytes, Base64.decode?_encode]

end Protobuf.Json
