import Protobuf.Proofs.Emit.TypeNames
import Protobuf.Proofs.Text.Numeral
import Protobuf.Proofs.Text.Words

/-!
# Names of enum variants

A variant is called after the capitalized words of its name, or after them and the
size of its number. The two kinds can be told apart, unless a name holds one of the
few letters that are drawn together with what follows: such a letter keeps an
underscore that is cut out elsewhere.
-/

open List

namespace Protobuf.Text

lemma isIdentifierContinue_of_isDigit {c : Char} (hc : c.isDigit) :
    isIdentifierContinue c := by
  have hrange : 48 ≤ c.toNat ∧ c.toNat ≤ 57 := by
    rw [Char.isDigit, Bool.and_eq_true, decide_eq_true_eq, decide_eq_true_eq] at hc
    exact hc
  rw [isIdentifierContinue, inRuns, identifierContinueRuns, inRunsFrom, if_neg (by omega),
    inRunsFrom, if_pos (by omega)]
  rfl

lemma isIdentifier_append {cs ds : List Char} (hcs : isIdentifier cs)
    (hds : ds.all isIdentifierContinue) : isIdentifier (cs ++ ds) := by
  cases cs with
  | nil => cases hcs
  | cons c cs =>
    rw [isIdentifier, Bool.and_eq_true] at hcs
    rw [cons_append, isIdentifier, all_append, hcs.1, hcs.2, hds]
    rfl

end Protobuf.Text

namespace Protobuf.Source.Ident

lemma ofText?_of_isIdentifier {s : String} (h : Text.isIdentifier s.toList) :
    ofText? s = some ⟨false, s⟩ := by
  have hhash : Text.isIdentifierContinue '#' = false := by decide +kernel
  unfold ofText?
  split
  · rename_i cs hcs
    simp [hcs, Text.isIdentifier, hhash] at h
  · rw [if_pos h]

/-- A text without the mark of a raw identifier spells nothing but itself. -/
lemma eq_of_ofText? {s : String} {i : Ident} (hmark : ∀ cs, s.toList ≠ 'r' :: '#' :: cs)
    (h : ofText? s = some i) : i = ⟨false, s⟩ ∧ Text.isIdentifier s.toList := by
  unfold ofText? at h
  split at h
  · rename_i cs hcs
    exact absurd hcs (hmark cs)
  · split_ifs at h with hident
    exact ⟨(Option.some.inj h).symm, hident⟩

end Protobuf.Source.Ident

namespace Protobuf.Naming

open Source

/-- The identifier of a variant is made of its capitalized words. An underscore is put before
them if they begin with no letter, and after them if they are a word that cannot be used. -/
lemma variantIdent?_eq_some {name : String} {i : Ident} (h : variantIdent? name = some i) :
    i.raw = false ∧ Text.isIdentifier i.name.toList ∧
      (i.name.toList = Text.pascalWords name.toList ∨
        i.name.toList = '_' :: Text.pascalWords name.toList ∨
        ∃ word ∈ reserved, i.name = word ++ "_") := by
  have hwords : ∀ word ∈ reserved, Text.isIdentifier (word ++ "_").toList := by
    decide +kernel
  have hkeywords : ∀ word ∈ keywords,
      (word.toList.head?.any fun c => 'a' ≤ c && c ≤ 'z') = true := by decide +kernel
  unfold variantIdent? at h
  dsimp only at h
  split_ifs at h with hprefix
  · obtain ⟨rfl, hident⟩ := Ident.eq_of_ofText? (by simp) h
    exact ⟨rfl, hident, .inr (.inl (by simp))⟩
  · have hhead {c : Char} {cs : List Char} (hpascal : Text.pascalWords name.toList = c :: cs) :=
      Text.head_pascalWords hpascal
    unfold Ident.escape? at h
    split_ifs at h with hreserved hkeyword
    · have hmem := contains_iff_mem.mp hreserved
      rw [Ident.ofText?_of_isIdentifier (hwords _ hmem)] at h
      cases h
      exact ⟨rfl, hwords _ hmem, .inr (.inr ⟨_, hmem, rfl⟩)⟩
    · have hsmall := hkeywords _ (contains_iff_mem.mp hkeyword)
      rw [String.toList_ofList] at hsmall
      cases hpascal : Text.pascalWords name.toList with
      | nil => simp [hpascal] at hsmall
      | cons c cs => exact absurd (by simpa [hpascal] using hsmall) (hhead hpascal)
    · have hmark (cs : List Char) :
          (String.ofList (Text.pascalWords name.toList)).toList ≠ 'r' :: '#' :: cs := by
        rw [String.toList_ofList]
        exact fun hcs => hhead hcs (by decide)
      obtain ⟨rfl, hident⟩ := Ident.eq_of_ofText? hmark h
      exact ⟨rfl, hident, .inl (by simp)⟩

lemma variantIdent?_ne_unrecognized {name : String} {i : Ident}
    (h : variantIdent? name = some i) : i.name ≠ "Unrecognized_" := by
  intro hname
  have hlist : i.name.toList = "Unrecognized".toList ++ '_' :: [] := by
    rw [hname]
    decide +kernel
  obtain ⟨-, -, hpascal | hpascal | ⟨word, hword, heq⟩⟩ := variantIdent?_eq_some h
  · rw [hpascal] at hlist
    rcases Text.pascalWords_eq_append hlist with ⟨d, b, hnil, -⟩ | ⟨-, a, d, ha, hd⟩
    · cases hnil
    · have hlast := congrArg getLast? ha
      rw [getLast?_concat] at hlast
      exact hd (Option.some.inj (hlast.symm.trans (by decide +kernel)))
  · rw [hpascal] at hlist
    have hcapital : ("Unrecognized".toList ++ ['_']).head? = some 'U' := by decide +kernel
    have hhead := (congrArg head? hlist).trans hcapital
    simp at hhead
  · have hwords : ∀ word ∈ reserved, word ++ "_" ≠ "Unrecognized_" := by decide +kernel
    exact hwords word hword (heq.symm.trans hname)

end Protobuf.Naming

namespace Protobuf.Plan

open Protobuf.Schema
open Source

/-! ## Identifiers with a number -/

def numberedIdent (i : Ident) (number : Int32) : Ident :=
  ⟨false, i.name ++ "_" ++ Text.natText number.toInt.natAbs⟩

lemma toList_numberedIdent (i : Ident) (number : Int32) :
    (numberedIdent i number).name.toList =
      i.name.toList ++ '_' :: Text.natDigits number.toInt.natAbs := by
  simp [numberedIdent, Text.natText]

lemma underscore_not_mem_natDigits (n : Nat) : '_' ∉ Text.natDigits n := by
  intro h
  have hdigit := Text.isDigit_of_mem_natDigits h
  revert hdigit
  decide

lemma numberedIdent_inj {i j : Ident} {m n : Int32} (h : numberedIdent i m = numberedIdent j n) :
    i.name = j.name ∧ m.toInt.natAbs = n.toInt.natAbs := by
  have hlists := congrArg (fun k : Ident => k.name.toList) h
  simp only [toList_numberedIdent] at hlists
  obtain ⟨hname, hdigits⟩ := Emit.append_cons_inj (underscore_not_mem_natDigits _)
    (underscore_not_mem_natDigits _) hlists
  have hnumbers := congrArg Text.natural? hdigits
  rw [Text.natural?_natDigits, Text.natural?_natDigits] at hnumbers
  exact ⟨String.toList_inj.mp hname, Option.some.inj hnumbers⟩

lemma isIdentifier_numberedIdent {i : Ident} (hi : Text.isIdentifier i.name.toList)
    (number : Int32) : Text.isIdentifier (numberedIdent i number).name.toList := by
  have hunderscore : Text.isIdentifierContinue '_' := by decide +kernel
  rw [toList_numberedIdent]
  refine Text.isIdentifier_append hi (all_eq_true.mpr fun c hc => ?_)
  rcases mem_cons.mp hc with rfl | hc
  · exact hunderscore
  · exact Text.isIdentifierContinue_of_isDigit (Text.isDigit_of_mem_natDigits hc)

lemma numberedIdent_ne_unrecognized (i : Ident) (number : Int32) :
    (numberedIdent i number).name ≠ "Unrecognized_" := by
  intro h
  obtain ⟨ds, d, hdigits⟩ := (eq_nil_or_concat
    (Text.natDigits number.toInt.natAbs)).resolve_left (Text.natDigits_ne_nil _)
  have hlast := congrArg (fun s : String => s.toList.getLast?) h
  have hlist := toList_numberedIdent i number
  rw [hdigits, concat_eq_append, ← cons_append, ← append_assoc] at hlist
  rw [hlist, getLast?_concat] at hlast
  have hd : d.isDigit := Text.isDigit_of_mem_natDigits (n := number.toInt.natAbs)
    (by simp [hdigits])
  have hunderscore : "Unrecognized_".toList.getLast? = some '_' := by decide +kernel
  rw [Option.some.inj (hlast.trans hunderscore)] at hd
  revert hd
  decide

/-- A name without characters of the class Prepend gives no identifier that looks numbered. -/
lemma variantIdent?_ne_numberedIdent {name : String} {i j : Ident}
    (hi : Naming.variantIdent? name = some i)
    (hname : ∀ c ∈ name.toList, Text.breakOf c ≠ .prepend)
    (hj : Text.isIdentifier j.name.toList) (number : Int32) :
    i ≠ numberedIdent j number := by
  rintro rfl
  have hlist := toList_numberedIdent j number
  obtain ⟨d, ds, hdigits⟩ := exists_cons_of_ne_nil
    (Text.natDigits_ne_nil number.toInt.natAbs)
  have hd : d.isDigit := Text.isDigit_of_mem_natDigits (n := number.toInt.natAbs)
    (by simp [hdigits])
  -- Wherever the words have the underscore, a digit comes next.
  have hwords (a : List Char) : Text.pascalWords name.toList ≠ a ++ '_' :: d :: ds := by
    intro h
    rcases Text.pascalWords_eq_append h with ⟨e, b, heq, he⟩ | ⟨⟨p, hp, hprepend⟩, -⟩
    · obtain ⟨rfl, -⟩ := cons.inj heq
      rw [hd] at he
      cases he
    · exact hname p hp hprepend
  rw [hdigits] at hlist
  obtain ⟨-, -, hpascal | hpascal | ⟨word, hword, heq⟩⟩ := Naming.variantIdent?_eq_some hi
  · exact hwords _ (hpascal.symm.trans hlist)
  · rw [hpascal] at hlist
    cases hj' : j.name.toList with
    | nil => simp [hj', Text.isIdentifier] at hj
    | cons c cs =>
      rw [hj'] at hlist
      exact hwords cs (cons.inj hlist).2
  · rw [heq, String.toList_append] at hlist
    have hlast := congrArg getLast? hlist
    have hend : (word.toList ++ "_".toList).getLast? = some '_' := by
      rw [show "_".toList = ['_'] by decide, getLast?_concat]
    rw [hend, getLast?_append_of_ne_nil _ (by simp), getLast?_cons_cons] at hlast
    exact underscore_not_mem_natDigits _ (hdigits ▸ mem_of_getLast? hlast.symm)

end Protobuf.Plan
