import Mathlib
import Protobuf.Text.Quoted

/-!
# Reading quoted text

A reader of string literals as the generated source has them: an escape stands for
one character, and a quote ends the literal. Quoted text is a literal of the text,
on one line.
-/

open Nat

namespace Protobuf.Text

open List

def hexDigit? (c : Char) : Option Nat :=
  "0123456789abcdef".toList.idxOf? c

/-- The character that a backslash and a character after it stand for. -/
def escaped? (c : Char) : Option Char :=
  [('0', '\x00'), ('t', '\t'), ('r', '\r'), ('n', '\n'), ('"', '"'), ('\\', '\\')].lookup c

/-- The rest of a string literal, after its first quote. In the escape of a code point, the number
that its digits make so far is known. -/
def literalRest? : (point : Option Nat) → List Char → Option (List Char)
  | none, ['"'] => some []
  | none, '\\' :: 'u' :: '\x7b' :: cs => literalRest? (some 0) cs
  | none, '\\' :: c :: cs => do
    let d ← escaped? c
    return d :: (← literalRest? none cs)
  | none, c :: cs =>
    if c = '"' ∨ c = '\\' then none else (literalRest? none cs).map (c :: ·)
  | some n, '\x7d' :: cs => (literalRest? none cs).map (Char.ofNat n :: ·)
  | some n, c :: cs => do literalRest? (some (16 * n + (← hexDigit? c))) cs
  | _, [] => none

def literal? : List Char → Option String
  | '"' :: cs => (literalRest? none cs).map String.ofList
  | _ => none

lemma hexDigit?_digitChar {d : Nat} (hd : d < 16) : hexDigit? (Nat.digitChar d) = some d := by
  interval_cases d <;> rfl

lemma digitChar_ne_brace {d : Nat} (hd : d < 16) : Nat.digitChar d ≠ '\x7d' := by
  interval_cases d <;> decide

lemma literalRest?_digitChar {d : Nat} (hd : d < 16) (n : Nat) (cs : List Char) :
    literalRest? (some n) (Nat.digitChar d :: cs) = literalRest? (some (16 * n + d)) cs := by
  rw [literalRest?, hexDigit?_digitChar hd]
  · rfl
  · exact digitChar_ne_brace hd

lemma literalRest?_toDigits (n : Nat) (cs : List Char) :
    literalRest? (some 0) (Nat.toDigits 16 n ++ cs) = literalRest? (some n) cs := by
  induction n using Nat.strong_induction_on generalizing cs with
  | _ n ih =>
    rw [toDigits_eq_if (by decide)]
    split_ifs with hn
    · rw [singleton_append, literalRest?_digitChar hn, mul_zero, zero_add]
    · have hdiv : 16 * (n / 16) + n % 16 = n := div_add_mod n 16
      rw [append_assoc, ih _ (div_lt_self (by omega) (by decide)), singleton_append,
        literalRest?_digitChar (mod_lt n (by decide)), hdiv]

/-- A character that starts no escape and ends nothing stands for itself. -/
lemma literalRest?_cons {c : Char} (hquote : c ≠ '"') (hslash : c ≠ '\\') (cs : List Char) :
    literalRest? none (c :: cs) = (literalRest? none cs).map (c :: ·) := by
  rw [literalRest?, if_neg (by simp [hquote, hslash])]
  all_goals simp [hquote, hslash]

lemma literalRest?_escape {c d : Char} (hd : escaped? c = some d) (cs : List Char) :
    literalRest? none ('\\' :: c :: cs) = (literalRest? none cs).map (d :: ·) := by
  have hc : c ≠ 'u' := by
    rintro rfl
    cases hd
  rw [literalRest?, hd]
  · cases literalRest? none cs <;> rfl
  · rintro _ rfl
    exact absurd rfl hc

lemma literalRest?_quotedChar (c : Char) (cs : List Char) :
    literalRest? none (quotedChar c ++ cs) = (literalRest? none cs).map (c :: ·) := by
  unfold quotedChar
  split_ifs with hzero htab hreturn hline hmark hpoint
  · exact hzero ▸ literalRest?_escape rfl cs
  · exact htab ▸ literalRest?_escape rfl cs
  · exact hreturn ▸ literalRest?_escape rfl cs
  · exact hline ▸ literalRest?_escape rfl cs
  · rcases Bool.or_eq_true_iff.mp hmark with hquote | hslash
    · exact literalRest?_escape (by rw [of_decide_eq_true hquote]; rfl) cs
    · exact literalRest?_escape (by rw [of_decide_eq_true hslash]; rfl) cs
  · rw [numericEscape, append_assoc, append_assoc]
    change literalRest? (some 0) (toDigits 16 c.toNat ++ '\x7d' :: cs) = _
    rw [literalRest?_toDigits]
    change (literalRest? none cs).map (Char.ofNat c.toNat :: ·) = _
    rw [Char.ofNat_toNat]
  · simp only [Bool.or_eq_true, decide_eq_true_eq, not_or] at hmark
    exact literalRest?_cons hmark.1 hmark.2 cs

lemma literalRest?_flatMap (cs : List Char) :
    literalRest? none (cs.flatMap quotedChar ++ ['"']) = some cs := by
  induction cs with
  | nil => rfl
  | cons c cs ih => rw [flatMap_cons, append_assoc, literalRest?_quotedChar, ih]; rfl

lemma literal?_quoted (s : String) : literal? (quoted s).toList = some s := by
  rw [quoted, String.toList_ofList]
  simp only [cons_append, literal?, literalRest?_flatMap, Option.map_some,
    String.ofList_toList]

/-- Text of which no character has to be escaped is a literal between quotes. -/
lemma literal?_plain {cs : List Char} (hcs : ∀ c ∈ cs, c ≠ '"' ∧ c ≠ '\\') :
    literal? ('"' :: cs ++ ['"']) = some (String.ofList cs) := by
  have hrest : literalRest? none (cs ++ ['"']) = some cs := by
    induction cs with
    | nil => rfl
    | cons c cs ih =>
      have hc := hcs c (by simp)
      rw [cons_append, literalRest?_cons hc.1 hc.2, ih fun d hd => hcs d (by simp [hd])]
      rfl
  simp only [cons_append, literal?, hrest, Option.map_some]

/-! ## Lines -/

lemma mem_toDigits_ne_newline {c : Char} {n : Nat} (hc : c ∈ Nat.toDigits 16 n) : c ≠ '\n' := by
  have hdigit {d : Nat} (hd : d < 16) : digitChar d ≠ '\n' := by
    interval_cases d <;> decide
  induction n using Nat.strong_induction_on with
  | _ n ih =>
    rw [toDigits_eq_if (by decide)] at hc
    split_ifs at hc with hn
    · rw [mem_singleton.mp hc]
      exact hdigit hn
    · rcases mem_append.mp hc with hc | hc
      · exact ih _ (div_lt_self (by omega) (by decide)) hc
      · rw [mem_singleton.mp hc]
        exact hdigit (mod_lt n (by decide))

lemma newline_not_mem_quotedChar (c : Char) : '\n' ∉ quotedChar c := by
  unfold quotedChar
  split_ifs with _ _ _ hline hmark _
  · decide
  · decide
  · decide
  · decide
  · simp [Ne.symm hline]
  · intro hmem
    simp only [numericEscape, mem_append, mem_cons, not_mem_nil, or_false] at hmem
    rcases hmem with (hmem | hmem) | hmem
    · revert hmem
      decide
    · exact mem_toDigits_ne_newline hmem rfl
    · revert hmem
      decide
  · simp [Ne.symm hline]

lemma newline_not_mem_quoted (s : String) : '\n' ∉ (quoted s).toList := by
  simp [quoted, newline_not_mem_quotedChar]

end Protobuf.Text
