import Mathlib
import Protobuf.Numeric.Width

/-!
# Numerals are read back

The canonical numeral of an integer is read as that integer wherever numerals are
read: with or without blanks around it, and as a numeral of every type that holds
the integer. A padded number is written with its last digits.
-/

open Option Nat

namespace Protobuf.Text

open List

variable {c : Char} {cs : List Char} {n width : Nat}

lemma digit?_of_isDigit (hc : c.isDigit) : digit? c = some (c.toNat - '0'.toNat) := by
  have hrange : '0' ≤ c ∧ c ≤ '9' := by
    simpa [Char.isDigit, Char.le_def] using hc
  simp only [digit?, hrange, and_self, if_true]

lemma appendDigits?_eq (hcs : ∀ c ∈ cs, c.isDigit) (acc : Nat) :
    appendDigits? acc cs = some (Nat.ofDigitChars 10 cs acc) := by
  induction cs generalizing acc with
  | nil => simp [appendDigits?]
  | cons c cs ih =>
    have hc := digit?_of_isDigit (hcs c (by simp))
    have hrest := ih (fun d hd => hcs d (by simp [hd])) (10 * acc + (c.toNat - '0'.toNat))
    rw [appendDigits?, hc, bind_some, hrest, ofDigitChars_cons]

lemma isDigit_of_digit? {d : Nat} (h : digit? c = some d) : c.isDigit := by
  unfold digit? at h
  split_ifs at h with hrange
  simpa [Char.isDigit, Char.le_def] using hrange

lemma isDigit_of_appendDigits? {acc : Nat} (h : appendDigits? acc cs = some n) :
    ∀ c ∈ cs, c.isDigit := by
  induction cs generalizing acc with
  | nil => simp
  | cons c cs ih =>
    obtain ⟨d, hd, hrest⟩ := bind_eq_some_iff.mp h
    exact forall_mem_cons.mpr ⟨isDigit_of_digit? hd, ih hrest⟩

lemma isDigit_of_mem_natDigits (hc : c ∈ natDigits n) : c.isDigit :=
  isDigit_of_mem_toDigits (by decide) (by decide) hc

lemma natDigits_ne_nil (n : Nat) : natDigits n ≠ [] :=
  toDigits_ne_nil

lemma natural?_natDigits (n : Nat) : natural? (natDigits n) = some n := by
  have hread := appendDigits?_eq (fun _ hc => isDigit_of_mem_natDigits (n := n) hc) 0
  rw [natDigits, ofDigitChars_ten_toDigits] at hread
  cases hdigits : natDigits n with
  | nil => exact absurd hdigits (natDigits_ne_nil n)
  | cons c cs =>
    rw [natDigits] at hdigits
    rw [natural?, ← hdigits, hread]

/-- Only a minus sign that the type does not have keeps a numeral from being read. -/
lemma integer?_intChars {signed : Bool} {n : Int} (hn : 0 ≤ n ∨ signed) :
    integer? signed (intChars n) = some n := by
  by_cases hneg : n < 0
  · have hsigned : signed := by
      rcases hn with hn | hn
      · omega
      · exact hn
    simp [intChars, hneg, integer?, hsigned, natural?_natDigits, abs_of_neg hneg]
  · cases hdigits : natDigits n.natAbs with
    | nil => exact absurd hdigits (natDigits_ne_nil _)
    | cons c cs =>
      have hc : c.isDigit := isDigit_of_mem_natDigits (n := n.natAbs) (by simp [hdigits])
      have hread := natural?_natDigits n.natAbs
      rw [hdigits] at hread
      simp only [intChars, hneg, if_false, hdigits]
      have habs : Int.ofNat n.natAbs = n := by simp; omega
      unfold integer?
      split
      · rename_i hsign
        cases hsign
        exact absurd hc (by decide)
      · rename_i hsign
        cases hsign
        exact absurd hc (by decide)
      · rw [hread, map_some, habs]

/-! ## Blanks around numerals -/

lemma not_isBlank_of_isDigit (hc : c.isDigit) : isBlank c = false := by
  have hrange : 48 ≤ c.toNat ∧ c.toNat ≤ 57 := by
    simp only [Char.isDigit, Bool.and_eq_true, decide_eq_true_eq] at hc
    exact hc
  simp [isBlank]
  omega

lemma trimChars_eq_self (hcs : ∀ c ∈ cs, isBlank c = false) : trimChars cs = cs := by
  have hdrop : ∀ ds : List Char, (∀ c ∈ ds, isBlank c = false) → ds.dropWhile isBlank = ds := by
    intro ds hds
    cases ds with
    | nil => rfl
    | cons d ds => simp [hds d (by simp)]
  rw [trimChars, hdrop cs hcs, trimEndChars, hdrop _ (by simpa using hcs), reverse_reverse]

lemma trimChars_intChars (n : Int) : trimChars (intChars n) = intChars n := by
  apply trimChars_eq_self
  intro c hc
  have hdigits : c ∈ natDigits n.natAbs → isBlank c = false := fun h =>
    not_isBlank_of_isDigit (isDigit_of_mem_natDigits h)
  unfold intChars at hc
  split_ifs at hc
  · rcases mem_cons.mp hc with rfl | hc
    · decide
    · exact hdigits hc
  · exact hdigits hc

@[simp]
lemma toList_intText (n : Int) : (intText n).toList = intChars n :=
  String.toList_ofList

@[simp]
lemma trim_intText (n : Int) : trim (intText n) = intText n := by
  rw [trim, toList_intText, trimChars_intChars, intText]

/-! ## Padded numbers -/

def lastDigits : Nat → Nat → List Nat
  | 0, _ => []
  | width + 1, n => lastDigits width (n / 10) ++ [n % 10]

@[simp]
lemma length_lastDigits (width n : Nat) : (lastDigits width n).length = width := by
  induction width generalizing n with
  | zero => rfl
  | succ width ih => simp [lastDigits, ih]

lemma lt_of_mem_lastDigits {d : Nat} (hd : d ∈ lastDigits width n) : d < 10 := by
  induction width generalizing n with
  | zero => simp [lastDigits] at hd
  | succ width ih =>
    rcases mem_append.mp hd with hd | hd
    · exact ih hd
    · rw [mem_singleton.mp hd]
      exact mod_lt n (by decide)

lemma foldl_lastDigits (hn : n < 10 ^ width) :
    (lastDigits width n).foldl (fun n d => 10 * n + d) 0 = n := by
  induction width generalizing n with
  | zero =>
    rw [pow_zero, lt_one_iff] at hn
    simp [lastDigits, hn]
  | succ width ih =>
    have hdiv : n / 10 < 10 ^ width := by
      rw [pow_succ] at hn
      omega
    rw [lastDigits, foldl_append, ih hdiv]
    exact div_add_mod n 10

lemma le_length_padded (width n : Nat) : width ≤ (padded width n).length := by
  simp only [padded, length_append, length_replicate]
  omega

lemma padded_succ (hwidth : 0 < width) (n : Nat) :
    padded (width + 1) n = padded width (n / 10) ++ [Nat.digitChar (n % 10)] := by
  by_cases hn : n < 10
  · have hzero : n / 10 = 0 := div_eq_of_lt hn
    obtain ⟨width, rfl⟩ := Nat.exists_eq_add_of_lt hwidth
    simp [padded, natDigits, toDigits_of_lt_base hn, hzero, mod_eq_of_lt hn,
      replicate_succ']
  · simp [padded, natDigits, toDigits_of_base_le (by decide) (not_lt.mp hn)]

lemma padded_eq (hwidth : 0 < width) (hn : n < 10 ^ width) :
    padded width n = (lastDigits width n).map Nat.digitChar := by
  induction width, hwidth using le_induction generalizing n with
  | base =>
    have hn : n < 10 := by simpa using hn
    simp [padded, natDigits, toDigits_of_lt_base hn, lastDigits, mod_eq_of_lt hn]
  | succ width hwidth ih =>
    have hdiv : n / 10 < 10 ^ width := by
      rw [pow_succ] at hn
      omega
    rw [padded_succ hwidth, ih hdiv, lastDigits, map_append]
    rfl

end Protobuf.Text

namespace Protobuf.Numeric.Width

lemma holds_iff {w : Width} {n : Int} : w.holds n ↔ w.least ≤ n ∧ n ≤ w.greatest := by
  rw [holds, Bool.and_eq_true, decide_eq_true_eq, decide_eq_true_eq]

lemma parse?_intChars {w : Width} {n : Int} (hn : w.holds n) :
    w.parse? (Text.intChars n) = some n := by
  have hsign : 0 ≤ n ∨ w.signed := by
    cases w with
    | int32 | int64 => exact .inr rfl
    | uint32 | uint64 => exact .inl (holds_iff.mp hn).1
  rw [parse?, Text.integer?_intChars hsign, filter_some, if_pos hn]

end Protobuf.Numeric.Width
