import Protobuf.Numeric.Parse
import Protobuf.Proofs.Numeric.Nearest
import Protobuf.Proofs.Text.Numeral

/-!
# Decimals

The syntax of decimals, with the number that each denotes. A decimal is read as an
integer exactly if it has neither a point nor an exponent, and as a double always:
the nearest one to the number it denotes, or an infinity.
-/

open List Option Nat

namespace Protobuf.Numeric

/-- What may stand in front of digits. -/
inductive Sign where
  | none
  | plus
  | minus
  deriving DecidableEq

/-- A run of digits, possibly empty. -/
structure Digits where
  chars : List Char
  isDigit : ∀ c ∈ chars, c.isDigit = true

def Digits.empty : Digits where
  chars := []
  isDigit := by simp

structure Exponent where
  /-- The letter in front. -/
  mark : Char
  sign : Sign
  digits : Digits
  isMark : mark = 'e' ∨ mark = 'E'
  ne_nil : digits.chars ≠ []

/-- A decimal: there is a digit on one side of the point. -/
structure Literal where
  sign : Sign
  /-- The digits in front of the point. -/
  whole : Digits
  /-- The digits after the point, if there is a point. -/
  fraction : Option Digits
  exponent : Option Exponent
  ne_nil : whole.chars ++ (fraction.getD .empty).chars ≠ []

def Sign.chars : Sign → List Char
  | none => []
  | plus => ['+']
  | minus => ['-']

def Sign.factor : Sign → ℤ
  | minus => -1
  | _ => 1

def Digits.value (digits : Digits) : ℕ :=
  Nat.ofDigitChars 10 digits.chars 0

namespace Literal

variable (d : Literal)

/-- The digits after the point, none if there is no point. -/
def part : Digits :=
  d.fraction.getD .empty

def pointChars : List Char :=
  d.fraction.elim [] fun digits => '.' :: digits.chars

def exponentChars : List Char :=
  d.exponent.elim [] fun e => e.mark :: (e.sign.chars ++ e.digits.chars)

def body : List Char :=
  d.whole.chars ++ (d.pointChars ++ d.exponentChars)

def chars : List Char :=
  d.sign.chars ++ d.body

/-- The power of ten that the exponent asks for. -/
def power : ℤ :=
  d.exponent.elim 0 fun e => e.sign.factor * e.digits.value

/-- The number that a decimal denotes. -/
def value : ℚ :=
  d.sign.factor * (d.whole.value + d.part.value / 10 ^ d.part.chars.length) * 10 ^ d.power

def Plain : Prop :=
  d.fraction = none ∧ d.exponent = none

end Literal

end Protobuf.Numeric

/-! ## Digits -/

namespace Protobuf.Text

open Numeric (Digits Sign)

lemma natural?_digits (digits : Digits) (hne : digits.chars ≠ []) :
    natural? digits.chars = some digits.value := by
  have hread := appendDigits?_eq digits.isDigit 0
  cases hcs : digits.chars with
  | nil => exact absurd hcs hne
  | cons c cs => rw [natural?, ← hcs, hread, Digits.value]

lemma natural?_eq_none {cs : List Char} {c : Char} (hmem : c ∈ cs) (hc : digit? c = none) :
    natural? cs = none := by
  have happend : ∀ (cs : List Char) (acc : ℕ), c ∈ cs → appendDigits? acc cs = none := by
    intro cs
    induction cs with
    | nil => simp
    | cons b cs ih =>
      intro acc hmem
      rw [appendDigits?]
      rcases mem_cons.mp hmem with rfl | hmem
      · rw [hc, bind_none]
      · cases digit? b with
        | none => rfl
        | some n => exact ih _ hmem
  cases cs with
  | nil => cases hmem
  | cons b cs => exact happend (b :: cs) 0 hmem

lemma integer?_signed (sign : Sign) {c : Char} {cs : List Char} (hplus : c ≠ '+')
    (hminus : c ≠ '-') : integer? true (sign.chars ++ c :: cs) =
      (natural? (c :: cs)).map fun n : ℕ => sign.factor * (n : ℤ) := by
  cases sign with
  | none =>
    have hfactor : (fun n : ℕ => Sign.none.factor * (n : ℤ)) = Int.ofNat :=
      funext fun n => one_mul _
    rw [hfactor, Sign.chars, nil_append, integer?]
    · exact fun _ heq => hplus (cons.inj heq).1
    · exact fun _ heq => hminus (cons.inj heq).1
  | plus =>
    have hfactor : (fun n : ℕ => Sign.plus.factor * (n : ℤ)) = Int.ofNat :=
      funext fun n => one_mul _
    rw [hfactor]
    rfl
  | minus =>
    have hfactor : (fun n : ℕ => Sign.minus.factor * (n : ℤ)) = fun n : ℕ => -(n : ℤ) :=
      funext fun n => neg_one_mul _
    rw [hfactor, Sign.chars, singleton_append, integer?, if_pos rfl]
    cases natural? (c :: cs) <;> rfl

lemma ne_sign {c : Char} (hc : c.isDigit ∨ c = '.') : c ≠ '+' ∧ c ≠ '-' := by
  constructor <;> rintro rfl <;> exact absurd hc (by decide)

lemma isLower_toLower_of_isDigit {c : Char} (hc : c.isDigit) :
    c.toLower.isLower = false := by
  have hdigit : 48 ≤ c.toNat ∧ c.toNat ≤ 57 := by
    simpa [Char.isDigit, UInt32.le_iff_toNat_le] using hc
  have hupper : ¬ c.isUpper := by
    simp [Char.isUpper, UInt32.le_iff_toNat_le]
    omega
  rw [Char.toLower_eq_of_not_isUpper hupper]
  simp [Char.isLower, UInt32.le_iff_toNat_le]
  omega

lemma integer?_digits (sign : Sign) (digits : Digits) (hne : digits.chars ≠ []) :
    integer? true (sign.chars ++ digits.chars) = some (sign.factor * digits.value) := by
  have hread := natural?_digits digits hne
  have hdigit := digits.isDigit
  cases hcs : digits.chars with
  | nil => exact absurd hcs hne
  | cons c cs =>
    rw [hcs] at hread hdigit
    obtain ⟨hplus, hminus⟩ := ne_sign (.inl (hdigit c (mem_cons_self ..)))
    rw [integer?_signed sign hplus hminus, hread]
    rfl

end Protobuf.Text

namespace Protobuf.Numeric

lemma digit?_isSome {c : Char} (hc : c.isDigit) : (Text.digit? c).isSome := by
  rw [Text.digit?_of_isDigit hc]
  rfl

lemma spanDigits_append (digits : Digits) {rest : List Char}
    (hrest : ∀ c ∈ rest.head?, (Text.digit? c).isSome = false) :
    spanDigits (digits.chars ++ rest) = (digits.chars, rest) := by
  have hdigits : ∀ c ∈ digits.chars, (Text.digit? c).isSome :=
    fun c hc => digit?_isSome (digits.isDigit c hc)
  have hstop : rest.takeWhile (fun c => (Text.digit? c).isSome) = [] ∧
      rest.dropWhile (fun c => (Text.digit? c).isSome) = rest := by
    cases rest with
    | nil => exact ⟨rfl, rfl⟩
    | cons c rest =>
      have hc := hrest c rfl
      simp [hc]
  rw [spanDigits, span_eq_takeWhile_dropWhile, takeWhile_append_of_pos hdigits,
    dropWhile_append_of_pos hdigits, hstop.1, hstop.2, append_nil]

/-- The number that an unsigned decimal denotes. -/
def Numeral.value (d : Numeral) : ℚ :=
  d.digits * 10 ^ d.exponent

namespace Literal

variable (d : Literal)

def digits : Digits where
  chars := d.whole.chars ++ d.part.chars
  isDigit c hc := (List.mem_append.mp hc).elim (d.whole.isDigit c) (d.part.isDigit c)

/-- What a decimal is read as: its digits as one number, and the power of ten of the last one. -/
def numeral : Numeral where
  digits := d.digits.value
  exponent := d.power - d.part.chars.length

lemma exponentPart?_exponentChars : exponentPart? d.exponentChars = some d.power := by
  unfold exponentChars power
  cases d.exponent with
  | none => rfl
  | some e =>
    have hread := Text.integer?_digits e.sign e.digits e.ne_nil
    rcases e.isMark with hmark | hmark
    · rw [elim_some, hmark]
      exact hread
    · rw [elim_some, hmark]
      exact hread

lemma exponentChars_cases : d.exponentChars = [] ∨
    ∃ cs, d.exponentChars = 'e' :: cs ∨ d.exponentChars = 'E' :: cs := by
  unfold exponentChars
  cases d.exponent with
  | none => exact .inl rfl
  | some e => rcases e.isMark with hmark | hmark <;> simp [hmark]

lemma numeral?_body : numeral? d.body = some d.numeral := by
  have hread : Text.natural? (d.whole.chars ++ d.part.chars) = some d.digits.value :=
    Text.natural?_digits d.digits d.ne_nil
  have hpower := d.exponentPart?_exponentChars
  have hrest : ∀ c ∈ d.exponentChars.head?, (Text.digit? c).isSome = false := by
    rcases d.exponentChars_cases with hchars | ⟨cs, hchars | hchars⟩ <;> rw [hchars] <;> rintro c ⟨⟩
    · decide
    · decide
  cases hfraction : d.fraction with
  | none =>
    have hpart : d.part = .empty := by rw [part, hfraction, getD_none]
    have hbody : d.body = d.whole.chars ++ d.exponentChars := by
      rw [body, pointChars, hfraction]
      rfl
    rw [hpart, Digits.empty, append_nil] at hread
    rw [hbody, numeral, hpart, numeral?, spanDigits_append _ hrest]
    rcases d.exponentChars_cases with hchars | ⟨cs, hchars | hchars⟩ <;> rw [hchars] at hpower ⊢ <;>
      simp [hread, hpower, Digits.empty]
  | some fraction =>
    have hpart : d.part = fraction := by rw [part, hfraction, getD_some]
    have hbody : d.body = d.whole.chars ++ '.' :: (fraction.chars ++ d.exponentChars) := by
      rw [body, pointChars, hfraction]
      rfl
    have hpoint : ∀ c ∈ ('.' :: (fraction.chars ++ d.exponentChars)).head?,
        (Text.digit? c).isSome = false := by
      rintro c ⟨⟩
      decide
    rw [hpart] at hread
    rw [hbody, numeral, hpart, numeral?, spanDigits_append _ hpoint]
    simp [spanDigits_append _ hrest, hread, hpower]

lemma exists_body_eq : ∃ c cs, d.body = c :: cs ∧ (c.isDigit ∨ c = '.') := by
  cases hwhole : d.whole.chars with
  | cons c cs =>
    refine ⟨c, cs ++ (d.pointChars ++ d.exponentChars), by rw [body, hwhole]; rfl, .inl ?_⟩
    exact d.whole.isDigit c (by simp [hwhole])
  | nil =>
    cases hfraction : d.fraction with
    | none => exact absurd (by simp [hwhole, hfraction, Digits.empty]) d.ne_nil
    | some fraction =>
      refine ⟨'.', fraction.chars ++ d.exponentChars, ?_, .inr rfl⟩
      rw [body, hwhole, pointChars, hfraction]
      rfl

lemma isWord_body (word : String) {c : Char} {cs : List Char} (hword : word.toList = c :: cs)
    (hc : c.isLower) : isWord word d.body = false := by
  obtain ⟨b, bs, hbody, hb⟩ := d.exists_body_eq
  rw [isWord, hbody, map_cons, hword, cons_beq_cons, Bool.and_eq_false_iff]
  left
  rw [beq_eq_false_iff_ne]
  rintro rfl
  rcases hb with hb | rfl
  · rw [Text.isLower_toLower_of_isDigit hb] at hc
    cases hc
  · exact absurd hc (by decide)

lemma parse?_chars : Double.parse? d.chars = some (d.numeral.toDouble (d.sign == .minus)) := by
  have hunsigned (negative : Bool) :
      unsignedDouble? negative d.body = some (d.numeral.toDouble negative) := by
    rw [unsignedDouble?, d.isWord_body "inf" rfl rfl, d.isWord_body "infinity" rfl rfl,
      d.isWord_body "nan" rfl rfl, numeral?_body]
    rfl
  rw [chars]
  cases hsign : d.sign with
  | none =>
    rw [Sign.chars, nil_append]
    obtain ⟨c, cs, hbody, hc⟩ := d.exists_body_eq
    obtain ⟨hplus, hminus⟩ := Text.ne_sign hc
    have hthird : Double.parse? (c :: cs) = unsignedDouble? false (c :: cs) := by
      rw [Double.parse?]
      · exact fun _ heq => hminus (cons.inj heq).1
      · exact fun _ heq => hplus (cons.inj heq).1
    rw [hbody, hthird, ← hbody]
    exact hunsigned false
  | plus => exact hunsigned false
  | minus => exact hunsigned true

lemma integer?_of_plain (hplain : d.Plain) :
    Text.integer? true d.chars = some (d.sign.factor * d.whole.value) := by
  obtain ⟨hfraction, hexponent⟩ := hplain
  have hchars : d.chars = d.sign.chars ++ d.whole.chars := by
    rw [chars, body, pointChars, exponentChars, hfraction, hexponent]
    simp
  have hne := d.ne_nil
  rw [hfraction, getD_none, Digits.empty, append_nil] at hne
  rw [hchars, Text.integer?_digits d.sign d.whole hne]

lemma integer?_of_not_plain (hplain : ¬ d.Plain) : Text.integer? true d.chars = none := by
  have hother : ∃ c ∈ d.body, Text.digit? c = none := by
    cases hfraction : d.fraction with
    | some fraction =>
      refine ⟨'.', ?_, by decide⟩
      simp [body, pointChars, hfraction]
    | none =>
      cases hexponent : d.exponent with
      | none => exact absurd ⟨hfraction, hexponent⟩ hplain
      | some e =>
        refine ⟨e.mark, ?_, ?_⟩
        · simp [body, exponentChars, hexponent]
        · rcases e.isMark with hmark | hmark <;> rw [hmark] <;> decide
  obtain ⟨b, hb, hdigit⟩ := hother
  obtain ⟨c, cs, hbody, hc⟩ := d.exists_body_eq
  obtain ⟨hplus, hminus⟩ := Text.ne_sign hc
  rw [hbody] at hb
  rw [chars, hbody, Text.integer?_signed _ hplus hminus, Text.natural?_eq_none hb hdigit]
  rfl

lemma value_eq : d.value = d.sign.factor * d.numeral.value := by
  have hdigits : d.digits.value = d.whole.value * 10 ^ d.part.chars.length + d.part.value := by
    rw [Digits.value, digits, ofDigitChars_append, ofDigitChars_eq_ofDigitChars_zero]
    rw [mul_comm]
    rfl
  rw [value, Numeral.value, numeral, hdigits, zpow_sub₀ (by norm_num), zpow_natCast]
  push_cast
  field_simp

end Literal

/-! ## Correct rounding of decimals -/

lemma length_natDigits {n : ℕ} (hn : n ≠ 0) :
    10 ^ (Text.natDigits n).length ≤ 10 * n ∧ n < 10 ^ (Text.natDigits n).length := by
  have hpos : 0 < (Text.natDigits n).length := length_pos_iff.mpr (Text.natDigits_ne_nil n)
  refine ⟨?_, (length_toDigits_le_iff (by decide) hpos).mp le_rfl⟩
  obtain ⟨k, hk⟩ := exists_eq_succ_of_ne_zero hpos.ne'
  rw [hk, pow_succ, mul_comm]
  refine mul_le_mul_left 10 ?_
  by_cases hzero : k = 0
  · rw [hzero, pow_zero]
    omega
  · by_contra hlt
    have := (length_toDigits_le_iff (by decide) (pos_of_ne_zero hzero)).mpr (not_le.mp hlt)
    rw [← Text.natDigits, hk] at this
    omega

lemma Format.ofRatio_eq_zero {f : Format} {n d : ℕ} (h : 2 * (n * 2 ^ f.lowest) < d) :
    f.ofRatio n d = 0 := by
  have hlt : n * 2 ^ f.lowest < d := by omega
  have hround : roundDiv (n * 2 ^ f.lowest) d = 0 := by
    rw [roundDiv, div_eq_of_lt hlt, mod_eq_of_lt hlt, if_neg (by omega)]
  have hlog : log2 0 - f.fraction = 0 := by
    rw [Nat.log2_zero, Nat.zero_sub]
  simp only [ofRatio, pow_eq, div_eq_of_lt hlt, hlog, pow_zero, mul_one, zero_mul,
    zero_add, hround, min_zero]

lemma Double.ofRatio_eq_infinity {negative : Bool} {n d : ℕ} (hd : 0 < d)
    (h : overflow ≤ (n / d : ℚ)) : ofRatio negative n d = infinity negative := by
  have hfinite : ¬ (ofRatio negative n d).isFinite := fun hfinite =>
    not_lt.mpr h ((isFinite_ofRatio hd).mp hfinite)
  rw [isFinite, decide_eq_true_eq, magnitude_ofRatio] at hfinite
  have hle : Format.double.ofRatio n d ≤ Format.double.infinity := Nat.min_le_left ..
  rw [ofRatio, infinity, le_antisymm hle (not_lt.mp hfinite)]

namespace Numeral

variable (d : Numeral)

def numerator : ℕ :=
  if 0 ≤ d.exponent then d.digits * 10 ^ d.exponent.toNat else d.digits

def denominator : ℕ :=
  if 0 ≤ d.exponent then 1 else 10 ^ d.exponent.natAbs

lemma denominator_pos : 0 < d.denominator := by
  unfold denominator
  split_ifs
  · exact one_pos
  · positivity

lemma value_eq_ratio : d.value = d.numerator / d.denominator := by
  unfold value numerator denominator
  split_ifs with h
  · obtain ⟨e, he⟩ := Int.eq_ofNat_of_zero_le h
    rw [he, zpow_natCast, Int.toNat_natCast]
    push_cast
    rw [div_one]
  · obtain ⟨e, he⟩ := Int.exists_eq_neg_ofNat (le_of_not_ge h)
    rw [he, zpow_neg, zpow_natCast, Int.natAbs_neg, Int.natAbs_natCast, ← div_eq_mul_inv]
    push_cast
    rfl

/-- A number with many digits in front of the point is beyond all doubles. -/
lemma overflow_le_value {d : Numeral} (hdigits : d.digits ≠ 0)
    (hsize : 400 < d.exponent + (Text.natDigits d.digits).length) : Double.overflow ≤ d.value := by
  obtain ⟨hlow, -⟩ := length_natDigits hdigits
  set k := (Text.natDigits d.digits).length
  have hlow' : (10 : ℚ) ^ (k : ℤ) ≤ 10 * d.digits := by
    rw [zpow_natCast]
    exact_mod_cast hlow
  have hpow : (2 : ℚ) ^ 1024 ≤ 10 ^ (400 : ℤ) := by
    have : 2 ^ 1024 ≤ 10 ^ 400 := by decide +kernel
    exact_mod_cast this
  calc Double.overflow
    _ ≤ 2 ^ 1024 := sub_le_self _ (by positivity)
    _ ≤ 10 ^ (400 : ℤ) := hpow
    _ ≤ 10 ^ (k - 1 + d.exponent : ℤ) := zpow_le_zpow_right₀ (by norm_num) (by omega)
    _ = 10 ^ (k : ℤ) / 10 * 10 ^ d.exponent := by
      rw [zpow_add₀ (by norm_num), zpow_sub_one₀ (by norm_num), div_eq_mul_inv]
    _ ≤ d.value := by
      refine mul_le_mul_of_nonneg_right ?_ (by positivity)
      linarith

/-- A number with many zeros after the point is below half the least double. -/
lemma numerator_lt {d : Numeral} (hdigits : d.digits ≠ 0)
    (hsize : d.exponent + (Text.natDigits d.digits).length < -400) :
    2 * (d.numerator * 2 ^ Format.double.lowest) < d.denominator := by
  obtain ⟨-, hhigh⟩ := length_natDigits hdigits
  have hneg : ¬ 0 ≤ d.exponent := by omega
  have hpow : 2 * 2 ^ 1074 ≤ 10 ^ 401 := by decide +kernel
  rw [numerator, denominator, if_neg hneg, if_neg hneg, show Format.double.lowest = 1074 by decide]
  calc 2 * (d.digits * 2 ^ 1074)
    _ = d.digits * (2 * 2 ^ 1074) := by rw [mul_left_comm]
    _ < 10 ^ (Text.natDigits d.digits).length * (2 * 2 ^ 1074) :=
      mul_lt_mul_of_pos_right hhigh (by positivity)
    _ ≤ 10 ^ (Text.natDigits d.digits).length * 10 ^ 401 := Nat.mul_le_mul_left _ hpow
    _ = 10 ^ ((Text.natDigits d.digits).length + 401) := (pow_add ..).symm
    _ ≤ 10 ^ d.exponent.natAbs := Nat.pow_le_pow_right (by decide) (by omega)

/-- Numbers that are decided by their size alone are rounded all the same. -/
lemma toDouble_eq (negative : Bool) :
    d.toDouble negative = Double.ofRatio negative d.numerator d.denominator := by
  have hzero (h : 2 * (d.numerator * 2 ^ Format.double.lowest) < d.denominator) :
      Double.ofMagnitude negative 0 = Double.ofRatio negative d.numerator d.denominator := by
    rw [Double.ofRatio, Format.ofRatio_eq_zero h]
  unfold toDouble
  dsimp only
  by_cases hdigits : d.digits = 0
  · rw [if_pos (by simp [hdigits])]
    refine hzero ?_
    have hnumerator : d.numerator = 0 := by
      unfold numerator
      split_ifs <;> simp [hdigits]
    rw [hnumerator, zero_mul, mul_zero]
    exact d.denominator_pos
  · by_cases hsmall : d.exponent + (Text.natDigits d.digits).length < -400
    · rw [if_pos (by simp [hsmall])]
      exact hzero (numerator_lt hdigits hsmall)
    · rw [if_neg (by simp [hdigits, hsmall])]
      by_cases hlarge : 400 < d.exponent + (Text.natDigits d.digits).length
      · rw [if_pos hlarge, Double.ofRatio_eq_infinity d.denominator_pos]
        rw [← value_eq_ratio]
        exact overflow_le_value hdigits hlarge
      · rw [if_neg hlarge, numerator, denominator]
        by_cases hexponent : 0 ≤ d.exponent
        · rw [if_pos hexponent, if_pos hexponent, if_pos hexponent]
          rfl
        · rw [if_neg hexponent, if_neg hexponent, if_neg hexponent]
          rfl

end Numeral

/-- A decimal is read as the nearest double, or as an infinity from the overflow on. -/
lemma Literal.exists_double (d : Literal) : ∃ x, Double.parse? d.chars = some x ∧
    (|d.value| < Double.overflow → x.IsNearest d.value) ∧
    (Double.overflow ≤ |d.value| → x.isFinite = false) := by
  have hpos := d.numeral.denominator_pos
  have hratio := d.numeral.value_eq_ratio
  have hfactor : ((if (d.sign == .minus) = true then -1 else 1 : ℚ)) = d.sign.factor := by
    cases d.sign <;> simp [Sign.factor]
  have habs : |d.value| = d.numeral.numerator / d.numeral.denominator := by
    have hone : |(d.sign.factor : ℚ)| = 1 := by cases d.sign <;> simp [Sign.factor]
    rw [d.value_eq, abs_mul, hone, one_mul, hratio, abs_of_nonneg (by positivity)]
  refine ⟨_, d.parse?_chars, fun hlt => ?_, fun hle => ?_⟩
  · rw [habs] at hlt
    have hnearest := Double.isNearest_ofRatio (d.sign == .minus) hpos hlt
    rwa [hfactor, ← hratio, ← d.value_eq, ← Numeral.toDouble_eq] at hnearest
  · rw [Numeral.toDouble_eq, Bool.eq_false_iff, Ne, Double.isFinite_ofRatio hpos, ← habs]
    exact not_lt.mpr hle

end Protobuf.Numeric
