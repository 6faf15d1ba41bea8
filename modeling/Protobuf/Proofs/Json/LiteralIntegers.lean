import Protobuf.Proofs.Json.Values
import Protobuf.Proofs.Numeric.Literal

/-!
# Integers from decimals

A decimal in a string is read as the integer it denotes if it has digits only and
fits in 128 bits. Every other decimal goes by way of the nearest double: a fraction
may vanish, digits beyond the precision of doubles are lost, and a number beyond
all doubles is not taken for a number. Integers of up to 53 bits, trailing zeros
aside, are safe in every notation.
-/

open Option

namespace Protobuf.Numeric

/-! ## Rounding at the ends of the integer types -/

namespace Width

variable {x : Double} {w : Width} {n m : ℤ}

/-- An integer above the greatest one of a type is rounded to another one above it. -/
lemma greatest_lt_of_isNearest (hx : x.IsNearest n) (hm : x.value = m) (hn : w.greatest < n) :
    w.greatest < m := by
  obtain ⟨y, hy, hvalue⟩ : ∃ y : Double, y.isFinite = true ∧ y.value = (w.greatest + 1 : ℤ) := by
    cases w with
    | int32 => exact Double.exists_value_eq (k := 1) (t := 31) (by decide) rfl (by decide +kernel)
    | uint32 => exact Double.exists_value_eq (k := 1) (t := 32) (by decide) rfl (by decide +kernel)
    | int64 => exact Double.exists_value_eq (k := 1) (t := 63) (by decide) rfl (by decide +kernel)
    | uint64 => exact Double.exists_value_eq (k := 1) (t := 64) (by decide) rfl (by decide +kernel)
  have hle := hx.le_value hy (by rw [hvalue]; exact_mod_cast hn)
  rw [hvalue, hm] at hle
  exact_mod_cast hle

/-- So is one below the least one, if the next integer below that is a double. -/
lemma lt_least_of_isNearest (hx : x.IsNearest n) (hm : x.value = m) (hw : w ≠ .int64)
    (hn : n < w.least) : m < w.least := by
  obtain ⟨y, hy, hvalue⟩ : ∃ y : Double, y.isFinite = true ∧ y.value = (w.least - 1 : ℤ) := by
    cases w with
    | int32 =>
      exact Double.exists_value_eq (k := 2 ^ 31 + 1) (t := 0) (by decide) rfl (by decide +kernel)
    | uint32 => exact Double.exists_value_eq (k := 1) (t := 0) (by decide) rfl (by decide +kernel)
    | int64 => exact absurd rfl hw
    | uint64 => exact Double.exists_value_eq (k := 1) (t := 0) (by decide) rfl (by decide +kernel)
  have hle := hx.value_le hy (by rw [hvalue]; exact_mod_cast Int.le_sub_one_of_lt hn)
  rw [hvalue, hm] at hle
  have hle' : m ≤ w.least - 1 := by exact_mod_cast hle
  omega

lemma magnitude_least_int64 (hx : x.value = (-2 ^ 63 : ℤ)) : x.magnitude % 2 = 0 := by
  have hunits := Double.units_of_value_eq hx
  have hknown : Format.double.units (1085 * 2 ^ 52 + 2 ^ 52) = 2 ^ 52 * 2 ^ 1085 :=
    Format.units_add (by decide) (by decide)
  have hsame : (-2 ^ 63 : ℤ).natAbs * 2 ^ Format.double.lowest = 2 ^ 52 * 2 ^ 1085 := by
    decide +kernel
  rw [Format.units_injective (hunits.trans (hsame.trans hknown.symm))]
  decide

/-- Below the least 64-bit integer, doubles are two to the power of eleven apart, and the one in
the middle of the first gap is rounded up. -/
lemma int64_of_isNearest (hx : x.IsNearest n) (hm : x.value = m) (hn : n < -2 ^ 63) :
    m ≤ -2 ^ 63 ∧ (-2 ^ 63 ≤ m ↔ -2 ^ 63 - 2 ^ 10 ≤ n) := by
  obtain ⟨y, hy, hvalue⟩ : ∃ y : Double, y.isFinite = true ∧ y.value = (-2 ^ 63 : ℤ) :=
    Double.exists_value_eq (k := 1) (t := 63) (by decide) (by decide) (by decide +kernel)
  obtain ⟨z, hz, hvalue'⟩ : ∃ z : Double, z.isFinite = true ∧ z.value = (-2 ^ 63 - 2 ^ 11 : ℤ) :=
    Double.exists_value_eq (k := 2 ^ 52 + 1) (t := 11) (by decide) (by decide) (by decide +kernel)
  have hnear : |n - m| ≤ |n - -2 ^ 63| := by
    have := hx.le y hy
    rw [hm, hvalue] at this
    exact_mod_cast this
  have hnear' : |n - m| ≤ |n - (-2 ^ 63 - 2 ^ 11)| := by
    have := hx.le z hz
    rw [hm, hvalue'] at this
    exact_mod_cast this
  have hgap : -2 ^ 63 ≤ m ∨ m ≤ -2 ^ 63 - 2 ^ 11 := by
    rcases x.abs_value_lt_or_dvd 11 with hlt | ⟨k, hk⟩
    · rw [hm] at hlt
      have hlt' : |m| < 2 ^ 52 * 2 ^ 11 := by exact_mod_cast hlt
      rw [abs_lt] at hlt'
      omega
    · rw [hm] at hk
      have hk' : m = k * 2 ^ 11 := by exact_mod_cast hk
      omega
  rw [Int.abs_eq_natAbs, Int.abs_eq_natAbs] at hnear hnear'
  refine ⟨by omega, ?_⟩
  constructor
  · intro hle
    omega
  · intro hle
    by_contra hlt
    -- Only the number in the middle is as near, and of its neighbours the upper one is even.
    have hmiddle : n = -2 ^ 63 - 2 ^ 10 := by omega
    have hlower : m = -2 ^ 63 - 2 ^ 11 := by omega
    have htie : |(n : ℚ) - x.value| = |(n : ℚ) - y.value| := by
      rw [hm, hvalue, hmiddle, hlower]
      norm_num
    have hne : x.value ≠ y.value := by
      rw [hm, hvalue, hlower]
      norm_num
    have hodd := (hx.even y hy htie hne).2
    have heven := magnitude_least_int64 hvalue
    omega

/-- An integer outside a type is rounded into the type only if it is less than half a step below
the least 64-bit integer, or in the middle. -/
lemma holds_of_isNearest (hx : x.IsNearest n) (hm : x.value = m) (hn : w.holds n = false) :
    w.holds m ↔ w = .int64 ∧ -2 ^ 63 - 2 ^ 10 ≤ n ∧ n < -2 ^ 63 := by
  rw [Bool.eq_false_iff, Ne, holds_iff, not_and_or, not_le, not_le] at hn
  rw [holds_iff]
  rcases hn with hn | hn
  · by_cases hw : w = .int64
    · subst hw
      have hleast : n < -2 ^ 63 := hn
      obtain ⟨hle, hiff⟩ := int64_of_isNearest hx hm hleast
      have hgreatest : m ≤ int64.greatest := hle.trans (by decide)
      rw [and_iff_left hgreatest, and_iff_left hleast, and_iff_right rfl]
      exact hiff
    · have hm' := lt_least_of_isNearest hx hm hw hn
      exact iff_of_false (fun h => by omega) fun h => hw h.1
  · have hm' := greatest_lt_of_isNearest hx hm hn
    have hpos : 0 ≤ w.greatest := by cases w <;> decide
    exact iff_of_false (fun h => by omega) fun h => by omega

end Width

end Protobuf.Numeric

namespace Protobuf.Json

open Numeric

/-- Only a sign and digits, of a number in 128 bits. -/
def ReadExactly (d : Literal) : Prop :=
  d.Plain ∧ wideLeast ≤ d.value ∧ d.value ≤ wideGreatest

/-- What a decimal is read as, whatever the type: the number it denotes, or that of the nearest
double. -/
def ReadAs (d : Literal) (n : ℤ) : Prop :=
  ReadExactly d ∧ d.value = n ∨
    ¬ ReadExactly d ∧ ∃ x : Double, x.IsNearest d.value ∧ x.value = n

/-- An integer held to 128 bits. -/
def clamp (n : ℤ) : ℤ :=
  max wideLeast (min wideGreatest n)

lemma clamp_eq {n : ℤ} (hleast : wideLeast ≤ n) (hgreatest : n ≤ wideGreatest) : clamp n = n := by
  unfold clamp
  omega

section

variable {d : Literal} {s : String} {w : Width} {n : ℤ}

lemma value_of_plain (h : d.Plain) : d.value = (d.sign.factor * d.whole.value : ℤ) := by
  obtain ⟨hfraction, hexponent⟩ := h
  have hpart : d.part.value = 0 := by
    rw [Literal.part, hfraction]
    rfl
  have hpower : d.power = 0 := by
    rw [Literal.power, hexponent]
    rfl
  rw [Literal.value, hpart, hpower]
  push_cast
  ring

lemma wideOfText?_of_not_readExactly (hs : Text.trimChars s.toList = d.chars)
    (h : ¬ ReadExactly d) : wideOfText? s = (Double.parse? d.chars).bind wideOfDouble? := by
  have hnone : (Text.integer? true d.chars).filter
      (fun n => wideLeast ≤ n && n ≤ wideGreatest) = none := by
    by_cases hplain : d.Plain
    · rw [d.integer?_of_plain hplain, filter_some, if_neg]
      intro hwide
      rw [Bool.and_eq_true, decide_eq_true_eq, decide_eq_true_eq] at hwide
      refine h ⟨hplain, ?_⟩
      rw [value_of_plain hplain]
      exact_mod_cast hwide
    · rw [d.integer?_of_not_plain hplain, filter_none]
  rw [wideOfText?, hs, hnone]

lemma wideOfText?_of_readAs (hs : Text.trimChars s.toList = d.chars) (h : ReadAs d n) :
    wideOfText? s = some (clamp n) := by
  rcases h with ⟨⟨hplain, hleast, hgreatest⟩, hvalue⟩ | ⟨hexactly, x, hx, hvalue⟩
  · rw [hvalue] at hleast hgreatest
    have hwide : wideLeast ≤ n ∧ n ≤ wideGreatest := by exact_mod_cast And.intro hleast hgreatest
    have hn : d.sign.factor * d.whole.value = n := by
      exact_mod_cast (value_of_plain hplain).symm.trans hvalue
    rw [wideOfText?, hs, d.integer?_of_plain hplain, hn, filter_some,
      if_pos (by simpa using hwide), clamp_eq hwide.1 hwide.2]
  · obtain ⟨y, hy, hnearest, -⟩ := d.exists_double
    have hsame := (hnearest hx.lt_overflow).value_unique hx
    have hinteger := Double.integer?_eq_some.mpr
      ⟨(hnearest hx.lt_overflow).finite, hsame.trans hvalue⟩
    rw [wideOfText?_of_not_readExactly hs hexactly, hy, bind_some, wideOfDouble?, hinteger]
    rfl

lemma wideOfText?_eq_none (hs : Text.trimChars s.toList = d.chars) (h : ∀ n, ¬ ReadAs d n) :
    wideOfText? s = none := by
  have hexactly : ¬ ReadExactly d := fun hexactly =>
    h _ (.inl ⟨hexactly, value_of_plain hexactly.1⟩)
  obtain ⟨x, hx, hnearest, hinfinite⟩ := d.exists_double
  rw [wideOfText?_of_not_readExactly hs hexactly, hx, bind_some, wideOfDouble?,
    map_eq_none_iff, eq_none_iff_forall_ne_some]
  intro n hn
  obtain ⟨hfinite, hvalue⟩ := Double.integer?_eq_some.mp hn
  have hlt : |d.value| < Double.overflow := by
    by_contra hge
    rw [hinfinite (not_lt.mp hge)] at hfinite
    cases hfinite
  exact h n (.inr ⟨hexactly, x, hnearest hlt, hvalue⟩)

lemma wide_of_holds_strict (hn : w.holds n) : wideLeast < n ∧ n < wideGreatest := by
  rw [Numeric.Width.holds_iff] at hn
  have hleast : wideLeast < w.least := by cases w <;> decide
  have hgreatest : w.greatest < wideGreatest := by cases w <;> decide
  omega

lemma toInteger_of_readAs (hs : Text.trimChars s.toList = d.chars) (h : ReadAs d n) (w : Width) :
    toInteger w (.string s) =
      if w.holds n then .ok n else .error (.outOfRange (clamp n) w) := by
  have hwide : toInteger w (.string s) =
      if w.holds (clamp n) then .ok (clamp n) else .error (.outOfRange (clamp n) w) := by
    rw [toInteger, toWide, wideOfText?_of_readAs hs h]
    rfl
  by_cases hn : w.holds n
  · obtain ⟨hleast, hgreatest⟩ := wide_of_holds hn
    rw [hwide, clamp_eq hleast hgreatest]
  · have hclamp : ¬ w.holds (clamp n) := by
      intro hholds
      have hsame : clamp n = n := by
        have := wide_of_holds_strict hholds
        unfold clamp at this ⊢
        omega
      exact hn (hsame ▸ hholds)
    rw [hwide, if_neg hclamp, if_neg hn]

lemma toInteger_of_not_readAs (hs : Text.trimChars s.toList = d.chars) (h : ∀ n, ¬ ReadAs d n)
    (w : Width) : toInteger w (.string s) = .error (.unexpected .integer (.string s)) := by
  rw [toInteger, toWide, wideOfText?_eq_none hs h]
  rfl

lemma readAs_of_value_eq {x : Double} (hx : x.isFinite) (hvalue : x.value = n)
    (hd : d.value = n) : ReadAs d n := by
  by_cases hexactly : ReadExactly d
  · exact .inl ⟨hexactly, hd⟩
  · refine .inr ⟨hexactly, x, ?_, hvalue⟩
    rw [hd, ← hvalue]
    exact Double.isNearest_value hx

lemma toInteger_eq_ok (hs : Text.trimChars s.toList = d.chars) :
    toInteger w (.string s) = .ok n ↔ w.holds n ∧ ReadAs d n := by
  constructor
  · intro hok
    by_cases h : ∃ m, ReadAs d m
    · obtain ⟨m, hm⟩ := h
      rw [toInteger_of_readAs hs hm w] at hok
      split_ifs at hok with hholds
      cases hok
      exact ⟨hholds, hm⟩
    · rw [toInteger_of_not_readAs hs (not_exists.mp h) w] at hok
      cases hok
  · rintro ⟨hholds, hread⟩
    rw [toInteger_of_readAs hs hread w, if_pos hholds]

lemma toInteger_eq_outOfRange (hs : Text.trimChars s.toList = d.chars) :
    (∃ m, toInteger w (.string s) = .error (.outOfRange m w)) ↔
      ∃ m, w.holds m = false ∧ ReadAs d m := by
  constructor
  · rintro ⟨bound, herror⟩
    by_cases h : ∃ m, ReadAs d m
    · obtain ⟨m, hm⟩ := h
      rw [toInteger_of_readAs hs hm w] at herror
      split_ifs at herror with hholds
      exact ⟨m, Bool.eq_false_iff.mpr hholds, hm⟩
    · rw [toInteger_of_not_readAs hs (not_exists.mp h) w] at herror
      cases herror
  · rintro ⟨m, hholds, hread⟩
    refine ⟨clamp m, ?_⟩
    rw [toInteger_of_readAs hs hread w, if_neg (by rw [hholds]; exact Bool.false_ne_true)]

/-- An integer of a type is read as it is from digits alone, and in another notation if and only
if it is a double. -/
lemma readAs_iff_of_holds (hd : d.value = n) (hn : w.holds n) :
    ReadAs d n ↔ d.Plain ∨ ∃ k t, k < 2 ^ 53 ∧ n.natAbs = k * 2 ^ t := by
  constructor
  · rintro (⟨hexactly, -⟩ | ⟨-, x, -, hvalue⟩)
    · exact .inl hexactly.1
    · exact .inr (Double.exists_of_value_eq hvalue)
  · rintro (hplain | ⟨k, t, hk, hbits⟩)
    · refine .inl ⟨⟨hplain, ?_⟩, hd⟩
      rw [hd]
      exact_mod_cast wide_of_holds hn
    · have hsmall : n.natAbs < 2 ^ 900 := by
        have hwide := wide_of_holds hn
        have hlt : n.natAbs < 2 ^ 128 := by
          unfold wideLeast wideGreatest at hwide
          omega
        exact hlt.trans (by decide +kernel)
      obtain ⟨x, hx, hvalue⟩ := Double.exists_value_eq hk hbits hsmall
      exact readAs_of_value_eq hx hvalue hd

/-- An integer outside a type is read as another one outside it, unless its nearest double is in
the type or there is none. -/
lemma exists_readAs_iff_of_not_holds (hd : d.value = n) (hn : w.holds n = false) :
    (∃ m, w.holds m = false ∧ ReadAs d m) ↔ ReadExactly d ∨
      |d.value| < Double.overflow ∧ ¬ (w = .int64 ∧ -2 ^ 63 - 2 ^ 10 ≤ n ∧ n < -2 ^ 63) := by
  by_cases hexactly : ReadExactly d
  · exact iff_of_true ⟨n, hn, .inl ⟨hexactly, hd⟩⟩ (.inl hexactly)
  · rw [or_iff_right hexactly]
    constructor
    · rintro ⟨m, hm, ⟨h, -⟩ | ⟨-, x, hx, hvalue⟩⟩
      · exact absurd h hexactly
      · refine ⟨hx.lt_overflow, ?_⟩
        rw [hd] at hx
        rw [← Width.holds_of_isNearest hx hvalue hn, hm]
        exact Bool.false_ne_true
    · rintro ⟨hlt, hrange⟩
      obtain ⟨x, -, hnearest, -⟩ := d.exists_double
      have hx := hnearest hlt
      obtain ⟨m, hvalue⟩ := (hd ▸ hx).exists_int
      refine ⟨m, ?_, .inr ⟨hexactly, x, hx, hvalue⟩⟩
      rw [hd] at hx
      rwa [← Width.holds_of_isNearest hx hvalue hn, ← Ne, ← Bool.eq_false_iff] at hrange

end

/-- What an integer type makes of a decimal in a string: the number that it is read as, or a
failure. Integers are read as they are from digits alone, or if they are doubles. -/
theorem toInteger_literal (d : Literal) {s : String} (hs : Text.trimChars s.toList = d.chars)
    (w : Width) :
    (∀ n, ReadAs d n → toInteger w (.string s) =
      if w.holds n then .ok n else .error (.outOfRange (clamp n) w)) ∧
    ((∀ n, ¬ ReadAs d n) →
      toInteger w (.string s) = .error (.unexpected .integer (.string s))) ∧
    (∀ n : ℤ, d.value = n → w.holds n = true →
      (toInteger w (.string s) = .ok n ↔
        d.Plain ∨ ∃ k t, k < 2 ^ 53 ∧ n.natAbs = k * 2 ^ t)) ∧
    ∀ n : ℤ, d.value = n → w.holds n = false →
      ((∃ m, toInteger w (.string s) = .error (.outOfRange m w)) ↔ ReadExactly d ∨
        |d.value| < Double.overflow ∧ ¬ (w = .int64 ∧ -2 ^ 63 - 2 ^ 10 ≤ n ∧ n < -2 ^ 63)) := by
  refine ⟨fun n h => toInteger_of_readAs hs h w, fun h => toInteger_of_not_readAs hs h w,
    fun n hd hn => ?_, fun n hd hn => ?_⟩
  · rw [toInteger_eq_ok hs, and_iff_right hn, readAs_iff_of_holds hd hn]
  · rw [toInteger_eq_outOfRange hs, exists_readAs_iff_of_not_holds hd hn]

/-- Twelve, written with a sign and an exponent. -/
private def twelve : Literal where
  sign := .plus
  whole := ⟨['1', '2', '0'], List.all_eq_true.mp rfl⟩
  fraction := none
  exponent := some ⟨'E', .minus, ⟨['1'], List.all_eq_true.mp rfl⟩, .inr rfl, by decide⟩
  ne_nil := by decide

theorem toInteger_literal_twelve :
    Text.trimChars " +120E-1 ".toList = twelve.chars ∧ twelve.value = 12 ∧
      toInteger .uint32 (.string " +120E-1 ") = .ok 12 := by
  have hchars : Text.trimChars " +120E-1 ".toList = twelve.chars := by decide +kernel
  have hwhole : twelve.whole.value = 120 := by decide +kernel
  have hpart : twelve.part.value = 0 := by decide +kernel
  have hpower : twelve.power = -1 := by decide +kernel
  have hvalue : twelve.value = 12 := by
    rw [Literal.value, hwhole, hpart, hpower]
    norm_num [twelve, Sign.factor]
  refine ⟨hchars, hvalue, ?_⟩
  obtain ⟨-, -, hread, -⟩ := toInteger_literal twelve hchars .uint32
  exact (hread 12 (by exact_mod_cast hvalue) (by decide)).mpr
    (.inr ⟨12, 0, by decide, by decide⟩)

/-- A number of 54 bits, written with a point. -/
private def wideLiteral : Literal where
  sign := .none
  whole := ⟨"9007199254740993".toList, List.all_eq_true.mp (by decide +kernel)⟩
  fraction := some ⟨['0'], List.all_eq_true.mp rfl⟩
  exponent := none
  ne_nil := by decide +kernel

/-- The last digit of a number with a point is altered, a number that is not zero is read as zero,
and a number that is too large for every type is not taken for an integer. -/
theorem toInteger_alters :
    wideLiteral.chars = "9007199254740993.0".toList ∧ wideLiteral.value = 9007199254740993 ∧
      toInteger .int64 (.string "9007199254740993.0") = .ok 9007199254740992 ∧
      toInteger .int32 (.string "1e-400") = .ok 0 ∧
      toInteger .int64 (.string "1e400") = .error (.unexpected .integer (.string "1e400")) := by
  have hwhole : wideLiteral.whole.value = 9007199254740993 := by decide +kernel
  have hpart : wideLiteral.part.value = 0 := by decide +kernel
  refine ⟨by decide +kernel, ?_, by decide +kernel, by decide +kernel, by decide +kernel⟩
  rw [Literal.value, hwhole, hpart]
  norm_num [wideLiteral, Literal.power, Sign.factor]

end Protobuf.Json
