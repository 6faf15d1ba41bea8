import Mathlib
import Protobuf.Numeric.Double

/-!
# Exact conversions between formats

Rounding a ratio that is the value of some finite magnitude gives that magnitude.
Every finite single is the value of a double, so a single survives the way to the
double of its value and back, with all its bits.
-/

open Nat Protobuf.Numeric.Format

namespace Protobuf.Numeric

lemma roundDiv_mul {d : Nat} (hd : 0 < d) (q : Nat) : roundDiv (d * q) d = q := by
  have hlow : ¬ (d < 2 * 0 ∨ 2 * 0 = d ∧ q % 2 = 1) := by omega
  simp only [roundDiv, Nat.mul_div_cancel_left q hd, Nat.mul_mod_right, hlow, if_false]

lemma log2_mul_two_pow {k q : Nat} (hlow : 2 ^ k ≤ q) (hhigh : q < 2 ^ (k + 1)) (e : Nat) :
    Nat.log2 (q * 2 ^ e) = k + e := by
  have hq : 0 < q := Nat.lt_of_lt_of_le (Nat.two_pow_pos k) hlow
  have hne : q * 2 ^ e ≠ 0 := (Nat.mul_pos hq (Nat.two_pow_pos e)).ne'
  rw [log2_eq_iff hne, add_right_comm, pow_add, pow_add]
  exact ⟨Nat.mul_le_mul_right _ hlow, Nat.mul_lt_mul_of_pos_right hhigh (Nat.two_pow_pos e)⟩

namespace Format

variable {f : Format}

lemma units_of_lt {m : Nat} (hm : m < 2 ^ f.fraction) : f.units m = m := by
  have hfield : m / 2 ^ f.fraction = 0 := div_eq_of_lt hm
  simp [units, significand, scale, pow_eq, hfield]

/-- A normal magnitude counts units by its significand, with the leading bit, and its exponent
field. -/
lemma units_add {e q : Nat} (hlow : 2 ^ f.fraction ≤ q) (hhigh : q < 2 ^ (f.fraction + 1)) :
    f.units (e * 2 ^ f.fraction + q) = q * 2 ^ e := by
  have hpos : 0 < 2 ^ f.fraction := Nat.two_pow_pos _
  have hq : q / 2 ^ f.fraction = 1 := by
    rw [Nat.div_eq_iff hpos]
    rw [pow_succ] at hhigh
    omega
  have hmod : q % 2 ^ f.fraction = q - 2 ^ f.fraction := by
    have := div_add_mod q (2 ^ f.fraction)
    rw [hq] at this
    omega
  have hfield : (e * 2 ^ f.fraction + q) / 2 ^ f.fraction = e + 1 := by
    rw [mul_comm, mul_add_div hpos, hq]
  have hrest : (e * 2 ^ f.fraction + q) % 2 ^ f.fraction = q - 2 ^ f.fraction := by
    rw [mul_comm, mul_add_mod, hmod]
  have hsum : 2 ^ f.fraction + (q - 2 ^ f.fraction) = q := by omega
  simp [units, significand, scale, pow_eq, hfield, hrest, hsum]

lemma magnitude_cases (f : Format) (m : Nat) :
    m < 2 ^ f.fraction ∨
      ∃ e q, m = e * 2 ^ f.fraction + q ∧ 2 ^ f.fraction ≤ q ∧ q < 2 ^ (f.fraction + 1) := by
  by_cases hm : m < 2 ^ f.fraction
  · exact .inl hm
  · have hpos : 0 < 2 ^ f.fraction := Nat.two_pow_pos _
    have hdiv := div_add_mod m (2 ^ f.fraction)
    have hmod := mod_lt m hpos
    have hone : 1 ≤ m / 2 ^ f.fraction := div_pos (not_lt.mp hm) hpos
    refine .inr ⟨m / 2 ^ f.fraction - 1, 2 ^ f.fraction + m % 2 ^ f.fraction, ?_, by omega, ?_⟩
    · rw [Nat.sub_mul, Nat.one_mul, Nat.mul_comm]
      have hle := Nat.le_mul_of_pos_right (2 ^ f.fraction) hone
      omega
    · rw [pow_succ]
      omega

lemma ofRatio_eq {n d m : Nat} (hd : 0 < d) (hm : m < f.infinity)
    (h : n * 2 ^ f.lowest = d * f.units m) : f.ofRatio n d = m := by
  have hscaled : d * f.units m / d = f.units m := Nat.mul_div_cancel_left _ hd
  simp only [ofRatio, Nat.pow_eq, h, hscaled]
  rcases f.magnitude_cases m with hsmall | ⟨e, q, rfl, hlow, hhigh⟩
  · have hlog : Nat.log2 m - f.fraction = 0 := by
      by_cases hzero : m = 0
      · simp [hzero]
      · have := (Nat.log2_lt hzero).mpr hsmall
        omega
    simp only [units_of_lt hsmall, hlog, pow_zero, Nat.mul_one, Nat.zero_mul, Nat.zero_add,
      roundDiv_mul hd]
    omega
  · have hlog := log2_mul_two_pow hlow hhigh e
    have hsplit : d * (q * 2 ^ e) = d * 2 ^ e * q := by ring
    rw [units_add hlow hhigh, hlog, Nat.add_sub_cancel_left, hsplit,
      roundDiv_mul (Nat.mul_pos hd (Nat.two_pow_pos e))]
    omega

/-- A number of units with few enough bits before its trailing zeros is that of a magnitude. -/
lemma exists_units_eq {k t top : Nat} (hk : k < 2 ^ (f.fraction + 1))
    (htop : k * 2 ^ t < 2 ^ (f.fraction + top)) :
    ∃ m, m < (top + 1) * 2 ^ f.fraction ∧ f.units m = k * 2 ^ t := by
  have hpos : 0 < 2 ^ f.fraction := Nat.two_pow_pos _
  by_cases hsmall : k * 2 ^ t < 2 ^ f.fraction
  · refine ⟨k * 2 ^ t, ?_, units_of_lt hsmall⟩
    exact Nat.lt_of_lt_of_le hsmall (Nat.le_mul_of_pos_left _ (Nat.succ_pos top))
  · -- The leading bit is at `fraction + e`, and `e` trailing zeros go into the exponent.
    have hne : k * 2 ^ t ≠ 0 := by omega
    obtain ⟨e, he⟩ := Nat.exists_eq_add_of_le ((Nat.le_log2 hne).mpr (Nat.not_lt.mp hsmall))
    have hbits := (Nat.log2_eq_iff hne).mp he
    have het : e ≤ t := by
      have hlt : 2 ^ (f.fraction + e) < 2 ^ (f.fraction + 1 + t) := by
        rw [pow_add _ (f.fraction + 1)]
        exact Nat.lt_of_le_of_lt hbits.1 (Nat.mul_lt_mul_of_pos_right hk (Nat.two_pow_pos t))
      have := (Nat.pow_lt_pow_iff_right (by decide)).mp hlt
      omega
    have hetop : e < top := by
      have := (Nat.pow_lt_pow_iff_right (by decide)).mp (Nat.lt_of_le_of_lt hbits.1 htop)
      omega
    have hsplit : k * 2 ^ t = k * 2 ^ (t - e) * 2 ^ e := by
      rw [Nat.mul_assoc, ← pow_add, Nat.sub_add_cancel het]
    rw [hsplit, Nat.add_right_comm, pow_add, pow_add] at hbits
    have hlow := Nat.le_of_mul_le_mul_right hbits.1 (Nat.two_pow_pos e)
    have hhigh := Nat.lt_of_mul_lt_mul_right hbits.2
    refine ⟨e * 2 ^ f.fraction + k * 2 ^ (t - e), ?_, ?_⟩
    · rw [pow_succ] at hhigh
      nlinarith
    · rw [units_add hlow hhigh, hsplit]

lemma significand_lt (f : Format) (m : Nat) : f.significand m < 2 ^ (f.fraction + 1) := by
  have hpos : 0 < 2 ^ f.fraction := Nat.two_pow_pos _
  have hmod := mod_lt m hpos
  simp only [significand, pow_eq, pow_succ]
  split_ifs with hfield
  · have := (div_eq_zero_iff_lt hpos).mp hfield
    omega
  · omega

lemma one_pos (f : Format) : 0 < Nat.pow 2 f.lowest :=
  Nat.two_pow_pos f.lowest

lemma lowest_double : double.lowest = 925 + single.lowest := by
  decide

lemma exists_double_units {m : Nat} (hm : m < single.infinity) :
    ∃ wide, wide < double.infinity ∧ double.units wide = single.units m * 2 ^ 925 := by
  have hscale : single.scale m ≤ 253 := by
    have hfield : m / 2 ^ 23 < 255 := Nat.div_lt_of_lt_mul (Nat.lt_of_lt_of_eq hm (by decide))
    exact sub_le_of_le_add (le_of_lt_succ hfield)
  have hunits : single.units m * 2 ^ 925 = single.significand m * 2 ^ (single.scale m + 925) := by
    rw [pow_add, ← mul_assoc]
    rfl
  have hsignificand : single.significand m < 2 ^ 24 := single.significand_lt m
  have htop : single.significand m * 2 ^ (single.scale m + 925) < 2 ^ (double.fraction + 1150) :=
    calc single.significand m * 2 ^ (single.scale m + 925)
      _ < 2 ^ 24 * 2 ^ (single.scale m + 925) :=
        Nat.mul_lt_mul_of_pos_right hsignificand (Nat.two_pow_pos _)
      _ = 2 ^ (single.scale m + 949) := by rw [← pow_add, add_comm 24]
      _ ≤ 2 ^ (double.fraction + 1150) :=
        Nat.pow_le_pow_right (by decide) (Nat.add_le_add_right hscale 949)
  obtain ⟨wide, hwide, hvalue⟩ := exists_units_eq (f := double)
    (Nat.lt_of_lt_of_le hsignificand (Nat.pow_le_pow_right (by decide) (by decide))) htop
  exact ⟨wide, lt_of_lt_of_le hwide (by decide), hvalue.trans hunits.symm⟩

end Format

/-! ## Signs and magnitudes -/

namespace Double

lemma magnitude_ofMagnitude {negative : Bool} {m : Nat} (hm : m < 2 ^ 63) :
    (ofMagnitude negative m).magnitude = m := by
  have hlt : m + (if negative then 2 ^ 63 else 0) < UInt64.size := by
    cases negative <;> simp [UInt64.size] <;> omega
  rw [magnitude, ofMagnitude, pow_eq, UInt64.toNat_ofNat_of_lt' hlt]
  cases negative <;> simp <;> omega

lemma negative_ofMagnitude {negative : Bool} {m : Nat} (hm : m < 2 ^ 63) :
    (ofMagnitude negative m).negative = negative := by
  have hlt : m + (if negative then 2 ^ 63 else 0) < UInt64.size := by
    cases negative <;> simp [UInt64.size] <;> omega
  rw [Double.negative, ofMagnitude, pow_eq, UInt64.toNat_ofNat_of_lt' hlt]
  cases negative
  · simpa using hm
  · simp

lemma ofMagnitude_magnitude (x : Double) : ofMagnitude x.negative x.magnitude = x := by
  have hsum : x.magnitude + (if x.negative then 2 ^ 63 else 0) = x.bits.toNat := by
    have := x.bits.toNat_lt
    simp only [magnitude, negative, pow_eq, decide_eq_true_eq]
    split_ifs <;> omega
  rw [ofMagnitude, pow_eq, hsum, UInt64.ofNat_toNat]

end Double

lemma Single.ofMagnitude_magnitude (x : Single) : ofMagnitude x.negative x.magnitude = x := by
  have hsum : x.magnitude + (if x.negative then 2 ^ 31 else 0) = x.bits.toNat := by
    have := x.bits.toNat_lt
    simp only [magnitude, negative, pow_eq, decide_eq_true_eq]
    split_ifs <;> omega
  rw [ofMagnitude, pow_eq, hsum, UInt32.ofNat_toNat]

/-! ## Singles as doubles -/

namespace Single

/-- What the double of a single is: the same sign, and a magnitude of the same value. -/
lemma toDouble_eq (x : Single) (hx : x.magnitude < Format.single.infinity) :
    ∃ wide, x.toDouble = .ofMagnitude x.negative wide ∧ wide < Format.double.infinity ∧
      Format.double.units wide = Format.single.units x.magnitude * 2 ^ 925 := by
  obtain ⟨wide, hwide, hvalue⟩ := exists_double_units hx
  have hratio : double.ofRatio (single.units x.magnitude)
      (Nat.pow 2 Format.single.lowest) = wide := by
    refine ofRatio_eq single.one_pos hwide ?_
    rw [hvalue, lowest_double, pow_add, pow_eq, ← mul_assoc, mul_comm]
  refine ⟨wide, ?_, hwide, hvalue⟩
  rw [toDouble, if_neg (lt_asymm hx), if_neg hx.ne, Double.ofRatio, hratio]

lemma isNaN_toDouble (x : Single) : x.toDouble.isNaN = x.isNaN := by
  rcases lt_trichotomy x.magnitude single.infinity with hlt | heq | hgt
  · obtain ⟨wide, hdouble, hwide, -⟩ := x.toDouble_eq hlt
    rw [hdouble, Double.isNaN, Double.magnitude_ofMagnitude (lt_trans hwide (by decide)),
      isNaN, decide_eq_false (lt_asymm hwide), decide_eq_false (lt_asymm hlt)]
  · rw [toDouble, if_neg (by omega), if_pos heq, Double.isNaN, Double.infinity,
      Double.magnitude_ofMagnitude (by decide), isNaN, heq, decide_eq_false (lt_irrefl _),
      decide_eq_false (lt_irrefl _)]
  · have hpayload : x.magnitude % Nat.pow 2 22 < Nat.pow 2 22 := Nat.mod_lt _ (by decide)
    have hquiet : Format.double.infinity + Nat.pow 2 51 = 9221120237041090560 := by decide
    rw [toDouble, if_pos hgt, isNaN, decide_eq_true hgt, Double.isNaN, hquiet,
      Double.magnitude_ofMagnitude (by simp only [pow_eq] at *; omega)]
    exact decide_eq_true (lt_of_lt_of_le (by decide : _ < 9221120237041090560) (by omega))

/-- The way to the double of the same value and back keeps every bit of a number. -/
lemma toSingle_toDouble {x : Single} (hx : x.isNaN = false) : x.toDouble.toSingle = x := by
  have hle : x.magnitude ≤ single.infinity := by simpa [isNaN] using hx
  rcases lt_or_eq_of_le hle with hlt | heq
  · obtain ⟨wide, hdouble, hwide, hvalue⟩ := x.toDouble_eq hlt
    have hbits : wide < 2 ^ 63 := lt_trans hwide (by decide)
    have hratio : single.ofRatio (double.units wide)
        (Nat.pow 2 Format.double.lowest) = x.magnitude := by
      refine Format.ofRatio_eq Format.double.one_pos hlt ?_
      rw [hvalue, lowest_double, pow_eq, pow_add, mul_assoc, mul_comm]
    rw [hdouble, Double.toSingle, Double.magnitude_ofMagnitude hbits,
      Double.negative_ofMagnitude hbits, if_neg (lt_asymm hwide), if_neg hwide.ne, hratio,
      ofMagnitude_magnitude]
  · have hbits : double.infinity < 2 ^ 63 := by decide
    rw [toDouble, if_neg (by omega), if_pos heq, Double.infinity, Double.toSingle,
      Double.magnitude_ofMagnitude hbits, Double.negative_ofMagnitude hbits, if_neg (by omega),
      if_pos rfl, ← heq, ofMagnitude_magnitude]

end Single

end Protobuf.Numeric
