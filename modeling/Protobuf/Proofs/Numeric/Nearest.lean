import Protobuf.Proofs.Numeric.Rounding

/-!
# Correct rounding

The magnitude that rounding gives is the nearest one among all finite magnitudes,
and of two nearest ones the even one. A ratio from half a step above the greatest
finite magnitude on has none and becomes infinity.
-/

namespace Protobuf.Numeric

/-! ## Nearest integers -/

/-- Rounding is off by half the divisor at most, and by so much only towards an even number. -/
lemma roundDiv_bounds {n d : ℕ} (hd : 0 < d) :
    2 * n ≤ 2 * (roundDiv n d * d) + d ∧ 2 * (roundDiv n d * d) ≤ 2 * n + d ∧
      (2 * n = 2 * (roundDiv n d * d) + d ∨ 2 * (roundDiv n d * d) = 2 * n + d →
        roundDiv n d % 2 = 0) := by
  have hdiv := Nat.div_add_mod n d
  have hmod := Nat.mod_lt n hd
  rw [Nat.mul_comm] at hdiv
  unfold roundDiv
  dsimp only
  split_ifs with hup
  · rw [Nat.add_mul (n / d), Nat.one_mul]
    omega
  · omega

/-- Rounding is off by a half at most, and by a half only towards an even number. -/
lemma roundDiv_error {n d : ℕ} (hd : 0 < d) :
    |(n / d : ℚ) - roundDiv n d| ≤ 1 / 2 ∧
      (|(n / d : ℚ) - roundDiv n d| = 1 / 2 → roundDiv n d % 2 = 0) := by
  obtain ⟨hlow, hhigh, heven⟩ := roundDiv_bounds (n := n) hd
  have hdq : (0 : ℚ) < d := by exact_mod_cast hd
  have hlow' : (2 : ℚ) * n ≤ 2 * (roundDiv n d * d) + d := by exact_mod_cast hlow
  have hhigh' : (2 : ℚ) * (roundDiv n d * d) ≤ 2 * n + d := by exact_mod_cast hhigh
  have hn : (n : ℚ) = n / d * d := (div_mul_cancel₀ _ hdq.ne').symm
  constructor
  · rw [abs_le]
    constructor <;> nlinarith
  · intro hhalf
    refine heven ?_
    rcases (abs_eq (by norm_num)).mp hhalf with heq | heq
    · refine .inl ?_
      have : (2 : ℚ) * n = 2 * (roundDiv n d * d) + d := by
        rw [hn, sub_eq_iff_eq_add.mp heq]
        ring
      exact_mod_cast this
    · refine .inr ?_
      have : (2 : ℚ) * (roundDiv n d * d) = 2 * n + d := by
        rw [hn, sub_eq_iff_eq_add.mp heq]
        ring
      exact_mod_cast this

/-- An integer that is off by a half at most is a nearest one. Another one is as near only if it
is a neighbour. -/
lemma nearest_of_error_le {r : ℚ} {k k' : ℕ} (h : |r - k| ≤ 1 / 2) (hne : k' ≠ k) :
    |r - k| ≤ |r - k'| ∧
      (|r - k| = |r - k'| → |r - k| = 1 / 2 ∧ (k' = k + 1 ∨ k = k' + 1)) := by
  have htriangle : |(k : ℚ) - k'| ≤ |r - k| + |r - k'| := by
    rw [abs_sub_comm r k]
    exact abs_sub_le ..
  have hapart : (1 : ℤ) ≤ |(k : ℤ) - k'| := Int.one_le_abs (by omega)
  have hapart' : (1 : ℚ) ≤ |(k : ℚ) - k'| := by exact_mod_cast hapart
  refine ⟨by linarith, fun heq => ⟨by linarith, ?_⟩⟩
  have hnear : |(k : ℚ) - k'| ≤ 1 := by linarith
  have hnear' : |(k : ℤ) - k'| ≤ 1 := by exact_mod_cast hnear
  rw [abs_le] at hnear'
  omega

namespace Format

variable {f : Format}

/-! ## Magnitudes and their units -/

lemma units_injective {m m' : ℕ} (h : f.units m = f.units m') : m = m' := by
  have hlarge {e q : ℕ} (hlow : 2 ^ f.fraction ≤ q) : 2 ^ f.fraction ≤ q * 2 ^ e :=
    hlow.trans (Nat.le_mul_of_pos_right _ (Nat.two_pow_pos e))
  rcases f.magnitude_cases m with hsmall | ⟨e, q, rfl, hlow, hhigh⟩ <;>
    rcases f.magnitude_cases m' with hsmall' | ⟨e', q', rfl, hlow', hhigh'⟩
  · rwa [units_of_lt hsmall, units_of_lt hsmall'] at h
  · rw [units_of_lt hsmall, units_add hlow' hhigh'] at h
    exact absurd (h ▸ hsmall) (Nat.not_lt.mpr (hlarge hlow'))
  · rw [units_of_lt hsmall', units_add hlow hhigh] at h
    exact absurd (h ▸ hsmall') (Nat.not_lt.mpr (hlarge hlow))
  · rw [units_add hlow hhigh, units_add hlow' hhigh'] at h
    -- Both have their leading bit at the same place.
    have hlog := log2_mul_two_pow hlow hhigh e
    rw [h, log2_mul_two_pow hlow' hhigh' e'] at hlog
    obtain rfl : e' = e := by omega
    rw [Nat.eq_of_mul_eq_mul_right (Nat.two_pow_pos _) h]

lemma units_shift {s k : ℕ} (hhigh : k ≤ 2 ^ (f.fraction + 1))
    (hlow : s = 0 ∨ 2 ^ f.fraction ≤ k) : f.units (s * 2 ^ f.fraction + k) = k * 2 ^ s := by
  rcases hhigh.lt_or_eq with hlt | rfl
  · by_cases hnormal : 2 ^ f.fraction ≤ k
    · exact units_add hnormal hlt
    · obtain rfl := hlow.resolve_right hnormal
      rw [Nat.zero_mul, Nat.zero_add, units_of_lt (Nat.not_le.mp hnormal), pow_zero, Nat.mul_one]
  · -- A carry out of the fraction bits.
    have hcarry : s * 2 ^ f.fraction + 2 ^ (f.fraction + 1) =
        (s + 1) * 2 ^ f.fraction + 2 ^ f.fraction := by ring
    rw [hcarry, units_add le_rfl (Nat.pow_lt_pow_right (by decide) (Nat.lt_succ_self _))]
    ring

lemma units_lt_or_dvd (f : Format) (m s : ℕ) :
    f.units m < 2 ^ f.fraction * 2 ^ s ∨ ∃ k, f.units m = k * 2 ^ s := by
  rcases f.magnitude_cases m with hsmall | ⟨e, q, rfl, hlow, hhigh⟩
  · rw [units_of_lt hsmall]
    exact .inl (hsmall.trans_le (Nat.le_mul_of_pos_right _ (Nat.two_pow_pos s)))
  · rw [units_add hlow hhigh]
    by_cases hes : s ≤ e
    · refine .inr ⟨q * 2 ^ (e - s), ?_⟩
      rw [Nat.mul_assoc, ← pow_add, Nat.sub_add_cancel hes]
    · left
      calc q * 2 ^ e
        _ < 2 ^ (f.fraction + 1) * 2 ^ e := Nat.mul_lt_mul_of_pos_right hhigh (Nat.two_pow_pos e)
        _ = 2 ^ f.fraction * 2 ^ (e + 1) := by ring
        _ ≤ 2 ^ f.fraction * 2 ^ s :=
          Nat.mul_le_mul_left _ (Nat.pow_le_pow_right (by decide) (by omega))

/-! ## Rounding to a magnitude -/

/-- At the exponent of a number of units, the steps counted are as many as the number has, give
or take a half. -/
structure RoundsAt (f : Format) (r : ℚ) (s k : ℕ) : Prop where
  error : |r / 2 ^ s - k| ≤ 1 / 2
  normal : s = 0 ∨ 2 ^ f.fraction ≤ r / 2 ^ s
  lt : r / 2 ^ s < 2 ^ (f.fraction + 1)

section

variable {r : ℚ} {s k : ℕ}

lemma RoundsAt.le (h : f.RoundsAt r s k) : k ≤ 2 ^ (f.fraction + 1) := by
  have herror := (abs_le.mp h.error).1
  have hlt := h.lt
  have hk : (k : ℚ) < (2 ^ (f.fraction + 1) : ℕ) + 1 := by
    push_cast
    linarith
  have hk' : k < 2 ^ (f.fraction + 1) + 1 := by exact_mod_cast hk
  omega

lemma RoundsAt.normal_le (h : f.RoundsAt r s k) : s = 0 ∨ 2 ^ f.fraction ≤ k := by
  refine h.normal.imp_right fun hnormal => ?_
  have herror := (abs_le.mp h.error).2
  have hk : ((2 ^ f.fraction : ℕ) : ℚ) < k + 1 := by
    push_cast
    linarith
  have hk' : 2 ^ f.fraction < k + 1 := by exact_mod_cast hk
  omega

lemma RoundsAt.units (h : f.RoundsAt r s k) : f.units (s * 2 ^ f.fraction + k) = k * 2 ^ s :=
  units_shift h.le h.normal_le

lemma abs_sub_mul_two_pow (r : ℚ) (s k : ℕ) :
    |r - (k * 2 ^ s : ℕ)| = |r / 2 ^ s - k| * 2 ^ s := by
  have hpos : (0 : ℚ) < 2 ^ s := by positivity
  rw [← abs_of_pos hpos, ← abs_mul, abs_of_pos hpos, sub_mul, div_mul_cancel₀ _ hpos.ne']
  push_cast
  rfl

/-- The magnitude is a nearest one. Another one is as near only if it is odd and this one even. -/
lemma RoundsAt.nearest (h : f.RoundsAt r s k) (heven : |r / 2 ^ s - k| = 1 / 2 → k % 2 = 0)
    (hfraction : 0 < f.fraction) {m : ℕ} (hne : m ≠ s * 2 ^ f.fraction + k) :
    |r - f.units (s * 2 ^ f.fraction + k)| ≤ |r - f.units m| ∧
      (|r - f.units (s * 2 ^ f.fraction + k)| = |r - f.units m| →
        (s * 2 ^ f.fraction + k) % 2 = 0 ∧ m % 2 = 1) := by
  have hpos : (0 : ℚ) < 2 ^ s := by positivity
  rw [h.units, abs_sub_mul_two_pow]
  -- A multiple of the step is compared by the number of steps.
  have hsteps (k' : ℕ) (hm : f.units m = k' * 2 ^ s) :
      |r / 2 ^ s - k| * 2 ^ s ≤ |r - f.units m| ∧
        (|r / 2 ^ s - k| * 2 ^ s = |r - f.units m| →
          (s * 2 ^ f.fraction + k) % 2 = 0 ∧ m % 2 = 1) := by
    have hkk : k' ≠ k := by
      rintro rfl
      exact hne (units_injective (hm.trans h.units.symm))
    obtain ⟨hle, htie⟩ := nearest_of_error_le h.error hkk
    rw [hm, abs_sub_mul_two_pow]
    refine ⟨mul_le_mul_of_nonneg_right hle hpos.le, fun heq => ?_⟩
    have hsame := mul_right_cancel₀ hpos.ne' heq
    obtain ⟨hhalf, hneighbour⟩ := htie hsame
    have hk := heven hhalf
    have h' : f.RoundsAt r s k' := ⟨(hsame.symm.trans hhalf).le, h.normal, h.lt⟩
    have hstep : s * 2 ^ f.fraction % 2 = 0 := by
      obtain ⟨t, ht⟩ := Nat.exists_eq_succ_of_ne_zero hfraction.ne'
      rw [ht, pow_succ, ← Nat.mul_assoc, Nat.mul_mod_left]
    rw [units_injective (hm.trans h'.units.symm)]
    omega
  rcases f.units_lt_or_dvd m s with hlt | ⟨k', hm⟩
  · rcases h.normal with rfl | hnormal
    · exact hsteps (f.units m) (by rw [pow_zero, Nat.mul_one])
    · -- Below the exponent every magnitude is farther away than its first one.
      have hfar : |r / 2 ^ s - k| * 2 ^ s < |r - f.units m| := by
        have hfirst : |r / 2 ^ s - k| ≤ |r / 2 ^ s - (2 ^ f.fraction : ℕ)| := by
          by_cases hk : 2 ^ f.fraction = k
          · rw [hk]
          · exact (nearest_of_error_le h.error hk).1
        calc |r / 2 ^ s - k| * 2 ^ s
          _ ≤ |r / 2 ^ s - (2 ^ f.fraction : ℕ)| * 2 ^ s :=
            mul_le_mul_of_nonneg_right hfirst hpos.le
          _ = |r - (2 ^ f.fraction * 2 ^ s : ℕ)| := (abs_sub_mul_two_pow ..).symm
          _ < |r - f.units m| := by
            have hlt' : (f.units m : ℚ) < (2 ^ f.fraction * 2 ^ s : ℕ) := by exact_mod_cast hlt
            have hle : ((2 ^ f.fraction * 2 ^ s : ℕ) : ℚ) ≤ r := by
              push_cast
              exact (le_div_iff₀ hpos).mp hnormal
            rw [abs_of_nonneg (by linarith), abs_of_nonneg (by linarith)]
            linarith
      exact ⟨hfar.le, fun heq => absurd heq hfar.ne⟩
  · exact hsteps k' hm

/-- A number from half a step above the greatest magnitude with exponent `top` on is rounded to
the first one with the next exponent, or beyond. -/
lemma RoundsAt.lt_iff (h : f.RoundsAt r s k) (heven : |r / 2 ^ s - k| = 1 / 2 → k % 2 = 0)
    (top : ℕ) : s * 2 ^ f.fraction + k < top * 2 ^ f.fraction + 2 ^ (f.fraction + 1) ↔
      r < (2 ^ (f.fraction + 1) - 1 / 2) * 2 ^ top := by
  have hpos : (0 : ℚ) < 2 ^ s := by positivity
  have hone : (1 : ℚ) ≤ 2 ^ f.fraction := one_le_pow₀ (by norm_num)
  have htop : (0 : ℚ) < 2 ^ top := by positivity
  rcases Nat.lt_trichotomy s top with hs | rfl | hs
  · have hle := h.le
    have hstep : (2 : ℚ) ^ (s + 1) ≤ 2 ^ top := pow_le_pow_right₀ (by norm_num) hs
    refine iff_of_true ?_ ?_
    · calc s * 2 ^ f.fraction + k
        _ < (s + 1) * 2 ^ f.fraction + 2 ^ (f.fraction + 1) := by
          rw [Nat.add_mul, Nat.one_mul]
          have := Nat.two_pow_pos f.fraction
          omega
        _ ≤ top * 2 ^ f.fraction + 2 ^ (f.fraction + 1) :=
          Nat.add_le_add_right (Nat.mul_le_mul_right _ hs) _
    · calc r
        _ < 2 ^ (f.fraction + 1) * 2 ^ s := (div_lt_iff₀ hpos).mp h.lt
        _ = 2 ^ f.fraction * 2 ^ (s + 1) := by ring
        _ ≤ 2 ^ f.fraction * 2 ^ top := mul_le_mul_of_nonneg_left hstep (by positivity)
        _ ≤ (2 ^ (f.fraction + 1) - 1 / 2) * 2 ^ top := by
          rw [pow_succ]
          exact mul_le_mul_of_nonneg_right (by linarith) htop.le
  · rw [← div_lt_iff₀ hpos, Nat.add_lt_add_iff_left]
    obtain ⟨hlow, hhigh⟩ := abs_le.mp h.error
    constructor
    · intro hk
      have hk' : (k : ℚ) ≤ 2 ^ (f.fraction + 1) - 1 := by
        have : ((k + 1 : ℕ) : ℚ) ≤ (2 ^ (f.fraction + 1) : ℕ) := by exact_mod_cast hk
        push_cast at this
        linarith
      by_contra hge
      -- The number lies in the middle, and the lower neighbour is odd.
      have hodd : (k : ℚ) + 1 = 2 ^ (f.fraction + 1) := by linarith
      have hodd' : k + 1 = 2 ^ (f.fraction + 1) := by exact_mod_cast hodd
      have hhalf := heven (by rw [abs_of_nonneg (by linarith)]; linarith)
      rw [pow_succ] at hodd'
      omega
    · intro hr
      have hk : (k : ℚ) < (2 ^ (f.fraction + 1) : ℕ) := by
        push_cast
        linarith
      exact_mod_cast hk
  · have hs' : s ≠ 0 := by omega
    have hlow := h.normal_le.resolve_left hs'
    have hnormal := h.normal.resolve_left hs'
    have hstep : (2 : ℚ) ^ (top + 1) ≤ 2 ^ s := pow_le_pow_right₀ (by norm_num) hs
    refine iff_of_false (Nat.not_lt.mpr ?_) (not_lt.mpr ?_)
    · calc top * 2 ^ f.fraction + 2 ^ (f.fraction + 1)
        _ = (top + 1) * 2 ^ f.fraction + 2 ^ f.fraction := by ring
        _ ≤ s * 2 ^ f.fraction + k := Nat.add_le_add (Nat.mul_le_mul_right _ hs) hlow
    · calc (2 ^ (f.fraction + 1) - 1 / 2) * 2 ^ top
        _ ≤ 2 ^ (f.fraction + 1) * 2 ^ top := mul_le_mul_of_nonneg_right (by linarith) htop.le
        _ = 2 ^ f.fraction * 2 ^ (top + 1) := by ring
        _ ≤ 2 ^ f.fraction * 2 ^ s := mul_le_mul_of_nonneg_left hstep (by positivity)
        _ ≤ r := (le_div_iff₀ hpos).mp hnormal

lemma exists_roundsAt (f : Format) {n d : ℕ} (hd : 0 < d) :
    ∃ s k, f.RoundsAt (n * 2 ^ f.lowest / d) s k ∧
      (|(n * 2 ^ f.lowest / d : ℚ) / 2 ^ s - k| = 1 / 2 → k % 2 = 0) ∧
      f.ofRatio n d = min f.infinity (s * 2 ^ f.fraction + k) := by
  have hdq : (0 : ℚ) < d := by exact_mod_cast hd
  set whole := n * 2 ^ f.lowest / d with hwhole
  set s := Nat.log2 whole - f.fraction with hs
  have hstep : 0 < d * 2 ^ s := Nat.mul_pos hd (Nat.two_pow_pos s)
  have hcast : ((n * 2 ^ f.lowest : ℕ) / (d * 2 ^ s : ℕ) : ℚ) = n * 2 ^ f.lowest / d / 2 ^ s := by
    push_cast
    rw [div_div]
  obtain ⟨herror, heven⟩ := roundDiv_error (n := n * 2 ^ f.lowest) hstep
  rw [hcast] at herror heven
  refine ⟨s, roundDiv (n * 2 ^ f.lowest) (d * 2 ^ s), ⟨herror, ?_, ?_⟩, heven, rfl⟩
  · by_cases hzero : s = 0
    · exact .inl hzero
    · have hne : whole ≠ 0 := by
        intro h0
        rw [h0] at hs
        exact hzero (by simpa using hs)
      have hlog : f.fraction + s = Nat.log2 whole := by omega
      have hle : 2 ^ f.fraction * 2 ^ s ≤ whole := by
        rw [← pow_add, hlog]
        exact Nat.log2_self_le hne
      have hle' := (Nat.le_div_iff_mul_le hd).mp hle
      refine .inr ((le_div_iff₀ (by positivity)).mpr ((le_div_iff₀ hdq).mpr ?_))
      exact_mod_cast hle'
  · have hlt : whole < 2 ^ (f.fraction + 1) * 2 ^ s := by
      rw [← pow_add]
      exact Nat.lt_of_lt_of_le Nat.lt_log2_self (Nat.pow_le_pow_right (by decide) (by omega))
    have hlt' := (Nat.div_lt_iff_lt_mul hd).mp hlt
    refine (div_lt_iff₀ (by positivity)).mpr ((div_lt_iff₀ hdq).mpr ?_)
    exact_mod_cast hlt'

end

end Format

/-! ## Doubles -/

namespace Double

def value (x : Double) : ℚ :=
  (if x.negative then -1 else 1) * (Format.double.units x.magnitude / 2 ^ Format.double.lowest)

/-- Half a step above the greatest finite double. -/
def overflow : ℚ := 2 ^ 1024 - 2 ^ 970

/-- A double is the rounding of a number: no finite double is nearer, and one that is as near and
differs is odd, while this one is even. -/
structure IsNearest (x : Double) (q : ℚ) : Prop where
  finite : x.isFinite = true
  lt_overflow : |q| < overflow
  le : ∀ y : Double, y.isFinite = true → |q - x.value| ≤ |q - y.value|
  even : ∀ y : Double, y.isFinite = true → |q - x.value| = |q - y.value| → x.value ≠ y.value →
    x.magnitude % 2 = 0 ∧ y.magnitude % 2 = 1

section

variable {x y : Double} {q : ℚ}

lemma IsNearest.value_unique (hx : x.IsNearest q) (hy : y.IsNearest q) : x.value = y.value := by
  by_contra hne
  have heq : |q - x.value| = |q - y.value| :=
    le_antisymm (hx.le y hy.finite) (hy.le x hx.finite)
  have hxeven := (hx.even y hy.finite heq hne).1
  have hxodd := (hy.even x hx.finite heq.symm (Ne.symm hne)).2
  omega

lemma abs_sign (negative : Bool) : |(if negative then -1 else 1 : ℚ)| = 1 := by
  cases negative <;> norm_num

lemma abs_value (x : Double) :
    |x.value| = Format.double.units x.magnitude / 2 ^ Format.double.lowest := by
  have hnonneg : (0 : ℚ) ≤ Format.double.units x.magnitude / 2 ^ Format.double.lowest := by
    positivity
  rw [value, abs_mul, abs_sign, one_mul, abs_of_nonneg hnonneg]

lemma value_zero : zero.value = 0 := by
  have hunits : Format.double.units zero.magnitude = 0 := Format.units_of_lt (by decide)
  rw [value, hunits, Nat.cast_zero, zero_div, mul_zero]

lemma units_of_value_eq {n : ℤ} (hn : x.value = n) :
    Format.double.units x.magnitude = n.natAbs * 2 ^ Format.double.lowest := by
  have hpos : (0 : ℚ) < 2 ^ Format.double.lowest := by positivity
  have habs := x.abs_value
  rw [hn, eq_comm, div_eq_iff hpos.ne', ← Int.cast_abs, Int.abs_eq_natAbs] at habs
  exact_mod_cast habs

lemma integer?_eq_some {n : ℤ} : x.integer? = some n ↔ x.isFinite ∧ x.value = n := by
  have hpos : (0 : ℚ) < 2 ^ Format.double.lowest := by positivity
  unfold integer?
  by_cases hfinite : x.isFinite
  · rw [if_pos hfinite, and_iff_right hfinite]
    dsimp only
    by_cases hwhole : Format.double.units x.magnitude % Nat.pow 2 Format.double.lowest = 0
    · obtain ⟨t, ht⟩ := Nat.dvd_of_mod_eq_zero hwhole
      have ht' : (Format.double.units x.magnitude : ℚ) / 2 ^ Format.double.lowest = t := by
        rw [ht, div_eq_iff hpos.ne', Nat.pow_eq]
        push_cast
        ring
      rw [if_pos hwhole, value, ht', ht, Nat.cast_mul, Int.mul_ediv_cancel_left, Option.some_inj]
      · split_ifs
        · rw [neg_one_mul]
          exact_mod_cast Iff.rfl
        · rw [one_mul]
          exact_mod_cast Iff.rfl
      · exact_mod_cast Format.double.one_pos.ne'
    · rw [if_neg hwhole]
      refine iff_of_false (by simp) fun hvalue => hwhole ?_
      rw [units_of_value_eq hvalue, Nat.pow_eq, Nat.mul_mod_left]
  · rw [if_neg hfinite]
    simp [hfinite]

/-! ### Signs -/

variable {r : ℚ}

/-- From a number with its sign, a double is as far as the sizes are apart. -/
lemma abs_sub_value (x : Double) (r : ℚ) :
    |(if x.negative then -1 else 1) * (r / 2 ^ Format.double.lowest) - x.value| =
      |r - Format.double.units x.magnitude| / 2 ^ Format.double.lowest := by
  have hpos : (0 : ℚ) < 2 ^ Format.double.lowest := by positivity
  rw [value, ← mul_sub, abs_mul, abs_sign, one_mul, ← sub_div, abs_div, abs_of_pos hpos]

lemma le_abs_sub_value (x : Double) (hq : |q| = r / 2 ^ Format.double.lowest) :
    |r - Format.double.units x.magnitude| / 2 ^ Format.double.lowest ≤ |q - x.value| := by
  have hpos : (0 : ℚ) < 2 ^ Format.double.lowest := by positivity
  have hsizes := abs_abs_sub_abs_le_abs_sub q x.value
  rwa [hq, abs_value, ← sub_div, abs_div, abs_of_pos hpos] at hsizes

/-- A double with the nearest magnitude to the size of a number, and its sign, is nearest. -/
lemma isNearest_of_magnitude (hfinite : x.isFinite) (hr : 0 ≤ r)
    (hlt : r / 2 ^ Format.double.lowest < overflow)
    (hnearest : ∀ m, m ≠ x.magnitude →
      |r - Format.double.units x.magnitude| ≤ |r - Format.double.units m| ∧
        (|r - Format.double.units x.magnitude| = |r - Format.double.units m| →
          x.magnitude % 2 = 0 ∧ m % 2 = 1)) :
    x.IsNearest ((if x.negative then -1 else 1) * (r / 2 ^ Format.double.lowest)) := by
  have hpos : (0 : ℚ) < 2 ^ Format.double.lowest := by positivity
  have hdistance := x.abs_sub_value r
  have hq : |(if x.negative then -1 else 1) * (r / 2 ^ Format.double.lowest)| =
      r / 2 ^ Format.double.lowest := by
    rw [abs_mul, abs_sign, one_mul, abs_of_nonneg (div_nonneg hr hpos.le)]
  generalize (if x.negative then -1 else 1) * (r / 2 ^ Format.double.lowest) = q at hdistance hq ⊢
  have hle (y : Double) : |q - x.value| ≤ |q - y.value| := by
    rw [hdistance]
    refine le_trans ?_ (y.le_abs_sub_value hq)
    by_cases hm : y.magnitude = x.magnitude
    · rw [hm]
    · exact div_le_div_of_nonneg_right (hnearest _ hm).1 hpos.le
  refine ⟨hfinite, hq.trans_lt hlt, fun y _ => hle y, fun y _ htie hne => ?_⟩
  by_cases hm : y.magnitude = x.magnitude
  · -- With the other sign it is as near only to zero, where both are zero.
    have hopposite : y.value = -x.value := by
      have habs : |y.value| = |x.value| := by rw [abs_value, abs_value, hm]
      exact (abs_eq_abs.mp habs).resolve_left (Ne.symm hne)
    rw [hopposite, sub_neg_eq_add] at htie
    have hzero : x.value = 0 := by
      rcases abs_eq_abs.mp htie with heq | heq
      · linarith
      · have hq0 : q = 0 := by linarith
        have := hle zero
        rwa [hq0, value_zero, sub_zero, abs_zero, zero_sub, abs_neg, abs_nonpos_iff] at this
    exact absurd (by rw [hopposite, hzero, neg_zero]) hne
  · refine (hnearest _ hm).2 (le_antisymm (hnearest _ hm).1 ?_)
    have htie' := y.le_abs_sub_value hq
    rw [← htie, hdistance] at htie'
    exact (div_le_div_iff_of_pos_right hpos).mp htie'

end

section

variable {negative : Bool} {n d : ℕ}

lemma magnitude_ofRatio (negative : Bool) (n d : ℕ) :
    (ofRatio negative n d).magnitude = Format.double.ofRatio n d :=
  magnitude_ofMagnitude (Nat.lt_of_le_of_lt (Nat.min_le_left ..) (by decide))

lemma negative_ofRatio (negative : Bool) (n d : ℕ) : (ofRatio negative n d).negative = negative :=
  negative_ofMagnitude (Nat.lt_of_le_of_lt (Nat.min_le_left ..) (by decide))

lemma isFinite_ofRatio (hd : 0 < d) :
    (ofRatio negative n d).isFinite ↔ (n / d : ℚ) < overflow := by
  obtain ⟨s, k, hround, heven, hratio⟩ := Format.double.exists_roundsAt (n := n) hd
  have hinfinity : Format.double.infinity =
      2045 * 2 ^ Format.double.fraction + 2 ^ (Format.double.fraction + 1) := by decide
  have hoverflow : (2 ^ (Format.double.fraction + 1) - 1 / 2) * 2 ^ 2045 =
      overflow * 2 ^ Format.double.lowest := by
    have hlow : (2 : ℚ) ^ 2045 = 2 * 2 ^ 970 * 2 ^ 1074 := by rw [← pow_succ', ← pow_add]
    have hhigh : (2 : ℚ) ^ 1024 = 2 ^ 54 * 2 ^ 970 := by rw [← pow_add]
    rw [show Format.double.fraction = 52 from rfl, show Format.double.lowest = 1074 by decide,
      overflow, hlow, hhigh]
    generalize (2 : ℚ) ^ 970 = a
    generalize (2 : ℚ) ^ 1074 = b
    ring
  rw [isFinite, decide_eq_true_eq, magnitude_ofRatio, hratio, min_lt_iff,
    or_iff_right (lt_irrefl _), hinfinity, hround.lt_iff heven, hoverflow, mul_div_right_comm,
    mul_lt_mul_iff_left₀ (by positivity)]

lemma isNearest_ofRatio (negative : Bool) (hd : 0 < d) (hlt : (n / d : ℚ) < overflow) :
    (ofRatio negative n d).IsNearest ((if negative then -1 else 1) * (n / d)) := by
  obtain ⟨s, k, hround, heven, hratio⟩ := Format.double.exists_roundsAt (n := n) hd
  have hpos : (0 : ℚ) < 2 ^ Format.double.lowest := by positivity
  have hunits : (n * 2 ^ Format.double.lowest / d : ℚ) / 2 ^ Format.double.lowest = n / d := by
    rw [mul_div_right_comm, mul_div_cancel_right₀ _ hpos.ne']
  have hfinite : (ofRatio negative n d).isFinite := (isFinite_ofRatio hd).mpr hlt
  have hmagnitude : (ofRatio negative n d).magnitude = s * 2 ^ Format.double.fraction + k := by
    rw [isFinite, decide_eq_true_eq, magnitude_ofRatio, hratio] at hfinite
    rw [magnitude_ofRatio, hratio]
    omega
  have hnonneg : (0 : ℚ) ≤ n * 2 ^ Format.double.lowest / d :=
    div_nonneg (mul_nonneg (Nat.cast_nonneg n) hpos.le) (Nat.cast_nonneg d)
  have hnearest := isNearest_of_magnitude hfinite hnonneg (by rw [hunits]; exact hlt) fun m hne => by
    rw [hmagnitude] at hne ⊢
    exact hround.nearest heven (by decide) hne
  rwa [hunits, negative_ofRatio] at hnearest

end

section

variable {x : Double} {n : ℤ}

lemma isNearest_value (hx : x.isFinite) : x.IsNearest x.value := by
  have hexact : Format.double.ofRatio (Format.double.units x.magnitude)
      (2 ^ Format.double.lowest) = x.magnitude := by
    refine Format.ofRatio_eq (Nat.two_pow_pos _) ?_ (Nat.mul_comm ..)
    simpa [isFinite] using hx
  have hsame : ofRatio x.negative (Format.double.units x.magnitude)
      (2 ^ Format.double.lowest) = x := by
    rw [ofRatio, hexact, ofMagnitude_magnitude]
  have hlt : (Format.double.units x.magnitude / (2 ^ Format.double.lowest : ℕ) : ℚ) < overflow := by
    rw [← isFinite_ofRatio (Nat.two_pow_pos _), hsame]
    exact hx
  have hnearest := isNearest_ofRatio x.negative (Nat.two_pow_pos _) hlt
  rw [hsame, Nat.cast_pow, Nat.cast_ofNat] at hnearest
  exact hnearest

/-- Integers with few enough bits before their trailing zeros are doubles. -/
lemma exists_value_eq {k t : ℕ} (hk : k < 2 ^ 53) (hn : n.natAbs = k * 2 ^ t)
    (hsmall : n.natAbs < 2 ^ 900) : ∃ x : Double, x.isFinite ∧ x.value = n := by
  have hpos : (0 : ℚ) < 2 ^ Format.double.lowest := by positivity
  have hlowest : Format.double.fraction + 1922 = 900 + Format.double.lowest := by decide
  have htop : k * 2 ^ (t + Format.double.lowest) < 2 ^ (Format.double.fraction + 1922) := by
    rw [hlowest, pow_add, pow_add, ← Nat.mul_assoc, ← hn]
    exact Nat.mul_lt_mul_of_pos_right hsmall (Nat.two_pow_pos _)
  obtain ⟨m, hm, hunits⟩ := Format.exists_units_eq (f := .double) hk htop
  have hfinite : m < Format.double.infinity := Nat.lt_of_lt_of_le hm (by decide)
  have hbits : m < 2 ^ 63 := Nat.lt_trans hfinite (by decide)
  refine ⟨ofMagnitude (n < 0) m, ?_, ?_⟩
  · rw [isFinite, magnitude_ofMagnitude hbits]
    exact decide_eq_true hfinite
  · rw [value, magnitude_ofMagnitude hbits, negative_ofMagnitude hbits, hunits, pow_add,
      ← Nat.mul_assoc, ← hn, Nat.cast_mul, Nat.cast_pow, Nat.cast_ofNat,
      mul_div_cancel_right₀ _ hpos.ne', Nat.cast_natAbs, Int.cast_abs]
    by_cases hneg : n < 0
    · have hneg' : (n : ℚ) < 0 := by exact_mod_cast hneg
      rw [if_pos (decide_eq_true hneg), abs_of_neg hneg', neg_one_mul, neg_neg]
    · have hneg' : (0 : ℚ) ≤ n := by exact_mod_cast not_lt.mp hneg
      rw [if_neg (by simpa using hneg), abs_of_nonneg hneg', one_mul]

/-- A double that is an integer has few enough bits before its trailing zeros. -/
lemma exists_of_value_eq (hn : x.value = n) : ∃ k t, k < 2 ^ 53 ∧ n.natAbs = k * 2 ^ t := by
  have hunits := units_of_value_eq hn
  have hsignificand := Format.double.significand_lt x.magnitude
  rw [Format.units, Nat.pow_eq] at hunits
  generalize Format.double.lowest = lowest at hunits
  rcases Nat.le_total lowest (Format.double.scale x.magnitude) with hle | hle
  · obtain ⟨t, ht⟩ := Nat.exists_eq_add_of_le' hle
    rw [ht, pow_add, ← Nat.mul_assoc] at hunits
    exact ⟨_, t, hsignificand, (mul_right_cancel₀ (Nat.two_pow_pos _).ne' hunits).symm⟩
  · obtain ⟨t, ht⟩ := Nat.exists_eq_add_of_le' hle
    rw [ht, pow_add, ← Nat.mul_assoc] at hunits
    have hle' := Nat.le_mul_of_pos_right n.natAbs (Nat.two_pow_pos t)
    rw [← Nat.eq_of_mul_eq_mul_right (Nat.two_pow_pos _) hunits] at hle'
    exact ⟨n.natAbs, 0, hle'.trans_lt hsignificand, (Nat.mul_one _).symm⟩

/-! ### Rounding of integers -/

variable {y : Double} {q : ℚ}

lemma IsNearest.le_value (hx : x.IsNearest q) (hy : y.isFinite) (h : y.value ≤ q) :
    y.value ≤ x.value := by
  by_contra hlt
  have hnear := hx.le y hy
  rw [abs_of_nonneg (by linarith), abs_of_nonneg (by linarith)] at hnear
  linarith

lemma IsNearest.value_le (hx : x.IsNearest q) (hy : y.isFinite) (h : q ≤ y.value) :
    x.value ≤ y.value := by
  by_contra hlt
  have hnear := hx.le y hy
  rw [abs_of_nonpos (by linarith), abs_of_nonpos (by linarith)] at hnear
  linarith

lemma abs_value_lt_or_dvd (x : Double) (t : ℕ) :
    |x.value| < 2 ^ 52 * 2 ^ t ∨ ∃ k : ℤ, x.value = k * 2 ^ t := by
  have hpos : (0 : ℚ) < 2 ^ Format.double.lowest := by positivity
  rcases Format.double.units_lt_or_dvd x.magnitude (t + Format.double.lowest) with hlt | ⟨k, hk⟩
  · left
    rw [abs_value, div_lt_iff₀ hpos, mul_assoc, ← pow_add]
    exact_mod_cast hlt
  · right
    refine ⟨if x.negative then -k else k, ?_⟩
    rw [value, hk, pow_add, ← Nat.mul_assoc, Nat.cast_mul, Nat.cast_pow, Nat.cast_ofNat,
      mul_div_cancel_right₀ _ hpos.ne']
    split_ifs <;> push_cast <;> ring

lemma IsNearest.exists_int (hx : x.IsNearest n) : ∃ m : ℤ, x.value = m := by
  rcases x.abs_value_lt_or_dvd 0 with hlt | ⟨k, hk⟩
  · -- A double with a fraction is small, and small integers are doubles.
    obtain ⟨hlow, hhigh⟩ := abs_lt.mp hlt
    have hbound : n.natAbs < 2 ^ 53 := by
      by_contra hlarge
      rcases Int.le_total 0 n with hn | hn
      · obtain ⟨y, hy, hvalue⟩ := exists_value_eq (n := 2 ^ 52) (k := 1) (t := 52) (by decide)
          (by decide) (by decide +kernel)
        have hle : y.value ≤ n := by
          rw [hvalue]
          exact_mod_cast (by omega : (2 : ℤ) ^ 52 ≤ n)
        have := hx.le_value hy hle
        rw [hvalue] at this
        norm_num at this hhigh
        linarith
      · obtain ⟨y, hy, hvalue⟩ := exists_value_eq (n := -2 ^ 52) (k := 1) (t := 52) (by decide)
          (by decide) (by decide +kernel)
        have hle : n ≤ y.value := by
          rw [hvalue]
          exact_mod_cast (by omega : n ≤ -(2 : ℤ) ^ 52)
        have := hx.value_le hy hle
        rw [hvalue] at this
        norm_num at this hlow
        linarith
    obtain ⟨y, hy, hvalue⟩ := exists_value_eq (t := 0) hbound (by rw [pow_zero, Nat.mul_one])
      (hbound.trans (by decide +kernel))
    have hexact := isNearest_value hy
    rw [hvalue] at hexact
    exact ⟨n, (hx.value_unique hexact).trans hvalue⟩
  · exact ⟨k, by rw [hk, pow_zero, mul_one]⟩

end

end Double

end Protobuf.Numeric
