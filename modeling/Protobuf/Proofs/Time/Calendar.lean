import Mathlib
import Protobuf.Time.Calendar

/-!
# Dates and day numbers

The date with a day number exists, and its day number is the one it was made
from. An era of 400 years, counted from March, is four centuries; a century is 25
times four years, the last of which may be short of its leap day; and a year is
365 days, the last of four with one more.
-/

namespace Protobuf.Time

/-- The days of an era that come before one of its years. -/
def yearStart (year : Int) : Int :=
  365 * year + year / 4 - year / 100

def yearOfEra (day : Int) : Int :=
  (day - day / 1460 + day / 36524 - day / 146096) / 365

/-- Whether a year of an era, counted from March, ends with a leap day. -/
def EndsLeap (year : Int) : Prop :=
  year % 4 = 3 ∧ (year % 100 = 99 → year = 399)

/-- A day of an era by century, group of four years, year and day. -/
lemma exists_day_eq {day : Int} (hlow : 0 ≤ day) (hhigh : day < 146097) :
    ∃ century group year rest : Int,
      day = 36524 * century + 1461 * group + 365 * year + rest ∧
      (0 ≤ century ∧ century < 4) ∧ (0 ≤ group ∧ group < 25) ∧ (0 ≤ year ∧ year < 4) ∧
      0 ≤ rest ∧ rest ≤ 365 ∧ (rest = 365 → year = 3 ∧ (group = 24 → century = 3)) := by
  obtain ⟨century, hcentury⟩ : ∃ c, c = min 3 (day / 36524) := ⟨_, rfl⟩
  obtain ⟨inCentury, hinCentury⟩ : ∃ d, d = day - 36524 * century := ⟨_, rfl⟩
  obtain ⟨year, hyear⟩ : ∃ y, y = min 3 (inCentury % 1461 / 365) := ⟨_, rfl⟩
  refine ⟨century, inCentury / 1461, year, inCentury % 1461 - 365 * year, ?_⟩
  omega

/-- The year of a day, and the place of the day in the year. -/
lemma yearOfEra_spec {day : Int} (hlow : 0 ≤ day) (hhigh : day < 146097) :
    (0 ≤ yearOfEra day ∧ yearOfEra day < 400) ∧ yearStart (yearOfEra day) ≤ day ∧
      day ≤ yearStart (yearOfEra day) + 365 ∧
      (day = yearStart (yearOfEra day) + 365 → EndsLeap (yearOfEra day)) := by
  obtain ⟨century, group, year, rest, hday, hcentury, hgroup, hyear, hrest⟩ :=
    exists_day_eq hlow hhigh
  have hlast : 1461 * group + 365 * year + rest < 36524 ∨ day = 146096 := by omega
  have hcenturies : day / 36524 - day / 146096 = century := by
    rcases hlast with hinner | hlast
    · have hcentury : day / 36524 = century := by omega
      omega
    · omega
  have hgroups : day / 1460 = 25 * century + group ∧ rest < 365 ∨
      day / 1460 = 25 * century + group + 1 ∧ 0 < rest := by omega
  have hy : yearOfEra day = 100 * century + 4 * group + year := by
    rw [yearOfEra]
    omega
  have hstart : yearStart (100 * century + 4 * group + year) =
      36524 * century + 1461 * group + 365 * year := by
    have hfour : (100 * century + 4 * group + year) / 4 = 25 * century + group := by omega
    have hhundred : (100 * century + 4 * group + year) / 100 = century := by omega
    rw [yearStart, hfour, hhundred]
    ring
  rw [hy, hstart, EndsLeap]
  omega

/-- The date of a day of a year of an era, where years begin in March. -/
def Date.ofYearDay (era year day : Int) : Date :=
  let monthFromMarch := (5 * day + 2) / 153
  let dayOfMonth := day - (153 * monthFromMarch + 2) / 5 + 1
  let month := if monthFromMarch < 10 then monthFromMarch + 3 else monthFromMarch - 9
  let year := year + era * 400
  ⟨if month ≤ 2 then year + 1 else year, month.toNat, dayOfMonth.toNat⟩

lemma monthLength_le (year : Int) (month : Nat) : monthLength year month ≤ 31 := by
  unfold monthLength
  split_ifs <;> omega

lemma isLeap_of_endsLeap (era : Int) {year : Int} (h : EndsLeap year) :
    isLeap (year + era * 400 + 1) := by
  obtain ⟨hfour, hhundred⟩ := h
  simp only [isLeap, Bool.and_eq_true, Bool.or_eq_true, decide_eq_true_eq]
  omega

namespace Date

lemma ofDays_eq (days : Int) :
    ofDays days = ofYearDay ((days + 719468) / 146097) (yearOfEra ((days + 719468) % 146097))
      ((days + 719468) % 146097 - yearStart (yearOfEra ((days + 719468) % 146097))) :=
  rfl

variable {era year day : Int}

lemma toDays_ofYearDay (hyear : 0 ≤ year ∧ year < 400) (hday : 0 ≤ day ∧ day ≤ 365) :
    (ofYearDay era year day).toDays = era * 146097 + yearStart year + day - 719468 := by
  obtain ⟨month, hmonth⟩ : ∃ m, m = (5 * day + 2) / 153 := ⟨_, rfl⟩
  simp only [ofYearDay, toDays, yearStart, ← hmonth]
  by_cases hlate : month < 10
  · have hafter : ¬ (month + 3 ≤ 2) := by omega
    have hnat : ¬ ((month + 3).toNat ≤ 2) := by omega
    simp only [hlate, hafter, hnat, if_true, if_false]
    omega
  · have hafter : month - 9 ≤ 2 := by omega
    have hnat : (month - 9).toNat ≤ 2 := by omega
    simp only [hlate, hafter, hnat, if_true, if_false]
    omega

lemma isReal_ofYearDay (hday : 0 ≤ day ∧ day ≤ 365)
    (hleap : day = 365 → EndsLeap year) : (ofYearDay era year day).isReal := by
  obtain ⟨month, hmonth⟩ : ∃ m, m = (5 * day + 2) / 153 := ⟨_, rfl⟩
  have hrange : 0 ≤ month ∧ month ≤ 11 := by omega
  simp only [isReal, ofYearDay, ← hmonth, Bool.and_eq_true, decide_eq_true_eq]
  by_cases hlast : month = 11
  · subst hlast
    have hfebruary : day - 337 < if isLeap (year + era * 400 + 1) then 29 else 28 := by
      by_cases hend : day = 365
      · rw [isLeap_of_endsLeap era (hleap hend), hend]
        decide
      · split_ifs <;> omega
    simpa [monthLength] using ⟨by omega, hfebruary⟩
  · obtain ⟨hlow, hhigh⟩ := hrange
    interval_cases month <;> simp [monthLength] <;> omega

lemma toDays_ofDays (days : Int) : (ofDays days).toDays = days := by
  obtain ⟨hyear, hstart, hend, -⟩ := yearOfEra_spec
    (Int.emod_nonneg (days + 719468) (by decide)) (Int.emod_lt_of_pos _ (by decide))
  rw [ofDays_eq, toDays_ofYearDay hyear (by omega)]
  omega

lemma isReal_ofDays (days : Int) : (ofDays days).isReal := by
  obtain ⟨-, hstart, hend, hleap⟩ := yearOfEra_spec
    (Int.emod_nonneg (days + 719468) (by decide)) (Int.emod_lt_of_pos _ (by decide))
  rw [ofDays_eq]
  exact isReal_ofYearDay (by omega) fun hlast => hleap (by omega)

/-! ## Years -/

/-- The day number of the first of January. -/
def yearFirst (year : Int) : Int :=
  365 * (year - 1) + (year - 1) / 4 - (year - 1) / 100 + (year - 1) / 400 - 719162

lemma yearFirst_mono {year later : Int} (h : year ≤ later) : yearFirst year ≤ yearFirst later := by
  unfold yearFirst
  omega

lemma toDays_mem_year {date : Date} (hreal : date.isReal) :
    yearFirst date.year ≤ date.toDays ∧ date.toDays < yearFirst (date.year + 1) := by
  have hday := monthLength_le date.year date.month
  simp only [isReal, Bool.and_eq_true, decide_eq_true_eq] at hreal
  obtain ⟨⟨⟨hmonthLow, hmonthHigh⟩, hdayLow⟩, hdayHigh⟩ := hreal
  by_cases hearly : date.month ≤ 2
  · have hlate : ¬ 2 < date.month := by omega
    simp only [toDays, yearFirst, hearly, hlate, if_true, if_false]
    omega
  · have hlate : 2 < date.month := by omega
    simp only [toDays, yearFirst, hearly, hlate, if_true, if_false]
    omega

lemma le_year_ofDays_iff {year days : Int} : year ≤ (ofDays days).year ↔ yearFirst year ≤ days := by
  obtain ⟨hlow, hhigh⟩ := toDays_mem_year (isReal_ofDays days)
  rw [toDays_ofDays] at hlow hhigh
  constructor
  · intro h
    exact (yearFirst_mono h).trans hlow
  · intro h
    by_contra hlater
    have hnext := yearFirst_mono (show (ofDays days).year + 1 ≤ year by omega)
    omega

end Date

end Protobuf.Time
