import Protobuf.Proofs.Text.Numeral
import Protobuf.Proofs.Time.Calendar
import Protobuf.Time.Rfc3339

/-!
# Dates are read back

An instant in the years 0 to 9999, written as RFC 3339 text, is read as the same
instant, also within a leap second. The proof follows the text from the left: each
part is read to its end, whatever follows it. The text of an instant in any other
year begins with a sign, which no text that is read does.
-/

open Option Nat

namespace Protobuf.Time

open Text List

/-! ## Digits as bytes -/

def bytesOf (cs : List Char) : List UInt8 :=
  cs.flatMap String.utf8EncodeChar

@[simp]
lemma bytesOf_append (cs ds : List Char) : bytesOf (cs ++ ds) = bytesOf cs ++ bytesOf ds :=
  flatMap_append

lemma length_le_bytesOf (cs : List Char) : cs.length ≤ (bytesOf cs).length := by
  induction cs with
  | nil => simp
  | cons c cs ih =>
    have hpos := c.utf8Size_pos
    simp only [bytesOf, flatMap_cons, length_append, length_cons,
      String.length_utf8EncodeChar] at ih ⊢
    omega

lemma toUTF8_ofList (cs : List Char) : (String.ofList cs).toUTF8.data.toList = bytesOf cs := by
  simp [bytesOf, utf8Encode]

def digitByte (d : Nat) : UInt8 :=
  UInt8.ofNat (48 + d)

lemma utf8EncodeChar_digitChar :
    ∀ d < 10, String.utf8EncodeChar (Nat.digitChar d) = [digitByte d] := by
  decide

lemma byteDigit?_digitByte : ∀ d < 10, byteDigit? (digitByte d) = some d := by
  decide

lemma bytesOf_padded {width n : Nat} (hwidth : 0 < width) (hn : n < 10 ^ width) :
    bytesOf (padded width n) = (lastDigits width n).map digitByte := by
  have hdigits : ∀ d ∈ lastDigits width n,
      String.utf8EncodeChar (digitChar d) = [digitByte d] := fun d hd =>
    utf8EncodeChar_digitChar d (lt_of_mem_lastDigits hd)
  rw [padded_eq hwidth hn, bytesOf, flatMap_map, flatMap_congr hdigits,
    ← map_eq_flatMap]

lemma twoDigits?_digitByte {a b : Nat} (ha : a < 10) (hb : b < 10) (rest : List UInt8) :
    twoDigits? (digitByte a :: digitByte b :: rest) = some (10 * a + b, rest) := by
  rw [twoDigits?, byteDigit?_digitByte a ha, byteDigit?_digitByte b hb]
  rfl

lemma twoDigits?_padded {n : Nat} (hn : n < 100) (cs : List Char) :
    twoDigits? (bytesOf (padded 2 n ++ cs)) = some (n, bytesOf cs) := by
  have hbytes : bytesOf (padded 2 n) = [digitByte (n / 10 % 10), digitByte (n % 10)] :=
    bytesOf_padded (by decide) hn
  have hvalue : 10 * (n / 10 % 10) + n % 10 = n := by omega
  rw [bytesOf_append, hbytes, cons_append, cons_append, nil_append,
    twoDigits?_digitByte (mod_lt _ (by decide)) (mod_lt _ (by decide)), hvalue]

/-! ## Parts of a text -/

lemma expect?_bytesOf {c : Char} (hc : String.utf8EncodeChar c = [UInt8.ofNat c.toNat])
    (hlt : c.toNat < 256) (cs : List Char) : expect? c (bytesOf (c :: cs)) = some (bytesOf cs) := by
  have hbyte : (UInt8.ofNat c.toNat).toNat = c.toNat := UInt8.toNat_ofNat_of_lt' hlt
  rw [bytesOf, flatMap_cons, hc, singleton_append, expect?, if_pos hbyte]
  rfl

/-- Four digits are those of the century and those of the year in it. -/
lemma bytesOf_yearChars {year : Int} (hyear : 0 ≤ year ∧ year ≤ 9999) (cs : List Char) :
    bytesOf (yearChars year ++ cs) =
      bytesOf (padded 2 (year.toNat / 100) ++ (padded 2 (year.toNat % 100) ++ cs)) := by
  have hlt : year.toNat < 10 ^ 4 := by omega
  have hcentury : year.toNat / 100 < 10 ^ 2 := by omega
  have hinCentury : year.toNat % 100 < 10 ^ 2 := mod_lt _ (by decide)
  have hdigits : lastDigits 4 year.toNat =
      lastDigits 2 (year.toNat / 100) ++ lastDigits 2 (year.toNat % 100) := by
    simp only [lastDigits, nil_append, cons_append, cons.injEq, and_true]
    omega
  rw [yearChars, if_pos hyear, ← append_assoc, bytesOf_append, bytesOf_append,
    bytesOf_append, bytesOf_padded (by decide) hlt, bytesOf_padded (by decide) hcentury,
    bytesOf_padded (by decide) hinCentury, hdigits, map_append]

lemma dateDigits?_bytesOf {date : Date} (cs : List Char)
    (hyear : 0 ≤ date.year ∧ date.year ≤ 9999) (hmonth : date.month < 100) (hday : date.day < 100) :
    dateDigits? (bytesOf (yearChars date.year ++ '-' :: (padded 2 date.month ++
      '-' :: (padded 2 date.day ++ cs)))) = some (date, bytesOf cs) := by
  have hhyphen := expect?_bytesOf (c := '-') (by decide) (by decide)
  have hcentury : date.year.toNat / 100 < 100 := by omega
  have hinCentury : date.year.toNat % 100 < 100 := mod_lt _ (by decide)
  have hvalue : ((date.year.toNat / 100 : Nat) : Int) * 100 + (date.year.toNat % 100 : Nat) =
      date.year := by omega
  simp only [dateDigits?, bytesOf_yearChars hyear, twoDigits?_padded hcentury,
    twoDigits?_padded hinCentury, hhyphen, twoDigits?_padded hmonth, twoDigits?_padded hday,
    bind_eq_bind, bind_some, hvalue]
  rfl

lemma clockDigits?_bytesOf {hour minute second : Nat} (cs : List Char) (hhour : hour < 100)
    (hminute : minute < 100) (hsecond : second < 100) :
    clockDigits? (bytesOf (padded 2 hour ++ ':' :: (padded 2 minute ++
      ':' :: (padded 2 second ++ cs)))) = some (⟨hour, minute, second⟩, bytesOf cs) := by
  have hcolon := expect?_bytesOf (c := ':') (by decide) (by decide)
  simp only [clockDigits?, hcolon, twoDigits?_padded hhour, twoDigits?_padded hminute,
    twoDigits?_padded hsecond, bind_eq_bind, bind_some]
  rfl

/-- The digits after the point end before the mark of universal time. -/
lemma fraction_padded {width n : Nat} (hwidth : 0 < width ∧ width ≤ 9) (hn : n < 10 ^ width) :
    fraction (bytesOf ('.' :: padded width n ++ ['Z'])) =
      .ok (n * 10 ^ (9 - width), bytesOf ['Z']) := by
  have hbytes : bytesOf ('.' :: padded width n ++ ['Z']) =
      46 :: ((lastDigits width n).map digitByte ++ bytesOf ['Z']) := by
    rw [← bytesOf_padded hwidth.1 hn, bytesOf_append]
    rfl
  have hisSome : ∀ c ∈ (lastDigits width n).map digitByte, (byteDigit? c).isSome := by
    intro c hc
    obtain ⟨d, hd, rfl⟩ := mem_map.mp hc
    rw [byteDigit?_digitByte d (lt_of_mem_lastDigits hd)]
    rfl
  have htake : ((lastDigits width n).map digitByte ++ bytesOf ['Z']).takeWhile
      (fun c => (byteDigit? c).isSome) = (lastDigits width n).map digitByte := by
    have hZ : (bytesOf ['Z']).takeWhile (fun c => (byteDigit? c).isSome) = [] := by decide
    rw [takeWhile_append_of_pos hisSome, hZ, append_nil]
  have hvalues : ((lastDigits width n).map digitByte).filterMap byteDigit? =
      lastDigits width n := by
    rw [filterMap_map, filterMap_congr (g := some), filterMap_some]
    intro d hd
    exact byteDigit?_digitByte d (lt_of_mem_lastDigits hd)
  have hne : ((lastDigits width n).map digitByte).isEmpty = false := by
    rw [isEmpty_eq_false_iff, ← length_pos_iff]
    simpa using hwidth.1
  have hall : (lastDigits width n).take 9 = lastDigits width n :=
    take_of_length_le (by simpa using hwidth.2)
  rw [hbytes, fraction, if_pos (by decide)]
  simp only [htake, hne, hvalues, fractionNanos, hall, foldl_lastDigits hn, length_lastDigits,
    length_map, Bool.false_eq_true, if_false]
  rw [drop_left' (by simp)]
  rfl

variable {nanos : Nat} {t : Instant}

lemma fraction_fractionChars (hnanos : nanos < 1000000000) :
    fraction (bytesOf (fractionChars nanos ++ ['Z'])) = .ok (nanos, bytesOf ['Z']) := by
  rw [fractionChars]
  split_ifs with hzero hmilli hmicro
  · rw [hzero]
    rfl
  · have hvalue : nanos / 1000000 * 10 ^ (9 - 3) = nanos := by omega
    rw [fraction_padded (by decide) (by omega), hvalue]
  · have hvalue : nanos / 1000 * 10 ^ (9 - 6) = nanos := by omega
    rw [fraction_padded (by decide) (by omega), hvalue]
  · rw [fraction_padded (by decide) (by omega), Nat.sub_self, pow_zero, Nat.mul_one]

/-- What a text in universal time is read as, part by part. -/
lemma parseBytes_of_parts {bytes rest afterClock afterFraction : List UInt8} {date : Date}
    {mark : UInt8} {clock : Clock} (hlength : 19 ≤ bytes.length)
    (hdate : dateDigits? bytes = some (date, mark :: rest)) (hreal : date.isReal)
    (hmark : isTimeMark mark) (hclock : clockDigits? rest = some (clock, afterClock))
    (hrange : clock.hour ≤ 23 ∧ clock.minute ≤ 59 ∧ clock.second ≤ 60)
    (hfraction : fraction afterClock = .ok (nanos, afterFraction))
    (hoffset : offset afterFraction = .ok (0, []))
    (hseconds : date.toDays * 86400 + clock.hour * 3600 + clock.minute * 60 +
      (min 59 clock.second : Nat) = t.seconds)
    (hnanos : nanos + (if clock.second = 60 then 1000000000 else 0) = t.nanos) :
    parseBytes bytes = .ok t := by
  have hlong : ¬ bytes.length < 19 := by omega
  have hsecond : (if clock.second = 60 then 59 else clock.second) = min 59 clock.second := by
    split_ifs <;> omega
  have hclockRange : (decide (23 < clock.hour) || decide (59 < clock.minute) ||
      decide (59 < min 59 clock.second)) = false := by
    simp only [Bool.or_eq_false_iff, decide_eq_false_iff_not]
    omega
  have hparts : Instant.ofParts? t.seconds t.nanos = some t := by
    simp [Instant.ofParts?, t.valid]
  have hnanosInt : (nanos : Int) + (if clock.second = 60 then 1000000000 else 0) = t.nanos := by
    rw [← hnanos]
    split_ifs <;> simp
  have hshift : ¬ 1440 ≤ (0 : Int).natAbs := by decide
  simp only [parseBytes, hlong, hdate, hreal, hmark, hclock, hfraction, hoffset, hsecond,
    hclockRange, hshift, bind, Except.bind, isEmpty_nil, Bool.not_true, Bool.false_eq_true,
    if_false, Int.zero_mul, Int.sub_zero, hseconds, hnanosInt, hparts]

def Instant.year (t : Instant) : Int :=
  (Date.ofDays (t.seconds / 86400)).year

lemma Instant.le_year_iff {year : Int} :
    year ≤ t.year ↔ Date.yearFirst year * 86400 ≤ t.seconds := by
  rw [Instant.year, Date.le_year_ofDays_iff, Int.le_ediv_iff_mul_le (by decide)]

/-- The years of four digits begin in the year 0 and end before the year 10000. -/
lemma Instant.year_four_digits_iff :
    0 ≤ t.year ∧ t.year ≤ 9999 ↔ -62167219200 ≤ t.seconds ∧ t.seconds < 253402300800 := by
  have hfirst : 0 ≤ t.year ↔ -62167219200 ≤ t.seconds := Instant.le_year_iff
  have hlast : 10000 ≤ t.year ↔ 253402300800 ≤ t.seconds := Instant.le_year_iff
  omega

/-- The second and the nanoseconds that an instant is written with: those of a leap second are
written within second 60. -/
lemma written_second (t : Instant) {clock second : Nat}
    (hclock : clock = (t.seconds % 86400).toNat)
    (hsecond : second = clock % 60 + if 1000000000 ≤ t.nanos then 1 else 0)
    (hnanos : nanos = if 1000000000 ≤ t.nanos then t.nanos - 1000000000 else t.nanos) :
    nanos < 1000000000 ∧ second ≤ 60 ∧ min 59 second = clock % 60 ∧
      nanos + (if second = 60 then 1000000000 else 0) = t.nanos := by
  obtain ⟨-, -, hlt, hleap⟩ := t.valid
  by_cases hlong : 1000000000 ≤ t.nanos
  · have hlast := hleap hlong
    have hsixty : second = 60 := by
      rw [hsecond, if_pos hlong]
      omega
    rw [if_pos hlong] at hnanos
    rw [hsixty, if_pos rfl]
    omega
  · rw [if_neg hlong] at hsecond hnanos
    have hshort : second ≠ 60 := by omega
    rw [if_neg hshort]
    omega

lemma length_formatChars (t : Instant) : 19 ≤ (formatChars t).length := by
  have hyear : 4 ≤ (yearChars (Date.ofDays (t.seconds / 86400)).year).length := by
    rw [yearChars]
    split_ifs
    · exact le_length_padded 4 _
    · exact (le_length_padded 4 _).trans (le_succ _)
    · exact (le_length_padded 4 _).trans (le_succ _)
  have hmonth := le_length_padded 2 (Date.ofDays (t.seconds / 86400)).month
  have hday := le_length_padded 2 (Date.ofDays (t.seconds / 86400)).day
  have hhour := le_length_padded 2 ((t.seconds % 86400).toNat / 3600)
  have hminute := le_length_padded 2 ((t.seconds % 86400).toNat / 60 % 60)
  have hsecond := le_length_padded 2
    ((t.seconds % 86400).toNat % 60 + if 1000000000 ≤ t.nanos then 1 else 0)
  simp only [formatChars, length_append, length_cons]
  omega

lemma parse_format (hyear : 0 ≤ t.year ∧ t.year ≤ 9999) : parse (format t) = .ok t := by
  have hlength : 19 ≤ (bytesOf (formatChars t)).length :=
    (length_formatChars t).trans (length_le_bytesOf _)
  obtain ⟨date, hdate⟩ : ∃ date, date = Date.ofDays (t.seconds / 86400) := ⟨_, rfl⟩
  obtain ⟨clock, hclock⟩ : ∃ clock, clock = (t.seconds % 86400).toNat := ⟨_, rfl⟩
  obtain ⟨second, hsecond⟩ :
      ∃ second, second = clock % 60 + if 1000000000 ≤ t.nanos then 1 else 0 := ⟨_, rfl⟩
  obtain ⟨nanos, hnanos⟩ :
      ∃ nanos, nanos = if 1000000000 ≤ t.nanos then t.nanos - 1000000000 else t.nanos := ⟨_, rfl⟩
  obtain ⟨hnanosLt, hsecondLe, hmin, hsum⟩ := written_second t hclock hsecond hnanos
  have hreal : date.isReal := by rw [hdate, Date.isReal_ofDays]
  have hdays : date.toDays = t.seconds / 86400 := by rw [hdate, Date.toDays_ofDays]
  have hmonth : date.month < 100 ∧ date.day < 100 := by
    have hlength := monthLength_le date.year date.month
    simp only [Date.isReal, Bool.and_eq_true, decide_eq_true_eq] at hreal
    omega
  rw [Instant.year, ← hdate] at hyear
  rw [parse, format, toUTF8_ofList]
  rw [formatChars] at hlength ⊢
  simp only [← hdate, ← hclock, ← hsecond, ← hnanos, append_assoc,
    cons_append] at hlength ⊢
  refine parseBytes_of_parts hlength (dateDigits?_bytesOf _ hyear hmonth.1 hmonth.2) hreal
    (by decide) (clockDigits?_bytesOf _ (by omega) (by omega) (by omega)) (by dsimp only; omega)
    (fraction_fractionChars hnanosLt) rfl ?_ hsum
  simp only [hmin, hdays]
  omega

/-! ## Years without four digits -/

lemma twoDigits?_of_byteDigit? {b : UInt8} (hb : byteDigit? b = none) (rest : List UInt8) :
    twoDigits? (b :: rest) = none := by
  cases rest with
  | nil => rfl
  | cons c rest =>
    rw [twoDigits?, hb]
    rfl

/-- The text of an instant in any other year begins with a sign, where a digit is due. -/
lemma dateDigits?_formatChars (hyear : ¬ (0 ≤ t.year ∧ t.year ≤ 9999)) :
    dateDigits? (bytesOf (formatChars t)) = none := by
  obtain ⟨sign, cs, hchars, hsign⟩ : ∃ sign cs,
      formatChars t = sign :: cs ∧ (sign = '-' ∨ sign = '+') := by
    rw [Instant.year] at hyear
    simp only [formatChars, yearChars, hyear, if_false, cons_append]
    refine ⟨_, _, rfl, ?_⟩
    split_ifs <;> simp
  have htwo : twoDigits? (bytesOf (formatChars t)) = none := by
    rw [hchars]
    rcases hsign with rfl | rfl
    · exact twoDigits?_of_byteDigit? (by decide) (bytesOf cs)
    · exact twoDigits?_of_byteDigit? (by decide) (bytesOf cs)
  rw [dateDigits?, htwo]
  rfl

/-- The text of an instant is read back in the years of four digits, and in no others. -/
lemma parse_format_eq (t : Instant) :
    parse (format t) =
      if 0 ≤ t.year ∧ t.year ≤ 9999 then .ok t else .error .invalid := by
  split_ifs with hyear
  · exact parse_format hyear
  · have hlength : ¬ (bytesOf (formatChars t)).length < 19 :=
      not_lt.mpr ((length_formatChars t).trans (length_le_bytesOf _))
    rw [parse, format, toUTF8_ofList, parseBytes, if_neg hlength, dateDigits?_formatChars hyear]

end Protobuf.Time
