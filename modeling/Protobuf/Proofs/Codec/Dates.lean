import Protobuf.Json.Coerce
import Protobuf.Proofs.Codec.NormalForm
import Protobuf.Proofs.Time.Rfc3339

/-!
# Dates in messages and in JSON

Whatever a timestamp message holds, it stands for an instant in the years -262143 to
262142, and the message of that instant stands for the same one. In JSON the instant
is a text. It is read back in the years 0 to 9999, leap seconds included; the text of
any other year begins with a sign and is refused.
-/

namespace Protobuf

open Time

lemma Time.Instant.year_bounds (t : Instant) : -262143 ≤ t.year ∧ t.year ≤ 262142 := by
  obtain ⟨hfirst, hlast, -⟩ := t.valid
  have hlow : -262143 ≤ t.year ↔ firstSecond ≤ t.seconds := Instant.le_year_iff
  have hhigh : 262143 ≤ t.year ↔ lastSecond + 1 ≤ t.seconds := Instant.le_year_iff
  omega

lemma Json.toInstant_format (t : Instant) :
    Json.toInstant (.string (format t)) =
      if 0 ≤ t.year ∧ t.year ≤ 9999 then .ok t
      else .error (.timestamp (.text (format t) .invalid)) := by
  rw [Json.toInstant, parse_format_eq]
  split_ifs <;> rfl

namespace Timestamp

/-- The date of a message, as text, is read as the same date exactly if its year has four digits,
and it is written as a message of the same date in any case. -/
theorem toInstant_through_text (m : Timestamp) :
    (Json.toInstant (.string (format m.toInstant)) =
      if 0 ≤ m.toInstant.year ∧ m.toInstant.year ≤ 9999 then .ok m.toInstant
      else .error (.timestamp (.text (format m.toInstant) .invalid))) ∧
    (0 ≤ m.toInstant.year ∧ m.toInstant.year ≤ 9999 ↔
      -62167219200 ≤ m.toInstant.seconds ∧ m.toInstant.seconds < 253402300800) ∧
    (-262143 ≤ m.toInstant.year ∧ m.toInstant.year ≤ 262142) ∧
    (ofInstant m.toInstant).toInstant = m.toInstant :=
  ⟨Json.toInstant_format _, Instant.year_four_digits_iff, Instant.year_bounds _,
    toInstant_ofInstant _⟩

/-- The first second of the year 10000 is written with a sign and is not read back. -/
theorem toInstant_text_refused :
    format (⟨253402300800, 0⟩ : Timestamp).toInstant = "+10000-01-01T00:00:00Z" ∧
      Json.toInstant (.string (format (⟨253402300800, 0⟩ : Timestamp).toInstant)) ≠
        .ok (⟨253402300800, 0⟩ : Timestamp).toInstant := by
  refine ⟨by decide +kernel, ?_⟩
  rw [Json.toInstant_format, if_neg (by decide +kernel)]
  intro h
  cases h

end Timestamp

end Protobuf
