import Protobuf.Proofs.Codec.NumeralReads
import Protobuf.Proofs.Numeric.Literal

/-!
# Texts that stand for integers

A 64-bit integer that is held as text passes through four readers: that of JSON
values, that of map keys, that of the writer and that of the wire. `Denotes` says
which texts the writer takes for a number. The texts that reading JSON leaves in a
field are canonical, every reader takes them for the same number, and that number
is on the wire.
-/

open List Option

namespace Protobuf.Text

open Numeric (Digits Sign)

/-! ## Signs and digits -/

variable {cs : List Char}

lemma natural?_eq_some_iff {n : Nat} :
    natural? cs = some n ↔ ∃ digits : Digits, digits.chars = cs ∧ cs ≠ [] ∧ digits.value = n := by
  constructor
  · intro h
    cases cs with
    | nil => cases h
    | cons c cs =>
      have hread := natural?_digits ⟨c :: cs, isDigit_of_appendDigits? h⟩ (cons_ne_nil c cs)
      refine ⟨⟨c :: cs, isDigit_of_appendDigits? h⟩, rfl, cons_ne_nil c cs, ?_⟩
      exact some.inj (hread.symm.trans h)
  · rintro ⟨digits, rfl, hne, rfl⟩
    exact natural?_digits digits hne

/-- A minus sign is all that makes a difference between the two readers. -/
lemma integer?_eq_signed (signed : Bool) (h : ∀ rest, cs ≠ '-' :: rest) :
    integer? signed cs = integer? true cs := by
  unfold integer?
  split
  · rfl
  · exact absurd rfl (h _)
  · rfl

lemma integer?_eq_some_iff {signed : Bool} {n : Int} :
    integer? signed cs = some n ↔ ∃ (sign : Sign) (digits : Digits),
      cs = sign.chars ++ digits.chars ∧ digits.chars ≠ [] ∧ (sign = .minus → signed) ∧
        n = sign.factor * digits.value := by
  constructor
  · intro h
    unfold integer? at h
    split at h
    · obtain ⟨k, hk, rfl⟩ := map_eq_some_iff.mp h
      obtain ⟨digits, rfl, hne, rfl⟩ := natural?_eq_some_iff.mp hk
      exact ⟨.plus, digits, rfl, hne, by simp, by simp [Sign.factor]⟩
    · split_ifs at h with hsigned
      obtain ⟨i, hi, rfl⟩ := map_eq_some_iff.mp h
      obtain ⟨k, hk, heq⟩ := bind_eq_some_iff.mp hi
      obtain rfl := some.inj heq
      obtain ⟨digits, rfl, hne, rfl⟩ := natural?_eq_some_iff.mp hk
      exact ⟨.minus, digits, rfl, hne, fun _ => hsigned, by simp [Sign.factor]⟩
    · obtain ⟨k, hk, rfl⟩ := map_eq_some_iff.mp h
      obtain ⟨digits, rfl, hne, rfl⟩ := natural?_eq_some_iff.mp hk
      exact ⟨.none, digits, rfl, hne, by simp, by simp [Sign.factor]⟩
  · rintro ⟨sign, digits, rfl, hne, hsign, rfl⟩
    have hread := integer?_digits sign digits hne
    by_cases hminus : sign = .minus
    · rwa [hsign hminus]
    · rw [integer?_eq_signed signed, hread]
      intro rest heq
      cases sign with
      | minus => exact hminus rfl
      | plus => cases heq
      | none =>
        have hdigit := digits.isDigit '-' (by simp [show digits.chars = '-' :: rest from heq])
        exact absurd hdigit (by decide)

/-! ## Blanks -/

lemma exists_eq_trimChars (cs : List Char) : ∃ before after,
    cs = before ++ trimChars cs ++ after ∧ ∀ c ∈ before ++ after, isBlank c := by
  have hmem {c : Char} {ds : List Char} (h : c ∈ ds.takeWhile isBlank) : isBlank c :=
    mem_takeWhile_imp h
  refine ⟨cs.takeWhile isBlank, ((cs.dropWhile isBlank).reverse.takeWhile isBlank).reverse, ?_, ?_⟩
  · rw [trimChars, trimEndChars, append_assoc, ← reverse_append,
      takeWhile_append_dropWhile, reverse_reverse, takeWhile_append_dropWhile]
  · intro c hc
    rcases mem_append.mp hc with hc | hc
    · exact hmem hc
    · exact hmem (mem_reverse.mp hc)

lemma dropWhile_isBlank_append {blanks : List Char} (h : ∀ c ∈ blanks, isBlank c)
    (hcs : ∀ c ∈ cs.head?, isBlank c = false) : (blanks ++ cs).dropWhile isBlank = cs := by
  rw [dropWhile_append_of_pos h]
  cases cs with
  | nil => rfl
  | cons c cs => exact dropWhile_cons_of_neg (by simp [hcs c rfl])

lemma trimChars_append {before after : List Char}
    (hblank : ∀ c ∈ before ++ after, isBlank c) (hcs : ∀ c ∈ cs, isBlank c = false)
    (hne : cs ≠ []) : trimChars (before ++ cs ++ after) = cs := by
  have hstart : (before ++ (cs ++ after)).dropWhile isBlank = cs ++ after := by
    refine dropWhile_isBlank_append (fun c hc => hblank c (mem_append_left _ hc)) ?_
    rw [head?_append_of_ne_nil cs hne]
    exact fun c hc => hcs c (mem_of_head? hc)
  have hend : (after.reverse ++ cs.reverse).dropWhile isBlank = cs.reverse := by
    refine dropWhile_isBlank_append ?_ ?_
    · exact fun c hc => hblank c (mem_append_right _ (mem_reverse.mp hc))
    · exact fun c hc => hcs c (mem_reverse.mp (mem_of_head? hc))
  rw [append_assoc, trimChars, hstart, trimEndChars, reverse_append, hend,
    reverse_reverse]

end Protobuf.Text

namespace Protobuf.Wire

open Numeric (Digits Sign Width)
open Protobuf.Text

/-! ## What the writer takes for a number -/

/-- A text denotes an integer of a type: it is empty and denotes zero, or it is a sign that the
type has and digits, in range, with blanks around them. -/
inductive Denotes (width : Width) : String → Int → Prop
  | empty : Denotes width "" 0
  | numeral {text : String} {before after : List Char} {sign : Sign} {digits : Digits} :
      text.toList = before ++ (sign.chars ++ digits.chars) ++ after →
      (∀ c ∈ before ++ after, isBlank c = true) → digits.chars ≠ [] →
      (sign = .minus → width.signed = true) → width.least ≤ sign.factor * digits.value →
      sign.factor * digits.value ≤ width.greatest →
      Denotes width text (sign.factor * digits.value)

variable {width : Width} {text : String}

lemma decimal?_eq_some_iff {n : Int} : decimal? width text = some n ↔ Denotes width text n := by
  constructor
  · intro h
    unfold decimal? at h
    split_ifs at h with hempty
    · cases h
      rw [String.isEmpty_iff.mp hempty]
      exact .empty
    · obtain ⟨hinteger, hholds⟩ := filter_eq_some_iff.mp h
      obtain ⟨sign, digits, hchars, hne, hsign, rfl⟩ := integer?_eq_some_iff.mp hinteger
      obtain ⟨before, after, htext, hblank⟩ := exists_eq_trimChars text.toList
      obtain ⟨hleast, hgreatest⟩ := Width.holds_iff.mp hholds
      rw [hchars] at htext
      exact .numeral htext hblank hne hsign hleast hgreatest
  · intro h
    cases h with
    | empty => rfl
    | @numeral _ before after sign digits htext hblank hne hsign hleast hgreatest =>
      have hread : integer? width.signed (sign.chars ++ digits.chars) =
          some (sign.factor * digits.value) :=
        integer?_eq_some_iff.mpr ⟨sign, digits, rfl, hne, hsign, rfl⟩
      have hnonempty : text.isEmpty = false := by
        by_contra hempty
        rw [Bool.not_eq_false, String.isEmpty_iff] at hempty
        rw [hempty] at htext
        simp [hne] at htext
      rw [decimal?, hnonempty, if_neg Bool.false_ne_true, htext,
        trimChars_append hblank (not_isBlank_of_integer? hread) (by simp [hne]), Width.parse?,
        hread, filter_some, if_pos (Width.holds_iff.mpr ⟨hleast, hgreatest⟩)]

/-- The writer takes a text for the number that it denotes, and reports no other text. -/
lemma readDecimal_eq_iff {n : Int} : readDecimal width text = ⟨n, []⟩ ↔ Denotes width text n := by
  rw [← decimal?_eq_some_iff, readDecimal]
  cases decimal? width text <;> simp

lemma readDecimal_of_not_denotes (h : ∀ n, ¬ Denotes width text n) :
    readDecimal width text = ⟨0, [.malformedDecimal text width]⟩ := by
  have hnone : decimal? width text = none :=
    eq_none_iff_forall_ne_some.mpr fun n hn => h n (decimal?_eq_some_iff.mp hn)
  rw [readDecimal, hnone]

lemma denotes_intText {n : Int} (hn : width.holds n) : Denotes width (intText n) n := by
  obtain ⟨hinteger, -⟩ := filter_eq_some_iff.mp (Width.parse?_intChars hn)
  obtain ⟨sign, digits, hchars, hne, hsign, rfl⟩ := integer?_eq_some_iff.mp hinteger
  obtain ⟨hleast, hgreatest⟩ := Width.holds_iff.mp hn
  refine @Denotes.numeral width _ [] [] sign digits ?_ (by simp) hne hsign hleast hgreatest
  rw [toList_intText, hchars, nil_append, append_nil]

end Protobuf.Wire

namespace Protobuf.Json

open Protobuf.Text

/-! ## What JSON values are read as -/

lemma holds_of_toInteger {width : Numeric.Width} {value : Json} {n : Int}
    (h : toInteger width value = .ok n) : width.holds n := by
  unfold toInteger at h
  cases hwide : toWide value with
  | error e => simp [hwide, bind, Except.bind] at h
  | ok k =>
    simp only [hwide, bind, Except.bind] at h
    split_ifs at h with hholds
    cases h
    exact hholds

lemma toIntegerText_eq_ok_iff {width : Numeric.Width} {value : Json} {text : String} :
    toIntegerText width value = .ok text ↔
      ∃ n, toInteger width value = .ok n ∧ width.holds n ∧ text = intText n := by
  unfold toIntegerText
  constructor
  · intro h
    cases hread : toInteger width value with
    | error e => simp [hread, Except.map] at h
    | ok n =>
      rw [hread] at h
      exact ⟨n, rfl, holds_of_toInteger hread, (Except.ok.inj h).symm⟩
  · rintro ⟨n, hread, -, rfl⟩
    rw [hread]
    rfl

end Protobuf.Json

/-! ## What is written -/

lemma Protobuf.Scalar.short_pieces_ofInt {t : Scalar} {width : Numeric.Width}
    (h : t.width? = some width) (n : Int) : Wire.Piece.Short (t.pieces (.ofInt width n)) := by
  cases t <;> cases h <;> exact fun _ hmem => absurd hmem not_mem_nil

namespace Protobuf.Codec

open Plan Wire

/-- Bytes stand on the wire for a text that is held for an integer: they are what is written for
it, with or without a tag, unless it is left out as the zero of a plain field, and they are read as
the integer and as the same text. -/
structure OnWire (s : Schema) (t : Scalar) (text : String) (bytes : List UInt8) (n : Int) :
    Prop where
  bare : Emits (s.writeScalar t (.string text)) bytes
  tagged : ∀ number, Emits (s.writeValue number (.scalar t) (.scalar (.string text)))
    (varint (tagOf number t.wireType).toUInt64 ++ bytes)
  unset_iff : s.isUnset (.scalar t) (.scalar (.string text)) = true ↔ n = 0
  read : ∃ p, p.toInt? = some n ∧ ∀ depth, Reads t.read depth bytes p
  read_text : ∀ depth, Reads (s.readScalar t) depth bytes (.string text)

lemma onWire_intText {s : Schema} {t : Scalar} {width : Numeric.Width}
    (ht : s.textWidth? t = some width) {n : Int} (hn : width.holds n) :
    ∃ bytes, OnWire s t (Text.intText n) bytes n := by
  have hvalue := decimalValue_intText hn
  have hpieces : s.scalarPieces t (.string (Text.intText n)) = t.pieces (.ofInt width n) := by
    simp only [Schema.scalarPieces, ht, hvalue]
  have hheld : s.holdsScalar t (.string (Text.intText n)) := by
    simp only [Schema.holdsScalar, ht]
  have hnorm : s.normScalar t (.string (Text.intText n)) = .string (Text.intText n) := by
    simp only [Schema.normScalar, ht, hvalue]
  have hshort := Scalar.short_pieces_ofInt (Schema.width?_of_textWidth? ht) n
  have hbare := s.emits_writeScalar t (.string (Text.intText n))
  refine ⟨Piece.flatten (s.scalarPieces t (.string (Text.intText n))), hbare, ?_, ?_, ?_, ?_⟩
  · exact fun number => .raw_cons _ hbare
  · rw [Schema.isUnset_of_textWidth? ht, hvalue, beq_iff_eq]
  · refine ⟨_, Primitive.toInt?_ofInt hn, ?_⟩
    rw [hpieces]
    exact Scalar.reads_pieces (s.holds_ofInt ht n) hshort
  · intro depth
    have hread := Schema.reads_scalarPieces hheld (by rwa [hpieces]) depth
    rwa [hnorm] at hread

/-- A text is taken for the integer that it denotes, and for zero with a report if it denotes none;
the numeral of an integer denotes it. The text that a JSON value is read as is the numeral of the
integer that the value is read as; it is kept as it is when it is read again, as a value or as a
key, and stands on the wire for that integer. -/
theorem decimal_text_agrees (width : Numeric.Width) :
    (∀ (text : String) (n : Int), readDecimal width text = ⟨n, []⟩ ↔ Denotes width text n) ∧
    (∀ text : String, (∀ n, ¬ Denotes width text n) →
      readDecimal width text = ⟨0, [.malformedDecimal text width]⟩) ∧
    (∀ n : Int, width.holds n = true → readDecimal width (Text.intText n) = ⟨n, []⟩) ∧
    ∀ (value : Json) (text : String), Json.toIntegerText width value = .ok text →
      ∃ n, Json.toInteger width value = .ok n ∧ text = Text.intText n ∧
        Json.toIntegerText width (.string text) = .ok text ∧
        Json.decimalKey width text = .ok text ∧ readDecimal width text = ⟨n, []⟩ ∧
        ∀ (s : Schema) (t : Scalar), s.textWidth? t = some width →
          ∃ bytes, OnWire s t text bytes n := by
  have hback (n : Int) (hn : width.holds n = true) :
      readDecimal width (Text.intText n) = ⟨n, []⟩ := readDecimal_eq_iff.mpr (denotes_intText hn)
  refine ⟨fun _ _ => readDecimal_eq_iff, fun _ => readDecimal_of_not_denotes, hback, ?_⟩
  intro value text h
  obtain ⟨n, hread, hn, rfl⟩ := Json.toIntegerText_eq_ok_iff.mp h
  refine ⟨n, hread, rfl, ?_, Json.decimalKey_intText hn, hback n hn, ?_⟩
  · exact Json.toIntegerText_eq_ok_iff.mpr ⟨n, Json.toInteger_intText hn, hn, rfl⟩
  · exact fun s t ht => onWire_intText ht hn

theorem decimal_text_agrees_seven : ∃ s : Schema, s.textWidth? .sint64 = some .int64 ∧
    Json.toIntegerText .int64 (.string " +007 ") = .ok "7" ∧
    readDecimal .int64 "7" = ⟨7, []⟩ ∧ ∃ bytes, OnWire s .sint64 "7" bytes 7 := by
  have hread : Json.toInteger .int64 (.string " +007 ") = .ok 7 := by decide +kernel
  have htext : Json.toIntegerText .int64 (.string " +007 ") = .ok "7" := by decide +kernel
  obtain ⟨n, hn, -, -, -, hback, hwire⟩ :=
    (decimal_text_agrees .int64).2.2.2 (.string " +007 ") "7" htext
  obtain rfl := Except.ok.inj (hn.symm.trans hread)
  exact ⟨⟨{ longs := .decimal }, fun _ => []⟩, rfl, htext, hback, hwire _ .sint64 rfl⟩

end Protobuf.Codec
