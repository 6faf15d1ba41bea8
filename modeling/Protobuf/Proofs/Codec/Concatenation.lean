import Protobuf.Proofs.Codec.Reencoding

/-!
# Concatenated messages

The bytes of two messages, one after the other, are those of a message: the second one
merged into the first one. So it is with any bytes that a message was read from, since
the records of the second message are read into what was there when they begin.
-/

namespace Protobuf.Codec

open Plan Wire

namespace Schema

variable {s : Schema} {name : String}

/-- The message comes back from its bytes as another one, which is its normal form. A length that
does not fit into 32 bits is not written as it is, so no block of the message may have one. -/
structure RoundTrips (s : Schema) (name : String) (m m' : Message) : Prop where
  fits : SlotsFit s (s.members name) m
  short : Piece.Short (s.pieces name m)
  decode_eq : s.decode name (s.encode name m) = .ok m'

/-- What comes back is the normal form, and the reader did not have to go too deep for it. -/
lemma RoundTrips.norm_eq {m m' : Message} (h : s.RoundTrips name m m') (hs : s.Sound) :
    s.norm name m = m' ∧ slotsNesting m ≤ recursionLimit := by
  obtain ⟨hok, herror⟩ := hs.reads_back h.fits h.short
  have hdecode := h.decode_eq
  by_cases hnesting : slotsNesting m ≤ recursionLimit
  · rw [hok hnesting] at hdecode
    cases hdecode
    exact ⟨rfl, hnesting⟩
  · obtain ⟨offset, hfail⟩ := herror (by omega)
    rw [hfail] at hdecode
    cases hdecode

lemma Sound.decode_append (hs : s.Sound) (hplan : s.AllWellPlanned) {bytes : List UInt8}
    {m₁ m₂ : Message} (h₁ : s.decode name bytes = .ok m₁) (hm₂ : SlotsFit s (s.members name) m₂)
    (hshort : Piece.Short (s.pieces name m₂)) (hnesting : slotsNesting m₂ ≤ recursionLimit) :
    s.decode name (bytes ++ s.encode name m₂) = .ok (s.merge name m₁ (s.norm name m₂)) := by
  have hshaped := ((messageMade_of_decode hs hplan h₁).fits hplan).shaped
  obtain ⟨hmessages, hentries⟩ := readsWithin hs recursionLimit (le_refl (recursionLimit + 0))
  have hrecords := recordsNested_message hs (Nat.zero_le _) hmessages hentries hshaped hm₂ hshort
  rw [decode_eq_ok_iff] at h₁ ⊢
  rw [s.encode_eq_flatten hm₂]
  exact h₁.append (hrecords.1 (by omega))

variable {files : List Descriptor.File} {options : Options}

/-- The bytes of two messages, one after the other, are read as the second message merged into the
first one, and merging is a monoid on the messages that come back. -/
theorem decode_encode_append (hs : ofFiles files options = .ok s) (hc : s.Compiles)
    {m₁ m₁' m₂ m₂' m₃ m₃' : Message} (h₁ : s.RoundTrips name m₁ m₁')
    (h₂ : s.RoundTrips name m₂ m₂') (h₃ : s.RoundTrips name m₃ m₃') :
    s.decode name (s.encode name m₁ ++ s.encode name m₂) = .ok (s.merge name m₁' m₂') ∧
    s.merge name (s.merge name m₁' m₂') m₃' = s.merge name m₁' (s.merge name m₂' m₃') ∧
    s.merge name (s.zero name) m₁' = m₁' ∧ s.merge name m₁' (s.zero name) = m₁' := by
  have hsound := hc.sound hs
  have hplan : s.AllWellPlanned := ofFiles_wellPlanned hs
  have hfits {m m' : Message} (h : s.RoundTrips name m m') : SlotsFit s (s.members name) m' :=
    (messageMade_of_decode hsound hplan h.decode_eq).fits hplan
  obtain ⟨hnorm₁, -⟩ := h₁.norm_eq hsound
  obtain ⟨hnorm₂, hnesting₂⟩ := h₂.norm_eq hsound
  refine ⟨?_, mergeSlots_assoc (hfits h₁).shaped (hfits h₂) (hfits h₃), ?_, ?_⟩
  · rw [← hnorm₂]
    exact hsound.decode_append hplan h₁.decode_eq h₂.fits h₂.short hnesting₂
  · rw [← hnorm₁]
    exact mergeSlots_zero_left h₁.fits
  · exact mergeSlots_zero_right (hfits h₁).shaped fun p hp => (hplan hp).plain

/-! ## A tally -/

/-- A file with one message: a count, marks, and numbers under names. -/
private def tallyFile : Descriptor.File :=
  { name := "tally.proto"
    package := "tally"
    dialect := "proto3"
    messages := [{
      name := "Tally"
      fields := [Sample.scalar .int64 "count" 1, Sample.many (Sample.scalar .int32 "marks" 2),
        Sample.many (Sample.message ".tally.Tally.NamesEntry" "names" 3)]
      messages := [
        Sample.mapEntry "NamesEntry" (Sample.scalar .string) (Sample.scalar .int32)] }] }

private def tallySchema : Schema := planned [tallyFile] { longs := .decimal }

private def tally (count : String) (marks : List Int32) (names : List (String × Int32)) : Message :=
  [.plain (.scalar (.string count)), .repeated (marks.map fun n => .scalar (.int32 n)),
    .map (names.map fun e => (.string e.1, .scalar (.int32 e.2)))]

/-- A later tally without a count adds its mark and replaces a number under a name. -/
theorem decode_encode_append_tallies : ∃ s : Schema,
    ofFiles [tallyFile] { longs := .decimal } = .ok s ∧ s.Compiles ∧
    s.RoundTrips ".tally.Tally" (tally "005" [1, 2] [("a", 1), ("b", 2)])
      (tally "5" [1, 2] [("a", 1), ("b", 2)]) ∧
    s.RoundTrips ".tally.Tally" (tally "" [3] [("b", 7)]) (tally "0" [3] [("b", 7)]) ∧
    s.decode ".tally.Tally" (s.encode ".tally.Tally" (tally "005" [1, 2] [("a", 1), ("b", 2)]) ++
        s.encode ".tally.Tally" (tally "" [3] [("b", 7)])) =
      .ok (tally "5" [1, 2, 3] [("a", 1), ("b", 7)]) := by
  obtain ⟨hs, hc⟩ := planned_compiles [tallyFile] { longs := .decimal } (by decide +kernel)
  have h₁ : tallySchema.RoundTrips ".tally.Tally" (tally "005" [1, 2] [("a", 1), ("b", 2)])
      (tally "5" [1, 2] [("a", 1), ("b", 2)]) :=
    ⟨slotsFit_sound _ (by decide +kernel), by decide +kernel, by decide +kernel⟩
  have h₂ : tallySchema.RoundTrips ".tally.Tally" (tally "" [3] [("b", 7)])
      (tally "0" [3] [("b", 7)]) :=
    ⟨slotsFit_sound _ (by decide +kernel), by decide +kernel, by decide +kernel⟩
  exact ⟨tallySchema, hs, hc, h₁, h₂,
    (decode_encode_append hs hc h₁ h₂ h₂).1.trans (by decide +kernel)⟩

end Schema

end Protobuf.Codec
