import Protobuf.Proofs.Codec.Filled

/-!
# Encoding what was decoded

A decoded message can be encoded and decoded again, and comes back as it was but for
the sign of zeros that are left out. One thing is in the way: where an entry of a map
lacks its value, one is filled in, and if the value is a message then encoding writes
it one level deeper than the decoder had to go. At the last level that is too deep.
-/

open Protobuf.Codec.Schema

namespace Protobuf.Codec

open Plan Wire List

variable {s : Schema} {levels : Nat} {kind : ValueKind}

/-! ## What is made fits -/

namespace Schema

lemma holdsScalar_present {t : Scalar} {p : Primitive} (hp : t.holds p) :
    s.holdsScalar t (s.present t p) := by
  unfold holdsScalar
  cases ht : s.textWidth? t with
  | none => rwa [s.present_of_textWidth?_none ht]
  | some width =>
    obtain ⟨n, -, hpresent, -, -⟩ := s.present_of_textWidth? ht hp
    rw [hpresent]

lemma normScalar_present {t : Scalar} {p : Primitive} (hp : t.holds p) :
    s.normScalar t (s.present t p) = s.present t p := by
  unfold normScalar
  cases ht : s.textWidth? t with
  | none => rfl
  | some width =>
    obtain ⟨n, -, hpresent, hdecimal, -⟩ := s.present_of_textWidth? ht hp
    simp only [hpresent, hdecimal]

end Schema

lemma slotsFit_iff_forall₂ {members : List Member} {slots : List Slot} :
    SlotsFit s members slots ↔ List.Forall₂ (SlotFits s) members slots := by
  constructor
  · intro h
    induction members generalizing slots with
    | nil =>
      cases h
      exact .nil
    | cons member members ih =>
      cases h with
      | cons hslot hslots => exact .cons hslot (ih hslots)
  · intro h
    induction h with
    | nil => exact .nil
    | cons hslot _ ih => exact .cons hslot ih

lemma EntryMade.exists_key {key value : FieldPlan} {e : Primitive × Value}
    (h : EntryMade s levels key value e) :
    ∃ t p, key.kind = .scalar t ∧ t.holds p ∧ e.1 = s.present t p := by
  cases h with
  | value hkey hk _ | missing hkey hk _ => exact ⟨_, _, hkey, hk, rfl⟩

mutual

theorem Made.fits {levels : Nat} {kind : ValueKind} {v : Value} (h : Made s levels kind v)
    (hplan : s.AllWellPlanned) : Fits s kind v := by
  cases h with
  | scalar hp => exact .scalar (holdsScalar_present hp)
  | choice hc => exact .choice hc
  | wrapper hp => exact .wrapper hp
  | time t => exact .time t
  | @message levels ref m hlength hslots =>
    refine .message (slotsFit_iff_forall₂.mpr (forall₂_iff_zip.mpr ⟨hlength, ?_⟩))
    intro member slot hx
    exact (hslots _ hx).fits hplan (of_mem_zip hx).1
termination_by 3 * levels - 1

theorem EntryMade.fits {levels : Nat} {key value : FieldPlan} {e : Primitive × Value}
    (h : EntryMade s levels key value e) (hplan : s.AllWellPlanned) : Fits s value.kind e.2 := by
  cases h with
  | value _ _ hv => exact hv.fits hplan
  | missing _ _ _ =>
    rcases made_missingValue hplan value.kind with h | ⟨t, width, hkind, ht, hvalue⟩
    · exact h.fits hplan
    · rw [hvalue, hkind]
      exact .scalar (by simp [holdsScalar, ht])
termination_by 3 * levels + 3

theorem SlotMade.fits {levels : Nat} {name : String} {member : Member} {slot : Slot}
    (h : SlotMade s levels member slot) (hplan : s.AllWellPlanned)
    (hmember : member ∈ s.members name) : SlotFits s member slot := by
  cases h with
  | plain hlayout hv => exact .plain hlayout (hv.fits hplan)
  | absent hlayout => exact .absent hlayout
  | present hlayout hv => exact .present hlayout (hv.fits hplan)
  | repeated hlayout hvs => exact .repeated hlayout fun v hv => (hvs v hv).fits hplan
  | empty hlayout =>
    obtain ⟨t, ht⟩ := (hplan hmember).key hlayout
    exact .map hlayout ht (by simp) (by simp) (by simp)
  | @map levels p key value entry entries hlayout hes hnodup =>
    obtain ⟨t, ht⟩ := (hplan hmember).key hlayout
    have hkey : ∀ e ∈ entries, ∃ p, t.holds p ∧ e.1 = s.present t p := by
      intro e he
      obtain ⟨t', p, ht', hp, hkey⟩ := (hes e he).exists_key
      rw [ht] at ht'
      cases ht'
      exact ⟨p, hp, hkey⟩
    have hkeys : (entries.map fun e => s.normScalar t e.1) = entries.map Prod.fst := by
      refine map_congr_left fun e he => ?_
      obtain ⟨p, hp, hkey⟩ := hkey e he
      rw [hkey, normScalar_present hp]
    refine .map hlayout ht ?_ (fun e he => (hes e he).fits hplan) (hkeys ▸ hnodup)
    intro e he
    obtain ⟨p, hp, hkey⟩ := hkey e he
    rw [hkey]
    exact holdsScalar_present hp
  | unset u => exact .unset u
  | chosen hkind hv => exact .chosen hkind (hv.fits hplan)
termination_by 3 * levels + 1

end

lemma MessageMade.fits {name : String} {m : Message} (h : MessageMade s levels name m)
    (hplan : s.AllWellPlanned) : SlotsFit s (s.members name) m := by
  obtain ⟨hlength, hslots⟩ := forall₂_iff_zip.mp h
  refine slotsFit_iff_forall₂.mpr (forall₂_iff_zip.mpr ⟨hlength, ?_⟩)
  intro member slot hx
  exact (hslots hx).fits hplan (of_mem_zip hx).1

/-! ## What changes -/

namespace Schema

/-- The schema with all numbers held as numbers. -/
def native (s : Schema) : Schema :=
  { s with options := { s.options with longs := .number } }

lemma native_normScalar (s : Schema) (t : Scalar) (p : Primitive) :
    s.native.normScalar t p = p := by
  simp [normScalar, textWidth?, native, Options.decimalLongs]

/-- The message with the zeros of plain floats and of floats in wrappers made positive. Nothing
else is changed; texts that stand for numbers are kept as they are. -/
def positiveZeros (s : Schema) (name : String) (m : Message) : Message :=
  s.native.norm name m

/-- Where the value of a map entry tracks presence, it is no number held as text. -/
def EntriesNative (s : Schema) : Prop :=
  ∀ name p entry key value t, .field p ∈ s.members name → p.layout = .map entry key value →
    value.field.tracksPresence = true → value.kind = .scalar t → s.textWidth? t = none

lemma normValues_congr {s' : Schema} {vs : List Value}
    (h : ∀ v ∈ vs, s.normValue kind v = s'.normValue kind v) :
    s.normValues kind vs = s'.normValues kind vs := by
  induction vs with
  | nil => rfl
  | cons v vs ih =>
    rw [normValues, normValues, h v (by simp), ih fun u hu => h u (by simp [hu])]

lemma normEntries_congr {s' : Schema} {t : Scalar} {entries : List (Primitive × Value)}
    (hkeys : ∀ e ∈ entries, s.normScalar t e.1 = s'.normScalar t e.1)
    (hvalues : ∀ e ∈ entries, s.normValue kind e.2 = s'.normValue kind e.2) :
    s.normEntries (.scalar t) kind entries = s'.normEntries (.scalar t) kind entries := by
  induction entries with
  | nil => rfl
  | cons e entries ih =>
    simp only [normEntries, hkeys e (by simp), hvalues e (by simp),
      ih (fun d hd => hkeys d (by simp [hd])) fun d hd => hvalues d (by simp [hd])]

lemma normSlots_congr {s' : Schema} {members : List Member} {slots : List Slot}
    (h : ∀ x ∈ members.zip slots, s.normSlot x.1 x.2 = s'.normSlot x.1 x.2) :
    s.normSlots members slots = s'.normSlots members slots := by
  induction members generalizing slots with
  | nil => cases slots <;> rfl
  | cons member members ih =>
    cases slots with
    | nil => rfl
    | cons slot slots =>
      rw [normSlots, normSlots, h (member, slot) (by simp),
        ih fun x hx => h x (by simp [hx])]

end Schema

mutual

theorem Made.normValue_eq {levels : Nat} {kind : ValueKind} {v : Value} (h : Made s levels kind v)
    (hplan : s.AllWellPlanned) (hentries : s.EntriesNative) :
    s.normValue kind v = s.native.normValue kind v := by
  cases h with
  | scalar hp =>
    simp only [normValue, normScalar_present hp, s.native_normScalar]
  | choice _ | wrapper _ | time t => rfl
  | @message levels ref m hlength hslots =>
    refine congrArg Value.message (normSlots_congr fun x hx => ?_)
    exact (hslots x hx).normSlot_eq hplan hentries (of_mem_zip hx).1
termination_by 3 * levels - 1

theorem EntryMade.normValue_eq {levels : Nat} {key value : FieldPlan} {e : Primitive × Value}
    (h : EntryMade s levels key value e) (hplan : s.AllWellPlanned)
    (hentries : s.EntriesNative)
    (hscalar : value.layout = .optional → ∀ t, value.kind = .scalar t → s.textWidth? t = none) :
    s.normValue value.kind e.2 = s.native.normValue value.kind e.2 := by
  cases h with
  | value _ _ hv => exact hv.normValue_eq hplan hentries
  | missing _ _ hlayout =>
    rcases made_missingValue hplan value.kind with h | ⟨t, width, hkind, ht, -⟩
    · exact h.normValue_eq hplan hentries
    · rw [hscalar hlayout t hkind] at ht
      cases ht
termination_by 3 * levels + 3

theorem SlotMade.normSlot_eq {levels : Nat} {name : String} {member : Member} {slot : Slot}
    (h : SlotMade s levels member slot) (hplan : s.AllWellPlanned)
    (hentries : s.EntriesNative) (hmember : member ∈ s.members name) :
    s.normSlot member slot = s.native.normSlot member slot := by
  cases h with
  | plain _ hv => simp only [normSlot, hv.normValue_eq hplan hentries]
  | absent _ => rfl
  | present _ hv => simp only [normSlot, hv.normValue_eq hplan hentries]
  | repeated _ hvs =>
    refine congrArg Slot.repeated (normValues_congr fun v hv => ?_)
    exact (hvs v hv).normValue_eq hplan hentries
  | empty hlayout => simp only [normSlot, hlayout, normEntries]
  | @map levels p key value entry entries hlayout hes _ =>
    obtain ⟨t, ht⟩ := (hplan hmember).key hlayout
    simp only [normSlot, hlayout, ht]
    refine congrArg Slot.map (normEntries_congr (fun e he => ?_) fun e he => ?_)
    · obtain ⟨t', p, ht', hp, hkey⟩ := (hes e he).exists_key
      rw [ht] at ht'
      cases ht'
      rw [hkey, normScalar_present hp, s.native_normScalar]
    · refine (hes e he).normValue_eq hplan hentries fun hoptional t hkind => ?_
      exact hentries name p entry key value t hmember hlayout
        ((hplan hmember).missing hlayout hoptional hkind) hkind
  | unset u => rfl
  | chosen hkind hv => simp only [normSlot, hkind, hv.normValue_eq hplan hentries]
termination_by 3 * levels + 1

end

lemma MessageMade.norm_eq {name : String} {m : Message} (h : MessageMade s levels name m)
    (hplan : s.AllWellPlanned) (hentries : s.EntriesNative) :
    s.norm name m = s.positiveZeros name m := by
  refine normSlots_congr fun x hx => ?_
  exact ((forall₂_iff_zip.mp h).2 hx).normSlot_eq hplan hentries (of_mem_zip hx).1

/-! ## A tree of nodes -/

/-- A file with one message, a node with a next node and with kids under their names. -/
private def treeFile : Descriptor.File :=
  { name := "tree.proto"
    package := "tree"
    dialect := "proto3"
    messages := [{
      name := "Node"
      fields := [Sample.message ".tree.Node" "next" 1,
        Sample.many (Sample.message ".tree.Node.KidsEntry" "kids" 2)]
      messages := [
        Sample.mapEntry "KidsEntry" (Sample.scalar .string) (Sample.message ".tree.Node")] }] }

private def treeSchema : Schema := .planned [treeFile] {}

private lemma treeSchema_compiles :
    Schema.ofFiles [treeFile] {} = .ok treeSchema ∧ treeSchema.Compiles :=
  planned_compiles [treeFile] {} (by decide +kernel)

/-- Nodes, each one the next of the one before it. The last one has a kid without a name, in which
nothing is set. -/
private def tower : Nat → Message
  | 0 => [.optional none, .map [(.string "", .message [.optional none, .map []])]]
  | n + 1 => [.optional (some (.message (tower n))), .map []]

/-- The content of a last node, as the next one of so many nodes. -/
private def nestedNext (last : List Piece) : Nat → List Piece
  | 0 => last
  | n + 1 => [tagPiece 1 2, .block (nestedNext last n)]

/-- The bytes of a tower, in which the kid is an entry without anything in it. -/
private def towerBytes (n : Nat) : List UInt8 :=
  Piece.flatten (nestedNext [tagPiece 2 2, .block []] n)

/-! ## Decoding again -/

/-- A decoded message is decoded again in its normal form, unless a value was filled in at the last
level; then it cannot be decoded. Its normal form is the message itself but for the sign of zeros
that are left out, unless a number held as text was filled in. -/
theorem Schema.decode_encode_of_decode {files : List Descriptor.File} {options : Options}
    (hs : ofFiles files options = .ok s) (hc : s.Compiles) {name : String} {bytes : List UInt8}
    {m : Message} (h : s.decode name bytes = .ok m)
    (hlength : (s.encode name m).length < UInt32.size) :
    (¬ FilledAt s recursionLimit name m → s.decode name (s.encode name m) = .ok (s.norm name m)) ∧
    (FilledAt s recursionLimit name m → ∃ offset,
      s.decode name (s.encode name m) = .error (.recursionLimit offset recursionLimit)) ∧
    (s.EntriesNative → s.norm name m = s.positiveZeros name m) := by
  have hplan : s.AllWellPlanned := ofFiles_wellPlanned hs
  have hmade := messageMade_of_decode (hc.sound hs) hplan h
  have hfits := hmade.fits hplan
  rw [s.encode_eq_flatten hfits] at hlength
  obtain ⟨hok, herror⟩ := (hc.sound hs).reads_back hfits (Piece.short_of_length_lt hlength)
  refine ⟨fun hfilled => hok ?_, fun hfilled => herror ?_, hmade.norm_eq hplan⟩
  · exact Nat.le_of_not_lt fun hlt => hfilled ((hmade.lt_nesting_iff hplan).mp hlt)
  · exact hfilled.lt_nesting

/-- A tower as high as can be decoded is refused once its kid is written. -/
theorem Schema.filled_kid_too_deep : ∃ (s : Schema) (bytes : List UInt8) (m : Message),
    ofFiles [treeFile] {} = .ok s ∧ s.Compiles ∧ bytes.length < UInt32.size ∧
    s.decode ".tree.Node" bytes = .ok m ∧ (s.encode ".tree.Node" m).length < UInt32.size ∧
    ∃ offset,
      s.decode ".tree.Node" (s.encode ".tree.Node" m) = .error (.recursionLimit offset 100) := by
  obtain ⟨hs, hc⟩ := treeSchema_compiles
  exact ⟨treeSchema, towerBytes 99, tower 99, hs, hc, by decide +kernel, by decide +kernel,
    by decide +kernel, 242, by decide +kernel⟩

/-- A tower that is one node lower comes back. -/
theorem Schema.decode_encode_of_decode_tower : ∃ s : Schema,
    ofFiles [treeFile] {} = .ok s ∧ s.Compiles ∧
    s.decode ".tree.Node" (towerBytes 98) = .ok (tower 98) ∧
    (s.encode ".tree.Node" (tower 98)).length < UInt32.size ∧
    ¬ FilledAt s recursionLimit ".tree.Node" (tower 98) ∧ s.EntriesNative ∧
    s.decode ".tree.Node" (s.encode ".tree.Node" (tower 98)) = .ok (tower 98) := by
  obtain ⟨hs, hc⟩ := treeSchema_compiles
  have hdecode : treeSchema.decode ".tree.Node" (towerBytes 98) = .ok (tower 98) := by
    decide +kernel
  have hlength : (treeSchema.encode ".tree.Node" (tower 98)).length < UInt32.size := by
    decide +kernel
  have hfilled : ¬ FilledAt treeSchema recursionLimit ".tree.Node" (tower 98) :=
    fun hfilled => absurd hfilled.lt_nesting (by decide +kernel)
  have hnative : treeSchema.EntriesNative := fun _ _ _ _ _ _ _ _ _ _ => by
    simp [treeSchema, planned, textWidth?, Options.decimalLongs]
  have hpositive : treeSchema.positiveZeros ".tree.Node" (tower 98) = tower 98 := by
    decide +kernel
  obtain ⟨hok, -, hnorm⟩ := decode_encode_of_decode hs hc hdecode hlength
  refine ⟨treeSchema, hs, hc, hdecode, hlength, hfilled, hnative, ?_⟩
  rw [hok hfilled, hnorm hnative, hpositive]

end Protobuf.Codec
