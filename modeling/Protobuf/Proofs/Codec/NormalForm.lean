import Protobuf.Proofs.Codec.FrameIsolation
import Protobuf.Proofs.Codec.WireForm

/-!
# Normal forms

A value that is written and read again comes back as its normal form. Normal forms
differ from what was written in two ways: a number held as text becomes its
numeral, and a zero that is left out on the wire loses its sign. This module reads
back single values; messages inside them are left to the reader of messages.
-/

open Protobuf.Wire.Reader Protobuf.Wire.Piece Bool Protobuf.Primitive

namespace Protobuf

open Wire

/-! ## Leaves -/

/-- The value with a zero of either sign made positive. -/
def Primitive.positive : Primitive → Primitive
  | .double x => .double (if x.isZero then .zero else x)
  | .float x => .float (if x.isZero then .zero else x)
  | p => p

lemma Primitive.positive_of_isZero_eq_false {p : Primitive} (h : p.isZero = false) :
    p.positive = p := by
  cases p with
  | double x | float x => simp only [isZero] at h; simp [positive, h]
  | _ => rfl

lemma Primitive.positive_positive (p : Primitive) : p.positive.positive = p.positive := by
  cases p with
  | double x | float x => by_cases h : x.isZero <;> simp [positive, h]
  | _ => rfl

lemma Scalar.positive_eq_zero {t : Scalar} {p : Primitive} (hp : t.holds p)
    (hzero : p.isZero) : p.positive = t.zero := by
  cases t <;> cases p <;> simp only [holds, false_eq_true] at hp <;>
    simp_all [isZero, positive, zero]

namespace Timestamp

lemma toInstant_ofInstant (t : Time.Instant) : (ofInstant t).toInstant = t := by
  obtain ⟨seconds, nanos, hvalid⟩ := t
  obtain ⟨hfirst, hlast, hnanos, -⟩ := id hvalid
  have hs : (Int64.ofInt seconds).toInt = seconds := by
    apply Int64.toInt_ofInt_of_le <;> simp only [Time.firstSecond, Time.lastSecond] at * <;> omega
  have hn : (Int32.ofInt nanos).toInt = nanos := by
    apply Int32.toInt_ofInt_of_le <;> omega
  have hparts : (0 : Int) ≤ nanos ∧ Time.IsInstant seconds (nanos : Int).toNat :=
    ⟨Int.natCast_nonneg _, hvalid⟩
  rw [toInstant, ofInstant, hs, hn, Time.Instant.ofParts?, dif_pos hparts]
  rfl

lemma recordsRead_pieces (t : Timestamp) (depth : Nat) :
    RecordsRead field depth (Piece.flatten t.pieces) zero t := by
  rw [pieces, flatten_append]
  have hseconds : RecordsRead field depth (flatten (if t.seconds = 0 then []
      else [.raw (varint (8 : UInt32).toUInt64), .raw (varint t.seconds.toUInt64)]))
      zero ⟨t.seconds, 0⟩ := by
    split_ifs with hzero
    · rw [hzero]
      exact .done _
    · have h := (reads_varint t.seconds.toUInt64 depth).map UInt64.toInt64
      rw [Int64.toInt64_toUInt64] at h
      simp only [Piece.flatten, Piece.bytes, List.append_nil]
      exact .single (reads_uint32 8 depth) (h.map fun seconds => Timestamp.mk seconds 0)
  have hnanos : RecordsRead field depth (flatten (if t.nanos = 0 then []
      else [.raw (varint (16 : UInt32).toUInt64), .raw (varint t.nanos.toInt64.toUInt64)]))
      ⟨t.seconds, 0⟩ t := by
    split_ifs with hzero
    · have ht : t = ⟨t.seconds, 0⟩ := by rw [← hzero]
      rw [← ht]
      exact .done _
    · simp only [Piece.flatten, Piece.bytes, List.append_nil]
      exact .single (reads_uint32 16 depth)
        ((reads_int32 t.nanos depth).map (Timestamp.mk t.seconds))
  exact hseconds.append hnanos

end Timestamp

lemma Wrapper.reads_pieces {k : Wrapper} {p : Primitive} (hp : k.scalar.holds p)
    (hshort : Piece.Short [.block (k.pieces p)]) (depth : Nat) :
    Reads k.read depth (Piece.flatten [.block (k.pieces p)]) p.positive := by
  obtain ⟨hlength, hinner, -⟩ := short_block_cons.mp hshort
  have hrecords : RecordsRead (fun number wireType value =>
      if number = 1 then k.scalar.read
      else do
        skipValue wireType
        return value) depth (flatten (k.pieces p)) k.scalar.zero p.positive := by
    unfold pieces at hinner ⊢
    split_ifs at hinner ⊢ with hzero
    · rw [Scalar.positive_eq_zero hp hzero]
      exact .done _
    · rw [not_eq_true] at hzero
      rw [positive_of_isZero_eq_false hzero]
      refine .single (reads_uint32 _ depth) ?_
      rw [if_pos (by cases k <;> rfl)]
      exact Scalar.reads_pieces hp (short_raw_cons.mp hinner) depth
  simp only [flatten, List.append_nil]
  refine (reads_length hlength depth).bind ?_
  rw [UInt32.toNat_ofNat_of_lt' hlength]
  exact reads_frame hrecords

lemma Primitive.toInt?_ofInt {width : Numeric.Width} {n : Int} (h : width.holds n) :
    (ofInt width n).toInt? = some n := by
  simp only [Numeric.Width.holds, and_eq_true, decide_eq_true_eq] at h
  cases width <;> simp only [Numeric.Width.least, Numeric.Width.greatest] at h <;>
    simp only [ofInt, toInt?, Option.some.injEq]
  case int32 => exact Int32.toInt_ofInt_of_le h.1 (by omega)
  case int64 => exact Int64.toInt_ofInt_of_le h.1 (by omega)
  case uint32 => simp only [UInt32.ofInt, UInt32.toNat_ofNat']; omega
  case uint64 => simp only [UInt64.ofInt, UInt64.toNat_ofNat']; omega

lemma Wire.holds_decimalValue (width : Numeric.Width) (text : String) :
    width.holds (decimalValue width text) := by
  have hzero : width.holds 0 := by cases width <;> rfl
  unfold decimalValue decimal?
  split_ifs with hempty
  · exact hzero
  · cases hparse : width.parse? (Text.trimChars text.toList) with
    | none => exact hzero
    | some n => exact (Option.filter_eq_some_iff.mp hparse).2

/-- An enum that leaves one number free takes every value back from its number. -/
lemma Schema.Enum.ofNumber_number {e : Enum} {c : Codec.Choice} (hc : e.has c)
    (hfree : Plan.unusedNumber (e.values.map EnumValue.number) ∉ e.values.map EnumValue.number) :
    e.ofNumber (e.number c) = c := by
  cases c with
  | declared n => exact if_pos hc
  | unrecognized =>
    refine if_neg ?_
    simpa [number] using hfree

end Protobuf

namespace Protobuf.Codec

open Plan Wire

namespace Schema

lemma reads_scalarPieces {s : Schema} {t : Scalar} {p : Primitive}
    (hp : s.holdsScalar t p) (hshort : Piece.Short (s.scalarPieces t p)) (depth : Nat) :
    Reads (s.readScalar t) depth (Piece.flatten (s.scalarPieces t p)) (s.normScalar t p) := by
  unfold holdsScalar at hp
  unfold scalarPieces at hshort ⊢
  unfold readScalar normScalar
  cases ht : s.textWidth? t with
  | none =>
    simp only [ht] at hp hshort ⊢
    exact (Scalar.reads_pieces hp hshort depth).map id
  | some width =>
    cases p with
    | string text =>
      have hread := Scalar.reads_pieces (s.holds_ofInt ht (decimalValue width text))
        (by simpa only [ht] using hshort) depth
      refine hread.bind_pure ?_
      simp only [toInt?_ofInt (holds_decimalValue width text)]
    | _ => simp only [ht, false_eq_true] at hp

end Schema

/-! ## Normal forms -/

def Value.positive : Value → Value
  | .scalar p => .scalar p.positive
  | v => v

namespace Schema

mutual

def normValue (s : Schema) (kind : ValueKind) : Value → Value
  | .scalar p =>
    match kind with
    | .scalar t => .scalar (s.normScalar t p)
    | .wrapper _ => .scalar p.positive
    | _ => .scalar p
  | .choice c => .choice c
  | .time t => .time t
  | .message slots =>
    match kind with
    | .message ref => .message (normSlots s (s.members ref.qualifiedName) slots)
    | _ => .message slots

def normValues (s : Schema) (kind : ValueKind) : List Value → List Value
  | [] => []
  | v :: vs => normValue s kind v :: normValues s kind vs

def normEntries (s : Schema) (key value : ValueKind) :
    List (Primitive × Value) → List (Primitive × Value)
  | [] => []
  | (k, v) :: entries =>
    let k :=
      match key with
      | .scalar t => s.normScalar t k
      | _ => k
    (k, normValue s value v) :: normEntries s key value entries

/-- The normal form of what a member holds. Only where a zero is left out it loses its sign. -/
def normSlot (s : Schema) (m : Member) : Slot → Slot
  | .plain v =>
    match m with
    | .field p => .plain (normValue s p.kind v).positive
    | .union _ => .plain v
  | .optional none => .optional none
  | .optional (some v) =>
    match m with
    | .field p => .optional (some (normValue s p.kind v))
    | .union _ => .optional (some v)
  | .repeated vs =>
    match m with
    | .field p => .repeated (normValues s p.kind vs)
    | .union _ => .repeated vs
  | .map entries =>
    match m with
    | .field p =>
      match p.layout with
      | .map _ key value => .map (normEntries s key.kind value.kind entries)
      | _ => .map entries
    | .union _ => .map entries
  | .union none => .union none
  | .union (some (number, v)) =>
    match m.kind? number with
    | some kind => .union (some (number, normValue s kind v))
    | none => .union (some (number, v))

def normSlots (s : Schema) : List Member → List Slot → List Slot
  | m :: members, slot :: slots => normSlot s m slot :: normSlots s members slots
  | _, slots => slots

end

def norm (s : Schema) (name : String) (m : Message) : Message :=
  s.normSlots (s.members name) m

end Schema

/-! ## Reading values -/

/-- An enum has a number left for what it does not declare. -/
def SentinelFree : ValueKind → Prop
  | .enum _ e => unusedNumber (e.values.map Schema.EnumValue.number) ∉
      e.values.map Schema.EnumValue.number
  | _ => True

namespace Schema

variable {s : Schema} {inner : MessageReader} {depth : Nat}

variable {kind : ValueKind} {v : Value}

lemma positive_normValue_of_isUnset (hv : Fits s kind v) (hunset : s.isUnset kind v) :
    (s.normValue kind v).positive = s.zeroSimple kind ∧ v.nesting = 0 := by
  cases hv with
  | @scalar t p hp =>
    refine ⟨congrArg Value.scalar ?_, rfl⟩
    unfold holdsScalar at hp
    unfold isUnset at hunset
    unfold normScalar zeroScalar
    cases ht : s.textWidth? t with
    | none =>
      simp only [ht] at hp hunset ⊢
      exact Scalar.positive_eq_zero hp hunset
    | some width =>
      cases p with
      | string text =>
        simp only [ht, beq_iff_eq] at hunset
        simp only [hunset]
        rfl
      | _ => simp only [ht, false_eq_true] at hp
  | @choice ref e c hc => exact ⟨congrArg Value.choice (beq_iff_eq.mp hunset), rfl⟩
  | _ => simp only [isUnset, false_eq_true] at hunset

lemma positive_normValue_of_not_isUnset (hv : Fits s kind v) (hset : s.isUnset kind v = false) :
    (s.normValue kind v).positive = s.normValue kind v := by
  cases hv with
  | @scalar t p hp =>
    refine congrArg Value.scalar ?_
    unfold isUnset at hset
    unfold holdsScalar at hp
    unfold normScalar
    cases ht : s.textWidth? t with
    | none =>
      simp only [ht] at hset ⊢
      exact positive_of_isZero_eq_false hset
    | some width =>
      cases p with
      | string text => rfl
      | _ => simp only [ht, false_eq_true] at hp
  | wrapper _ => exact congrArg Value.scalar (positive_positive _)
  | choice _ | time _ | message _ => rfl

/-- What the reader of messages does, one level below `depth`. -/
def ReadsMessages (s : Schema) (inner : MessageReader) (depth : Nat) : Prop :=
  ∀ name slots, SlotsFit s (s.members name) slots → Piece.Short (s.pieces name slots) →
    depth < recursionLimit →
    ReadsNested (inner name (some (Piece.flatten (s.pieces name slots)).length)) (depth + 1)
      (Piece.flatten (s.pieces name slots)) (s.norm name slots) (slotsNesting slots)

lemma reads_choice {ref : Schema.TypeRef} {e : Schema.Enum} {c : Choice} (hc : e.has c)
    (hkind : SentinelFree (.enum ref e)) :
    Reads (s.readValue inner (.enum ref e)) depth
      (Piece.flatten [.raw (varint (e.number c).toInt64.toUInt64)]) (.choice c) := by
  have h := (reads_int32 (e.number c) depth).map fun n => Value.choice (e.ofNumber n)
  simp only [Schema.Enum.ofNumber_number hc hkind] at h
  simp only [Piece.flatten, Piece.bytes, List.append_nil]
  exact h

lemma readsNested_value (hdepth : depth ≤ recursionLimit) (hinner : ReadsMessages s inner depth)
    (hv : Fits s kind v) (hkind : SentinelFree kind) (hshort : Piece.Short (s.valuePieces kind v)) :
    ReadsNested (s.readValue inner kind) depth (Piece.flatten (s.valuePieces kind v))
      (s.normValue kind v) v.nesting := by
  cases hv with
  | scalar hp => exact .of_reads ((reads_scalarPieces hp hshort depth).map _) hdepth
  | choice hc => exact .of_reads (reads_choice hc hkind) hdepth
  | wrapper hp => exact .of_reads ((Wrapper.reads_pieces hp hshort depth).map _) hdepth
  | time t =>
    obtain ⟨hlength, -, -⟩ := short_block_cons.mp hshort
    have hframe (hlt : depth < recursionLimit) : ReadsNested
        (Timestamp.decode (some (flatten (Timestamp.ofInstant t).pieces).length)) (depth + 1)
        (flatten (Timestamp.ofInstant t).pieces) (Timestamp.ofInstant t) 0 :=
      .of_reads (reads_frame ((Timestamp.ofInstant t).recordsRead_pieces _)) hlt
    have h := (readsNested_message hdepth hlength hframe).map fun t =>
      Value.time t.toInstant
    rw [Timestamp.toInstant_ofInstant] at h
    simp only [valuePieces, Piece.flatten, Piece.bytes, List.append_nil]
    exact h
  | @message ref slots hslots =>
    obtain ⟨hlength, hblocks, -⟩ := short_block_cons.mp hshort
    have h := (readsNested_message hdepth hlength
      (hinner ref.qualifiedName slots hslots hblocks)).map Value.message
    simp only [valuePieces, Piece.flatten, Piece.bytes, List.append_nil]
    exact h

lemma reads_bare (hv : Fits s kind v) (hkind : SentinelFree kind)
    (hpackable : kind.isPackable) (hshort : Piece.Short (s.barePieces kind v)) :
    Reads (s.readValue inner kind) depth (Piece.flatten (s.barePieces kind v))
      (s.normValue kind v) := by
  cases hv with
  | scalar hp => exact (reads_scalarPieces hp hshort depth).map _
  | choice hc => exact reads_choice hc hkind
  | _ => simp only [ValueKind.isPackable, false_eq_true] at hpackable

/-- The values of a packed block. -/
lemma itemsRead_bare (hkind : SentinelFree kind) (hpackable : kind.isPackable)
    {vs : List Value} (hvs : ∀ v ∈ vs, Fits s kind v)
    (hshort : Piece.Short (vs.flatMap (s.barePieces kind))) :
    ItemsRead (s.readValue inner kind) depth (Piece.flatten (vs.flatMap (s.barePieces kind)))
      (s.normValues kind vs) := by
  induction vs with
  | nil => exact .done
  | cons v vs ih =>
    rw [List.flatMap_cons] at hshort ⊢
    rw [flatten_append]
    obtain ⟨hv, hrest⟩ := short_append.mp hshort
    have hread : Reads (s.readValue inner kind) depth (flatten (s.barePieces kind v))
        (s.normValue kind v) := reads_bare (hvs v (by simp)) hkind hpackable hv
    have hpos : 0 < (flatten (s.barePieces kind v)).length := by
      rw [List.length_pos_iff]
      intro hnil
      rw [hnil] at hread
      exact s.not_readValue_nil inner kind depth _ hread
    exact .item hread hpos (ih (fun u hu => hvs u (by simp [hu])) hrest)

end Schema

end Protobuf.Codec
