import Protobuf.Codec.Decode
import Protobuf.Proofs.Wire.PassedOver
import Protobuf.Proofs.Wire.Scalars

/-!
# Isolation of frames

The length of a text, a block or a message is checked against the whole buffer and
not against the frame that it stands in. Still, a frame that is accepted was read
from its own bytes alone: every read of the codec is determined by the bytes that
it takes, and a frame ends only where its records end.
-/

open List Protobuf.Wire.Reader Protobuf.Wire.Read

namespace Protobuf

open Wire

/-! ## Frames of any records -/

/-- Reading the `n` bytes at position `p` of a buffer as a frame succeeds exactly if reading
a buffer of these bytes does, with the same result; then the reader stands at the end of the frame,
as deep as before. -/
structure FrameIsolated {α : Type} (decode : Option Nat → Read α) (buf : List UInt8)
    (p n depth : Nat) : Prop where
  accepts_iff : ∀ a, (∃ r, decode (some n) ⟨p, buf.drop p, depth⟩ = .ok a r) ↔
    ∃ r, decode none ⟨0, (buf.drop p).take n, depth⟩ = .ok a r
  ends : ∀ a r, decode (some n) ⟨p, buf.drop p, depth⟩ = .ok a r →
    r = ⟨p + n, buf.drop (p + n), depth⟩

lemma frame_isolated {σ : Type} {field : (number wireType : Nat) → σ → Read σ}
    (hfield : ∀ number wireType s, Determined (field number wireType s)) (s : σ)
    {buf : List UInt8} {p n : Nat} (h : p + n ≤ buf.length) (depth : Nat) :
    FrameIsolated (fun length => Reader.frame field length s) buf p n depth := by
  have hlength : ((buf.drop p).take n).length = n := by
    simp only [length_take, length_drop]
    omega
  have hsplit : buf.drop p = (buf.drop p).take n ++ buf.drop (p + n) := by
    rw [← drop_drop, take_append_drop]
  have hsound {a : σ} {r : Reader}
      (hok : frame field (some n) s ⟨p, buf.drop p, depth⟩ = .ok a r) :
      RecordsRead field depth ((buf.drop p).take n) s a ∧ r = ⟨p + n, buf.drop (p + n), depth⟩ := by
    obtain ⟨taken, left, hrest, htaken, rfl, hread⟩ := recordsRead_of_frame hfield hok
    obtain ⟨rfl, rfl⟩ := append_inj (hsplit.symm.trans hrest) (hlength.trans htaken.symm)
    exact ⟨hread, rfl⟩
  refine ⟨fun a => ⟨?_, ?_⟩, fun a r hok => (hsound hok).2⟩
  · rintro ⟨r, hok⟩
    have hreads := reads_frame (hsound hok).1 0 []
    rw [append_nil] at hreads
    exact ⟨_, (frame_none ..).trans hreads⟩
  · rintro ⟨r, hok⟩
    rw [frame_none] at hok
    obtain ⟨taken, left, hrest, htaken, -, hread⟩ := recordsRead_of_frame hfield hok
    -- The records fill the whole buffer, so nothing is left over.
    have hleft : left = [] := by
      have hcount := congrArg length hrest
      rw [length_append, htaken] at hcount
      exact length_eq_zero_iff.mp (Nat.left_eq_add.mp hcount)
    subst hleft
    rw [append_nil] at hrest
    subst hrest
    have hreads := reads_frame hread p (buf.drop (p + n))
    rw [← hsplit, hlength] at hreads
    exact ⟨_, hreads⟩

/-! ## Every read of the codec is determined -/

namespace Timestamp

lemma field_determined (number wireType : Nat) (t : Timestamp) :
    Determined (field number wireType t) := by
  unfold field
  split
  · exact (varint_determined.map _).map _
  · exact (varint_determined.map _).map _
  · exact (skipValue_determined wireType).bind fun _ => Determined.pure t

lemma decode_determined (n : Nat) : Determined (decode (some n)) :=
  frame_determined field_determined n zero

end Timestamp

namespace Wrapper

def field (kind : Wrapper) (number wireType : Nat) (value : Primitive) : Read Primitive :=
  if number = 1 then kind.scalar.read
  else do
    Reader.skipValue wireType
    return value

lemma field_determined (kind : Wrapper) (number wireType : Nat) (value : Primitive) :
    Determined (kind.field number wireType value) := by
  unfold field
  by_cases hnumber : number = 1
  · rw [if_pos hnumber]
    exact kind.scalar.read_determined
  · rw [if_neg hnumber]
    exact (skipValue_determined wireType).bind fun _ => Determined.pure value

lemma read_determined (kind : Wrapper) : Determined kind.read :=
  uint32_determined.bind fun length =>
    frame_determined kind.field_determined length.toNat kind.scalar.zero

end Wrapper

end Protobuf

namespace Protobuf.Codec.Schema

open Plan Wire

variable (s : Schema) {inner : MessageReader}

lemma readScalar_determined (t : Scalar) : Determined (s.readScalar t) := by
  refine t.read_determined.bind fun p => ?_
  split <;> exact Determined.pure _

lemma not_readValue_nil (inner : MessageReader) (kind : ValueKind) (depth : Nat) (v : Value) :
    ¬ Reads (s.readValue inner kind) depth [] v := by
  intro h
  cases kind with
  | scalar t => cases t <;> cases h 0 []
  | enum ref e => cases h 0 []
  | wrapper k => cases k <;> cases h 0 []
  | timestamp | message ref => cases h 0 []

/-- A block of values is a length and the values that fill it. -/
lemma reads_readPacked {kind : ValueKind} {depth : Nat} {head bytes : List UInt8}
    {length : UInt32} {vs : List Value} (hhead : Reads Reader.uint32 depth head length)
    (hlength : bytes.length = length.toNat)
    (h : ItemsRead (s.readValue inner kind) depth bytes vs) :
    Reads (s.readPacked inner kind) depth (head ++ bytes) vs := by
  intro pos rest
  have hend : packedEnd ⟨pos, head ++ (bytes ++ rest), depth⟩ =
      .ok (pos + head.length + bytes.length) ⟨pos + head.length, bytes ++ rest, depth⟩ := by
    rw [packedEnd, bind_ok (hhead pos _), ← hlength]
    exact frameEnd_some (by simp)
  rw [readPacked, append_assoc, bind_ok hend, bind_ok (get_ok _),
    bind_ok (h.itemsUntil_ok [] (le_refl _)), bind_ok (finishFrame_self ⟨_, _, _⟩)]
  simp only [reverse_nil, nil_append, length_append, ← Nat.add_assoc]
  rfl

section

variable (hinner : ∀ name n, Determined (inner name (some n)))

include hinner

lemma readValue_determined (kind : ValueKind) : Determined (s.readValue inner kind) := by
  cases kind with
  | scalar t => exact (s.readScalar_determined t).map _
  | enum ref e => exact (varint_determined.map _).map _
  | wrapper k => exact k.read_determined.map _
  | timestamp => exact (message_determined Timestamp.decode_determined).map _
  | message ref => exact (message_determined (hinner ref.qualifiedName)).map _

lemma readPacked_determined (kind : ValueKind) : Determined (s.readPacked inner kind) := by
  intro pos rest depth vs r h
  obtain ⟨stop, r₁, hend, h⟩ := bind_eq_ok.mp h
  obtain ⟨length, r₂, hlength, hend⟩ := bind_eq_ok.mp hend
  obtain ⟨head, rest, rfl, rfl, hhead⟩ := uint32_determined _ _ _ _ _ hlength
  obtain ⟨rfl, rfl⟩ := frameEnd_eq_ok hend
  rw [bind_ok (get_ok _)] at h
  obtain ⟨us, r₃, hitems, h⟩ := bind_eq_ok.mp h
  obtain ⟨bytes, left, us, rfl, rfl, rfl, hread⟩ := itemsRead_of_itemsUntil
    (s.readValue_determined hinner kind) (s.not_readValue_nil inner kind) hitems
  obtain ⟨⟨⟩, r₄, hfinish, h⟩ := bind_eq_ok.mp h
  obtain ⟨hpos, rfl⟩ := finishFrame_eq_ok hfinish
  cases h
  refine ⟨head ++ bytes, left, (append_assoc ..).symm, ?_,
    s.reads_readPacked hhead (Nat.add_left_cancel hpos) hread⟩
  simp only [length_append, Nat.add_assoc]

lemma readMember_determined (number wireType : Nat) (kind : ValueKind) (m : Member)
    (slot : Slot) : Determined (s.readMember inner number wireType kind m slot) := by
  have hvalue := s.readValue_determined hinner kind
  cases m with
  | union u => exact hvalue.map _
  | field p =>
    simp only [readMember]
    split
    · exact hvalue.map _
    · exact hvalue.map _
    · split
      · exact (s.readPacked_determined hinner kind).map _
      · exact hvalue.map _
    · refine (message_determined (hinner _)).bind fun m => ?_
      split <;> exact Determined.pure _
    · exact Determined.pure _

lemma readRecord_determined (number wireType : Nat) (members : List Member)
    (slots : List Slot) : Determined (s.readRecord inner number wireType members slots) := by
  induction members generalizing slots with
  | nil => exact (skipValue_determined wireType).bind fun _ => Determined.pure slots
  | cons m members ih =>
    cases slots with
    | nil => exact (skipValue_determined wireType).bind fun _ => Determined.pure []
    | cons slot slots =>
      unfold readRecord
      split
      · exact (s.readMember_determined hinner number wireType _ m slot).map _
      · exact (ih slots).map _

end

lemma readWithin_determined (levels : Nat) (name : String) (n : Nat) :
    Determined (s.readWithin levels name (some n)) := by
  induction levels generalizing name n with
  | zero =>
    intro pos rest depth m r h
    cases h
  | succ levels ih =>
    exact frame_determined
      (fun number wireType => s.readRecord_determined ih number wireType (s.members name)) n
      (s.zero name)

/-- Bytes outside of a frame never influence what is read in it, be it a message of any type or
a timestamp. -/
theorem read_frameIsolated (name : String) {buf : List UInt8} {p n : Nat}
    (h : p + n ≤ buf.length) (depth : Nat) :
    FrameIsolated (s.read name) buf p n depth ∧
      FrameIsolated Timestamp.decode buf p n depth := by
  refine ⟨?_, frame_isolated Timestamp.field_determined Timestamp.zero h depth⟩
  exact frame_isolated (fun number wireType => s.readRecord_determined
    (s.readWithin_determined recursionLimit) number wireType (s.members name)) (s.zero name) h depth

/-- A frame of two bytes within a buffer of four: the timestamp in it is read, and a message
without members passes it over. -/
theorem read_frameIsolated_two_of_four :
    1 + 2 ≤ ([0xff, 8, 5, 0xff] : List UInt8).length ∧
      (∃ r, Timestamp.decode (some 2) ⟨1, [8, 5, 0xff], 3⟩ = .ok ⟨5, 0⟩ r) ∧
      ∃ r, read ⟨.standard, fun _ => []⟩ ".a.Empty" (some 2) ⟨1, [8, 5, 0xff], 3⟩ = .ok [] r := by
  have hle : 1 + 2 ≤ ([0xff, 8, 5, 0xff] : List UInt8).length := by decide
  obtain ⟨hmessage, htimestamp⟩ := read_frameIsolated ⟨.standard, fun _ => []⟩ ".a.Empty" hle 3
  exact ⟨hle, (htimestamp.accepts_iff ⟨5, 0⟩).mpr ⟨_, rfl⟩, (hmessage.accepts_iff []).mpr ⟨_, rfl⟩⟩

end Protobuf.Codec.Schema
