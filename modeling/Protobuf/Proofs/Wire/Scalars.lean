import Protobuf.Proofs.Wire.Emits
import Protobuf.Wire.Scalar

/-!
# Scalars on the wire

Every scalar type reads back what it writes, and what it reads is determined by
the bytes that it takes, at least one of them.
-/

open Protobuf.Wire.Reader

namespace Protobuf

open Wire

namespace Scalar

/-- How a value of the type is laid out on the wire; texts and bytes are blocks. -/
def pieces : Scalar → Primitive → List Piece
  | double, .double x => [.raw (littleEndian 8 x.bits.toNat)]
  | float, .float x => [.raw (littleEndian 4 x.bits.toNat)]
  | int32, .int32 n => [.raw (varint n.toInt64.toUInt64)]
  | int64, .int64 n => [.raw (varint n.toUInt64)]
  | uint32, .uint32 n => [.raw (varint n.toUInt64)]
  | uint64, .uint64 n => [.raw (varint n)]
  | sint32, .int32 n => [.raw (varint (UInt64.ofNat (zigzag n.toInt)))]
  | sint64, .int64 n => [.raw (varint (UInt64.ofNat (zigzag n.toInt)))]
  | fixed32, .uint32 n => [.raw (littleEndian 4 n.toNat)]
  | fixed64, .uint64 n => [.raw (littleEndian 8 n.toNat)]
  | sfixed32, .int32 n => [.raw (littleEndian 4 n.toUInt32.toNat)]
  | sfixed64, .int64 n => [.raw (littleEndian 8 n.toUInt64.toNat)]
  | bool, .bool b => [.raw (varint (if b then 1 else 0))]
  | string, .string s => [.block [.raw (utf8Bytes s)]]
  | bytes, .bytes bs => [.block [.raw bs]]
  | _, _ => []

/-- A value is written at once, as the bytes of its layout; a value of another type has none. -/
lemma write_eq_append (t : Scalar) (p : Primitive) (w : Writer) :
    t.write p w = w.append (Piece.flatten (t.pieces p)) := by
  by_cases hp : t.holds p
  · cases t <;> cases p <;> simp only [holds, Bool.false_eq_true] at hp
    all_goals simp only [pieces, Piece.flatten, Piece.bytes, List.append_nil]
    case string.string s => simp [write, Writer.string, Writer.bytes, Writer.append]
    case bytes.bytes bs => simp [write, Writer.bytes, Writer.append]
    all_goals rfl
  · cases t <;> cases p <;> simp only [holds, not_true_eq_false] at hp
    all_goals simp [write, pieces, Piece.flatten, Writer.append]

lemma emits_write (t : Scalar) (p : Primitive) :
    Emits (t.write p) (Piece.flatten (t.pieces p)) := by
  intro w _
  rw [write_eq_append]
  exact .append w _

end Scalar

/-! ## Reading back -/

namespace Wire.Reader

lemma reads_int32 (n : Int32) (depth : Nat) :
    Reads Reader.int32 depth (Wire.varint n.toInt64.toUInt64) n := by
  have hback : n.toInt64.toUInt64.toUInt32.toInt32 = n := by
    apply Int32.toBitVec_inj.mp
    simp only [UInt32.toBitVec_toInt32, UInt64.toBitVec_toUInt32, Int64.toBitVec_toUInt64,
      Int32.toBitVec_toInt64]
    ext i hi
    have hi' : i < 64 := by omega
    simp [BitVec.getElem_signExtend, hi, hi']
  have h := (reads_varint n.toInt64.toUInt64 depth).map fun v => v.toUInt32.toInt32
  rwa [hback] at h

lemma reads_sint32 (n : Int32) (depth : Nat) :
    Reads Reader.sint32 depth (Wire.varint (UInt64.ofNat (zigzag n.toInt))) n := by
  have hlt := zigzag_lt n.le_toInt n.toInt_lt
  have hback : Int32.ofInt (unzigzag (UInt64.ofNat (zigzag n.toInt)).toUInt32.toNat) = n := by
    rw [UInt64.toUInt32_ofNat', UInt32.toNat_ofNat_of_lt' (by simp only [UInt32.size]; omega),
      unzigzag_zigzag, Int32.ofInt_toInt]
  have h := (reads_varint (UInt64.ofNat (zigzag n.toInt)) depth).map fun v =>
    Int32.ofInt (unzigzag v.toUInt32.toNat)
  rwa [hback] at h

lemma reads_sint64 (n : Int64) (depth : Nat) :
    Reads Reader.sint64 depth (Wire.varint (UInt64.ofNat (zigzag n.toInt))) n := by
  have hlt := zigzag_lt n.le_toInt n.toInt_lt
  have hback : Int64.ofInt (unzigzag (UInt64.ofNat (zigzag n.toInt)).toNat) = n := by
    rw [UInt64.toNat_ofNat_of_lt' (by simp only [UInt64.size]; omega), unzigzag_zigzag,
      Int64.ofInt_toInt]
  have h := (reads_varint (UInt64.ofNat (zigzag n.toInt)) depth).map fun v =>
    Int64.ofInt (unzigzag v.toNat)
  rwa [hback] at h

lemma reads_fixed32 (n : UInt32) (depth : Nat) :
    Reads Reader.fixed32 depth (littleEndian 4 n.toNat) n := by
  have hlt : n.toNat < Nat.pow 256 4 := n.toNat_lt
  have h := (reads_take (littleEndian 4 n.toNat) depth).map fun bs =>
    UInt32.ofNat (ofLittleEndian bs)
  rwa [ofLittleEndian_littleEndian hlt, UInt32.ofNat_toNat, littleEndian_length] at h

lemma reads_fixed64 (n : UInt64) (depth : Nat) :
    Reads Reader.fixed64 depth (littleEndian 8 n.toNat) n := by
  have hlt : n.toNat < Nat.pow 256 8 := n.toNat_lt
  have h := (reads_take (littleEndian 8 n.toNat) depth).map fun bs =>
    UInt64.ofNat (ofLittleEndian bs)
  rwa [ofLittleEndian_littleEndian hlt, UInt64.ofNat_toNat, littleEndian_length] at h

lemma reads_bool (b : Bool) (depth : Nat) :
    Reads Reader.bool depth (Wire.varint (if b then 1 else 0)) b := by
  have h := (reads_varint (if b then 1 else 0) depth).map (· != 0)
  cases b <;> exact h

end Wire.Reader

namespace Scalar

/-- A value of the type is read back, if the length of a text or of bytes is. -/
lemma reads_pieces {t : Scalar} {p : Primitive} (hp : t.holds p)
    (hshort : Piece.Short (t.pieces p)) (depth : Nat) :
    Reads t.read depth (Piece.flatten (t.pieces p)) p := by
  cases t <;> cases p <;> simp only [holds, Bool.false_eq_true] at hp <;>
    simp only [pieces, Piece.short_block_cons, Piece.flatten, Piece.bytes,
      List.append_nil] at hshort ⊢
  case double.double x => exact ((reads_fixed64 x.bits depth).map _).map _
  case float.float x => exact ((reads_fixed32 x.bits depth).map _).map _
  case int32.int32 n => exact (reads_int32 n depth).map _
  case int64.int64 n =>
    have h := (reads_varint n.toUInt64 depth).map UInt64.toInt64
    rw [Int64.toInt64_toUInt64] at h
    exact h.map _
  case uint32.uint32 n => exact (reads_uint32 n depth).map _
  case uint64.uint64 n => exact (reads_varint n depth).map _
  case sint32.int32 n => exact (reads_sint32 n depth).map _
  case sint64.int64 n => exact (reads_sint64 n depth).map _
  case fixed32.uint32 n => exact (reads_fixed32 n depth).map _
  case fixed64.uint64 n => exact (reads_fixed64 n depth).map _
  case sfixed32.int32 n =>
    have h := (reads_fixed32 n.toUInt32 depth).map UInt32.toInt32
    rw [Int32.toInt32_toUInt32] at h
    exact h.map _
  case sfixed64.int64 n =>
    have h := (reads_fixed64 n.toUInt64 depth).map UInt64.toInt64
    rw [Int64.toInt64_toUInt64] at h
    exact h.map _
  case bool.bool b => exact (reads_bool b depth).map _
  case string.string s => exact (reads_string hshort.1 depth).map _
  case bytes.bytes bs => exact (reads_bytes hshort.1 depth).map _

lemma read_determined (t : Scalar) : Determined t.read := by
  have hfixed32 : Determined Reader.fixed32 := (Reader.take_determined 4).map _
  have hfixed64 : Determined Reader.fixed64 := (Reader.take_determined 8).map _
  have hvarint := varint_determined
  cases t with
  | double => exact (hfixed64.map _).map _
  | float => exact (hfixed32.map _).map _
  | int32 | int64 | uint32 | sint32 | sint64 | bool => exact (hvarint.map _).map _
  | uint64 => exact hvarint.map _
  | fixed32 => exact hfixed32.map _
  | fixed64 => exact hfixed64.map _
  | sfixed32 => exact (hfixed32.map _).map _
  | sfixed64 => exact (hfixed64.map _).map _
  | string => exact string_determined.map _
  | bytes => exact bytes_determined.map _

end Scalar

end Protobuf
