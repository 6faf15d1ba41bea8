import Protobuf.Proofs.Wire.Scalars

/-!
# Sequences of scalars

Scalars of any types, written one after another without tags, are read back by the
same types in the same order, and nothing is left. Nothing on the wire tells the
values apart, so every one has to be read to its exact end.
-/

namespace Protobuf

open Wire

/-- What of a value stands behind its length: the bytes of a text, or bytes as they are. Values of
other types have no length in front. -/
def Primitive.payload : Primitive → List UInt8
  | .string s => utf8Bytes s
  | .bytes bs => bs
  | _ => []

/-- A scalar type with a value of it. The length of a text or of bytes fits in 32 bits. -/
structure TypedValue where
  /-- The type, which decides how the value is written and read. -/
  type : Scalar
  value : Primitive
  held : type.holds value = true
  /-- The length can be read back. -/
  short : value.payload.length < UInt32.size

namespace TypedValue

def writeAll (values : List TypedValue) (w : Writer) : Writer :=
  values.foldl (fun w v => v.type.write v.value w) w

def readAll (types : List Scalar) : Read (List Primitive) :=
  types.mapM Scalar.read

def bytes (v : TypedValue) : List UInt8 :=
  Piece.flatten (v.type.pieces v.value)

lemma short_pieces (v : TypedValue) : Piece.Short (v.type.pieces v.value) := by
  obtain ⟨t, p, hheld, hshort⟩ := v
  have hblock (bs : List UInt8) (hbs : bs.length < UInt32.size) :
      Piece.Short [.block [.raw bs]] := by
    simpa [Piece.Short, Piece.lengths, Piece.blockLengths, Piece.flatten, Piece.bytes] using hbs
  cases t <;> cases p <;> simp only [Scalar.holds, Bool.false_eq_true] at hheld
  case string.string s => exact hblock _ hshort
  case bytes.bytes bs => exact hblock _ hshort
  all_goals simp [Scalar.pieces, Piece.Short, Piece.lengths, Piece.blockLengths]

lemma reads_bytes (v : TypedValue) (depth : Nat) : Reads v.type.read depth v.bytes v.value :=
  Scalar.reads_pieces v.held v.short_pieces depth

lemma emits_writeAll (values : List TypedValue) :
    Emits (writeAll values) (values.flatMap bytes) := by
  induction values with
  | nil => exact Emits.id
  | cons v values ih =>
    rw [List.flatMap_cons]
    exact (Scalar.emits_write v.type v.value).comp ih

/-- Bytes of values in a row are read value by value, wherever they stand and whatever follows. -/
lemma reads_readAll (values : List TypedValue) (depth : Nat) :
    Reads (readAll (values.map type)) depth (values.flatMap bytes) (values.map value) := by
  induction values with
  | nil => exact Reads.pure depth []
  | cons v values ih =>
    have hrest : Reads (do return v.value :: (← readAll (values.map type))) depth
        (values.flatMap bytes) (v.value :: values.map value) :=
      ih.map (v.value :: ·)
    rw [readAll, List.map_cons, List.mapM_cons, List.flatMap_cons, List.map_cons]
    exact (v.reads_bytes depth).bind hrest

/-- Values that are written one after another on one writer are read back, in order, by the same
types on one reader, which then stands at the end of the buffer. -/
theorem readAll_writeAll (values : List TypedValue) :
    readAll (values.map type) (.ofBytes (writeAll values .empty).finish) =
      .ok (values.map value) ⟨(writeAll values .empty).finish.length, [], 0⟩ := by
  have hbytes : (writeAll values .empty).finish = values.flatMap bytes :=
    (emits_writeAll values).finish_eq
  have hread := reads_readAll values 0 0 []
  rw [List.append_nil, Nat.zero_add] at hread
  rw [hbytes]
  exact hread

/-- The least 32-bit integer, folded to five bytes, before a boolean. -/
example :
    readAll [.sint32, .bool] (.ofBytes [255, 255, 255, 255, 15, 1]) =
      .ok [.int32 (-2147483648), .bool true] ⟨6, [], 0⟩ := by
  rfl

end TypedValue

end Protobuf
