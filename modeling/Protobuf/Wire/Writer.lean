import Protobuf.Numeric.Double
import Protobuf.Wire.Basic

/-!
# Writing wire data

A length-delimited block begins with its length, which is known only at its end.
The writer therefore keeps the bytes of all blocks in one body without lengths,
and beside it a mark for every closed block: where its length belongs, and the
bytes of that length. `finish` puts the marks in place in one pass.
-/

namespace Protobuf.Wire

structure OpenBlock where
  /-- Where the block begins in the body. -/
  start : Nat
  /-- Bytes of all marks when the block was opened. -/
  marked : Nat
  deriving DecidableEq

/-- The length of a closed block, and where it belongs. -/
structure LengthMark where
  offset : Nat
  /-- The varint of the length. -/
  bytes : List UInt8
  deriving DecidableEq

structure Writer where
  /-- All bytes written, without lengths of blocks. -/
  body : List UInt8
  blocks : List OpenBlock
  /-- Marks of closed blocks, by offset; at one offset the block closed last comes first. -/
  marks : List LengthMark
  /-- Bytes of all marks together. -/
  marked : Nat
  deriving DecidableEq

/-- Put a mark before all marks that do not lie before it. -/
def insertMark (m : LengthMark) : List LengthMark → List LengthMark
  | [] => [m]
  | n :: marks => if n.offset < m.offset then n :: insertMark m marks else m :: n :: marks

/-- The body from offset `copied` on, with the marks put in their places. -/
def weave (copied : Nat) (body : List UInt8) : List LengthMark → List UInt8
  | [] => body
  | m :: marks =>
    let n := m.offset - copied
    body.take n ++ m.bytes ++ weave m.offset (body.drop n) marks

namespace Writer

def empty : Writer := ⟨[], [], [], 0⟩

/-- Bytes written so far; lengths of open blocks do not count. -/
def size (w : Writer) : Nat :=
  w.body.length + w.marked

def isEmpty (w : Writer) : Bool :=
  w.size == 0

def append (w : Writer) (bytes : List UInt8) : Writer :=
  { w with body := w.body ++ bytes }

def varint (w : Writer) (n : UInt64) : Writer :=
  w.append (Wire.varint n)

/-- Write an unsigned 32-bit number. -/
def uint32 (w : Writer) (n : UInt32) : Writer :=
  w.varint n.toUInt64

/-- Write a signed 32-bit number; a negative one takes ten bytes. -/
def int32 (w : Writer) (n : Int32) : Writer :=
  w.varint n.toInt64.toUInt64

/-- Write a folded 32-bit number. -/
def sint32 (w : Writer) (n : Int32) : Writer :=
  w.varint (UInt64.ofNat (zigzag n.toInt))

/-- Write an unsigned 64-bit number. -/
def uint64 (w : Writer) (n : UInt64) : Writer :=
  w.varint n

/-- Write a signed 64-bit number. -/
def int64 (w : Writer) (n : Int64) : Writer :=
  w.varint n.toUInt64

/-- Write a folded 64-bit number. -/
def sint64 (w : Writer) (n : Int64) : Writer :=
  w.varint (UInt64.ofNat (zigzag n.toInt))

/-- Write an unsigned number in four bytes. -/
def fixed32 (w : Writer) (n : UInt32) : Writer :=
  w.append (littleEndian 4 n.toNat)

/-- Write a signed number in four bytes. -/
def sfixed32 (w : Writer) (n : Int32) : Writer :=
  w.fixed32 n.toUInt32

/-- Write an unsigned number in eight bytes. -/
def fixed64 (w : Writer) (n : UInt64) : Writer :=
  w.append (littleEndian 8 n.toNat)

/-- Write a signed number in eight bytes. -/
def sfixed64 (w : Writer) (n : Int64) : Writer :=
  w.fixed64 n.toUInt64

def float (w : Writer) (x : Numeric.Single) : Writer :=
  w.fixed32 x.bits

def double (w : Writer) (x : Numeric.Double) : Writer :=
  w.fixed64 x.bits

def bool (w : Writer) (b : Bool) : Writer :=
  w.varint (if b then 1 else 0)

def bytes (w : Writer) (bs : List UInt8) : Writer :=
  (w.append (lengthBytes bs.length)).append bs

def string (w : Writer) (s : String) : Writer :=
  w.bytes (utf8Bytes s)

def openBlock (w : Writer) : Writer :=
  { w with blocks := ⟨w.body.length, w.marked⟩ :: w.blocks }

/-- Close the innermost block; without one nothing happens. The lengths of blocks closed inside
it count towards its own. -/
def closeBlock (w : Writer) : Writer :=
  match w.blocks with
  | [] => w
  | b :: blocks =>
    let length := w.body.length - b.start + (w.marked - b.marked)
    let mark : LengthMark := ⟨b.start, lengthBytes length⟩
    { w with
      blocks
      marks := insertMark mark w.marks
      marked := w.marked + mark.bytes.length }

def closeAll : (count : Nat) → Writer → Writer
  | 0, w => w
  | count + 1, w => closeAll count w.closeBlock

/-- The bytes written. Blocks that are still open are closed first. -/
def finish (w : Writer) : List UInt8 :=
  let w := closeAll w.blocks.length w
  weave 0 w.body w.marks

/-- Write a tag and a block whose content `encode` writes. -/
def message (w : Writer) (tag : UInt32) (encode : Writer → Writer) : Writer :=
  (encode (w.uint32 tag).openBlock).closeBlock

end Writer

end Protobuf.Wire
