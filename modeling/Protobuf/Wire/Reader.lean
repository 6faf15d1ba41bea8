import Protobuf.Numeric.Double
import Protobuf.Wire.Basic
import Protobuf.Wire.Error

/-!
# Reading wire data

A reader stands at a position in a buffer and counts how deeply it is nested in
messages and groups. A failure leaves it where reading got to: the bytes read
before the fault stay read, and a group that was entered stays entered.
-/

namespace Protobuf.Wire

/-- A position in a buffer. -/
structure Reader where
  /-- Bytes before the position. -/
  pos : Nat
  /-- Bytes after the position. -/
  rest : List UInt8
  /-- Messages and groups that the position is inside of. -/
  depth : Nat
  deriving DecidableEq

/-- A reading step: a value, or a cause why there is none, and where the reader then stands. -/
abbrev Read (α : Type) := EStateM DecodeError Reader α

/-- Deepest nesting of messages and groups that is followed. -/
def recursionLimit : Nat := 100

namespace Reader

def ofBytes (bytes : List UInt8) : Reader := ⟨0, bytes, 0⟩

/-- Length of the whole buffer. -/
def size (r : Reader) : Nat :=
  r.pos + r.rest.length

def position : Read Nat := fun r => .ok r.pos r

/-- Enter a message or a group. -/
def descend : Read Unit := fun r =>
  if recursionLimit ≤ r.depth then .error (.recursionLimit r.pos recursionLimit) r
  else .ok () { r with depth := r.depth + 1 }

/-- The end of the frame of the given length that starts here; without a length the frame is the
rest of the buffer. -/
def frameEnd (length : Option Nat) : Read Nat := fun r =>
  match length with
  | none => .ok r.size r
  | some n => if r.pos + n ≤ r.size then .ok (r.pos + n) r else .error (.frameOverrun r.pos n) r

/-- Check that the frame was left exactly at its end. -/
def finishFrame (stop : Nat) : Read Unit := fun r =>
  if r.pos = stop then .ok () r else .error (.fieldOverrun r.pos stop) r

def take (n : Nat) : Read (List UInt8) := fun r =>
  if n ≤ r.rest.length then
    .ok (r.rest.take n) { r with pos := r.pos + n, rest := r.rest.drop n }
  else .error (.truncated r.pos) r

/-- Go past `n` bytes. -/
def skip (n : Nat) : Read Unit := do
  discard (take n)

/-- Go on with a varint that began at `start`: `left` more bytes may come, the next one counts
`2 ^ shift`, and the bytes before add up to `value`. -/
def varintFrom (start : Nat) : (left : Nat) → (shift value : Nat) → Read UInt64
  | 0, _, _ => fun r => .error (.varintOverflow start) r
  | left + 1, shift, value => fun r =>
    match r.rest with
    | [] => .error (.truncated r.pos) r
    | b :: rest =>
      let value := value + b.toNat % 128 * Nat.pow 2 shift
      let r := { r with pos := r.pos + 1, rest }
      if b.toNat < 128 then .ok (UInt64.ofNat value) r
      else varintFrom start left (shift + 7) value r

/-- Read a varint of at most ten bytes; bits above the sixty-fourth are dropped. -/
def varint : Read UInt64 := fun r =>
  varintFrom r.pos 10 0 0 r

/-- Read an unsigned 32-bit number: the low half of a varint. -/
def uint32 : Read UInt32 :=
  return (← varint).toUInt32

/-- Read a signed 32-bit number: the low half of a varint. -/
def int32 : Read Int32 :=
  return (← varint).toUInt32.toInt32

/-- Read a folded 32-bit number. -/
def sint32 : Read Int32 :=
  return Int32.ofInt (unzigzag (← varint).toUInt32.toNat)

/-- Read an unsigned 64-bit number. -/
def uint64 : Read UInt64 :=
  varint

/-- Read a signed 64-bit number. -/
def int64 : Read Int64 :=
  return (← varint).toInt64

/-- Read a folded 64-bit number. -/
def sint64 : Read Int64 :=
  return Int64.ofInt (unzigzag (← varint).toNat)

/-- Read an unsigned number of four bytes. -/
def fixed32 : Read UInt32 :=
  return UInt32.ofNat (ofLittleEndian (← take 4))

/-- Read a signed number of four bytes. -/
def sfixed32 : Read Int32 :=
  return (← fixed32).toInt32

/-- Read an unsigned number of eight bytes. -/
def fixed64 : Read UInt64 :=
  return UInt64.ofNat (ofLittleEndian (← take 8))

/-- Read a signed number of eight bytes. -/
def sfixed64 : Read Int64 :=
  return (← fixed64).toInt64

def float : Read Numeric.Single :=
  return ⟨← fixed32⟩

def double : Read Numeric.Double :=
  return ⟨← fixed64⟩

/-- Read a boolean: any number but zero is true. -/
def bool : Read Bool :=
  return (← varint) != 0

def bytes : Read (List UInt8) := do
  let length ← uint32
  take length.toNat

def string : Read String := do
  let offset ← position
  match utf8Text? (← bytes) with
  | some s => return s
  | none => throw (.invalidUtf8 offset)

/-- Read a length and the end of the frame that it gives. -/
def packedEnd : Read Nat := do
  let length ← uint32
  frameEnd (some length.toNat)

/-- Leave a message or a group, whether reading it succeeded or not. -/
def ascending {α : Type} (inner : Read α) : Read α := fun r =>
  match inner r with
  | .ok a r => .ok a { r with depth := r.depth - 1 }
  | .error e r => .error e { r with depth := r.depth - 1 }

def message {α : Type} (decode : Option Nat → Read α) : Read α := do
  let length ← uint32
  descend
  ascending (decode (some length.toNat))

/-- Go past a value of a wire type other than a group. -/
def skipPlain (wireType : Nat) : Read Unit := do
  match wireType with
  | 0 => discard varint
  | 1 => skip 8
  | 2 => skip (← uint32).toNat
  | 5 => skip 4
  | _ => throw (.invalidWireType wireType (← position))

/-- Go past the records of the open groups, whose starts are given, innermost first. Every record
takes at least a byte, so the bytes of the buffer bound their number. -/
def skipGroups : (fuel : Nat) → (start : Nat) → (outer : List Nat) → Read Unit
  | 0, start, _ => throw (.unterminatedGroup start)
  | fuel + 1, start, outer => do
    if (← get).rest.isEmpty then throw (.unterminatedGroup start)
    let wireType := (← uint32).toNat % 8
    if wireType = 4 then
      modify fun r => { r with depth := r.depth - 1 }
      match outer with
      | [] => return
      | next :: outer => skipGroups fuel next outer
    else if wireType = 3 then
      let inner ← position
      descend
      skipGroups fuel inner (start :: outer)
    else
      skipPlain wireType
      skipGroups fuel start outer

def skipValue (wireType : Nat) : Read Unit := do
  if wireType = 3 then
    let start ← position
    descend
    skipGroups (← get).rest.length start []
  else skipPlain wireType

/-- Read values until the position `stop`, at most `fuel` of them. -/
def itemsUntil {α : Type} (item : Read α) (stop : Nat) : (fuel : Nat) → List α → Read (List α)
  | 0, acc => return acc.reverse
  | fuel + 1, acc => do
    if (← position) < stop then
      let a ← item
      itemsUntil item stop fuel (a :: acc)
    else return acc.reverse

/-- Read records until the position `stop`, at most `fuel` of them: a tag, and what `field` makes
of its number and wire type. -/
def records {σ : Type} (field : (number wireType : Nat) → σ → Read σ) (stop : Nat) :
    (fuel : Nat) → σ → Read σ
  | 0, s => return s
  | fuel + 1, s => do
    if (← position) < stop then
      let tag := (← uint32).toNat
      let s ← field (tag / 8) (tag % 8) s
      records field stop fuel s
    else return s

/-- Read the records of a frame, which must end where the frame ends. -/
def frame {σ : Type} (field : (number wireType : Nat) → σ → Read σ) (length : Option Nat)
    (s : σ) : Read σ := do
  let stop ← frameEnd length
  let s ← records field stop (← get).rest.length s
  finishFrame stop
  return s

end Reader

end Protobuf.Wire
