import Protobuf.Wire.Basic

/-!
# Records of a message

A message read as a list of records, strictly: a key must have a number and a
known wire type, every length must fit, and groups must be closed by the number
that opened them. The content of a group is passed over; only its depth is kept.
-/

namespace Protobuf.Plugin

inductive Payload where
  | varint (n : Nat)
  | fixed64 (bytes : List UInt8)
  | block (bytes : List UInt8)
  | group (depth : Nat)
  | fixed32 (bytes : List UInt8)
  deriving DecidableEq

/-- How many levels it takes to pass over what a record carries: one for the record itself, and
for a group also those of its content. -/
def Payload.depth : Payload → Nat
  | .group depth => depth
  | _ => 1

/-- A record: a field number and what it carries. -/
structure Record where
  number : Nat
  payload : Payload
  deriving DecidableEq

/-- A varint of at most `left` bytes whose first byte counts `2 ^ shift`. -/
def varintFrom? : (left shift : Nat) → List UInt8 → Option (Nat × List UInt8)
  | 0, _, _ => none
  | _ + 1, _, [] => none
  | left + 1, shift, b :: rest =>
    if b.toNat < 128 then some (b.toNat * Nat.pow 2 shift, rest)
    else
      (varintFrom? left (shift + 7) rest).map fun (n, rest) =>
        ((b.toNat - 128) * Nat.pow 2 shift + n, rest)

/-- A varint that fits 64 bits. -/
def varint? (bytes : List UInt8) : Option (Nat × List UInt8) :=
  (varintFrom? 10 0 bytes).filter fun (n, _) => n < Nat.pow 2 64

def take? (n : Nat) (bytes : List UInt8) : Option (List UInt8 × List UInt8) :=
  if n ≤ bytes.length then some (bytes.take n, bytes.drop n) else none

/-- A key: a field number that is not zero, and a wire type. -/
def key? (bytes : List UInt8) : Option (Nat × Nat × List UInt8) := do
  let (key, rest) ← varint? bytes
  if key < Nat.pow 2 32 ∧ key / 8 ≠ 0 then some (key / 8, key % 8, rest) else none

def varints? : (fuel : Nat) → List UInt8 → Option (List Nat)
  | _, [] => some []
  | 0, _ :: _ => none
  | fuel + 1, b :: bytes => do
    let (n, rest) ← varint? (b :: bytes)
    return n :: (← varints? fuel rest)

/-- The content of a record of a wire type other than a group. -/
def plain? (wireType : Nat) (bytes : List UInt8) : Option (Payload × List UInt8) :=
  match wireType with
  | 0 => (varint? bytes).map fun (n, rest) => (.varint n, rest)
  | 1 => (take? 8 bytes).map fun (bs, rest) => (.fixed64 bs, rest)
  | 2 => do
    let (n, rest) ← varint? bytes
    let (bs, rest) ← take? n rest
    return (.block bs, rest)
  | 5 => (take? 4 bytes).map fun (bs, rest) => (.fixed32 bs, rest)
  | _ => none

/-- Go past the open groups, whose numbers are given, innermost first. The result has the depth
of the deepest record in them, or `deepest` if none is deeper. -/
def skipGroups? : (fuel deepest : Nat) → (opened : List Nat) → List UInt8 →
    Option (Nat × List UInt8)
  | _, deepest, [], bytes => some (deepest, bytes)
  | 0, _, _ :: _, _ => none
  | fuel + 1, deepest, number :: outer, bytes => do
    let (n, wireType, rest) ← key? bytes
    if wireType = 4 then
      if n = number then skipGroups? fuel deepest outer rest else none
    else
      let deepest := max deepest (outer.length + 2)
      if wireType = 3 then skipGroups? fuel deepest (n :: number :: outer) rest
      else
        let (_, rest) ← plain? wireType rest
        skipGroups? fuel deepest (number :: outer) rest

/-- The records of some bytes, at most `fuel` of them. -/
def recordsFrom? : (fuel : Nat) → List UInt8 → Option (List Record)
  | _, [] => some []
  | 0, _ :: _ => none
  | fuel + 1, b :: bytes => do
    let (number, wireType, rest) ← key? (b :: bytes)
    let (payload, rest) ←
      if wireType = 3 then
        (skipGroups? rest.length 1 [number] rest).map fun (depth, rest) =>
          (Payload.group depth, rest)
      else plain? wireType rest
    let records ← recordsFrom? fuel rest
    return ⟨number, payload⟩ :: records

def records? (bytes : List UInt8) : Option (List Record) :=
  recordsFrom? bytes.length bytes

end Protobuf.Plugin
