import Protobuf.Codec.Choice

/-!
# Messages as values

A message is a list of slots, one for each of its members. Values do not carry
their types: the plan of the message says what a slot holds.
-/

namespace Protobuf.Codec

mutual

inductive Value where
  /-- A scalar, also the content of a wrapper. -/
  | scalar (p : Primitive)
  | choice (c : Choice)
  | time (t : Time.Instant)
  | message (slots : List Slot)

/-- What a member of a message holds. -/
inductive Slot where
  | plain (v : Value)
  /-- One value or none. -/
  | optional (v : Option Value)
  | repeated (vs : List Value)
  /-- Values under distinct keys. -/
  | map (entries : List (Primitive × Value))
  /-- The number and the value of the active member of a union, if there is one. -/
  | union (v : Option (Nat × Value))

end

/-- A message: what its members hold, in their order. -/
abbrev Message := List Slot

mutual

/-- Equality of values, where floating-point values compare as numbers and maps without order. -/
def Value.sameAs : Value → Value → Bool
  | .scalar p, .scalar q => p.numericEq q
  | .choice c, .choice d => c == d
  | .time t, .time u => t == u
  | .message slots, .message slots' => sameSlots slots slots'
  | _, _ => false

def Slot.sameAs : Slot → Slot → Bool
  | .plain v, .plain v' => v.sameAs v'
  | .optional none, .optional none => true
  | .optional (some v), .optional (some v') => v.sameAs v'
  | .repeated vs, .repeated vs' => sameValues vs vs'
  | .map entries, .map entries' =>
    entries.length == entries'.length && sameEntries entries entries'
  | .union none, .union none => true
  | .union (some (n, v)), .union (some (n', v')) => n == n' && v.sameAs v'
  | _, _ => false

def sameSlots : List Slot → List Slot → Bool
  | [], [] => true
  | s :: slots, s' :: slots' => s.sameAs s' && sameSlots slots slots'
  | _, _ => false

def sameValues : List Value → List Value → Bool
  | [], [] => true
  | v :: vs, v' :: vs' => v.sameAs v' && sameValues vs vs'
  | _, _ => false

def sameEntries : List (Primitive × Value) → List (Primitive × Value) → Bool
  | [], _ => true
  | (key, v) :: entries, others =>
    (match others.lookup key with
      | some v' => v.sameAs v'
      | none => false) &&
    sameEntries entries others

end

/-- Put a value under a key; the value that the key had is replaced. -/
def putEntry (key : Primitive) (value : Value) :
    List (Primitive × Value) → List (Primitive × Value)
  | [] => [(key, value)]
  | (k, v) :: entries =>
    if k = key then (key, value) :: entries else (k, v) :: putEntry key value entries

end Protobuf.Codec
