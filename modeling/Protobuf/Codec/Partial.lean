import Protobuf.Codec.Schema

/-!
# Messages given in part

A partial message gives values for some members, and nested messages in part as
well. Completing it sets what is given and leaves the rest unset; an entry of a
map without a value is dropped.
-/

namespace Protobuf.Codec

open Plan

mutual

/-- A value whose messages are given in part. -/
inductive Partial where
  | scalar (p : Primitive)
  | choice (c : Choice)
  | time (t : Time.Instant)
  | message (fields : List PartialField)

inductive PartialField where
  | missing
  | value (v : Partial)
  /-- Values of a repeated field. -/
  | values (vs : List Partial)
  | entries (es : List (Primitive × Option Partial))
  /-- The number of a member of a union, and its value. -/
  | member (number : Nat) (v : Partial)

end

namespace Schema

mutual

def completeValue (s : Schema) (kind : ValueKind) : Partial → Value
  | .scalar p => .scalar p
  | .choice c => .choice c
  | .time t => .time t
  | .message fields =>
    match kind with
    | .message ref => .message (completeFields s (s.members ref.qualifiedName) fields)
    | _ => .message []

def completeValues (s : Schema) (kind : ValueKind) : List Partial → List Value
  | [] => []
  | v :: vs => completeValue s kind v :: completeValues s kind vs

/-- The entries that partial ones stand for, put to those in `done`. -/
def completeEntries (s : Schema) (kind : ValueKind) :
    List (Primitive × Option Partial) → (done : List (Primitive × Value)) →
      List (Primitive × Value)
  | [], done => done
  | (_, none) :: es, done => completeEntries s kind es done
  | (key, some v) :: es, done =>
    completeEntries s kind es (putEntry key (completeValue s kind v) done)

/-- What a member holds if something is given for it. -/
def completeField (s : Schema) (m : Member) : PartialField → Slot
  | .missing => s.zeroSlot m
  | .value v =>
    match m with
    | .field p =>
      match p.layout with
      | .plain => .plain (completeValue s p.kind v)
      | _ => .optional (some (completeValue s p.kind v))
    | .union _ => s.zeroSlot m
  | .values vs =>
    match m with
    | .field p => .repeated (completeValues s p.kind vs)
    | .union _ => s.zeroSlot m
  | .entries es =>
    match m with
    | .field p =>
      match p.layout with
      | .map _ _ value => .map (completeEntries s value.kind es [])
      | _ => s.zeroSlot m
    | .union _ => s.zeroSlot m
  | .member number v =>
    match m.kind? number with
    | some kind => .union (some (number, completeValue s kind v))
    | none => s.zeroSlot m

def completeFields (s : Schema) : List Member → List PartialField → List Slot
  | m :: members, field :: fields => completeField s m field :: completeFields s members fields
  | members, _ => members.map s.zeroSlot

end

/-- The message of the type with a qualified name that a partial one stands for. -/
def complete (s : Schema) (name : String) (fields : List PartialField) : Message :=
  s.completeFields (s.members name) fields

end Schema

end Protobuf.Codec
