import Protobuf.Proofs.Wire.Numbers

/-!
# Values that are passed over

A value is passed over without being made. The records of open groups are passed over
one after the other: a record ends the innermost group, opens another one, or is plain.
-/

open Protobuf.Wire.Read

namespace Protobuf.Wire.Reader

lemma skip_determined (n : Nat) : Determined (skip n) :=
  (take_determined n).map _

lemma skipPlain_determined (wireType : Nat) : Determined (skipPlain wireType) := by
  unfold skipPlain
  split
  · exact varint_determined.map _
  · exact skip_determined 8
  · exact uint32_determined.bind fun n => skip_determined n.toNat
  · exact skip_determined 4
  · intro pos rest depth a r h
    cases h

/-- How reading goes on behind a group, with the starts of the groups around it. -/
def behindGroup (fuel : Nat) : List Nat → Read Unit
  | [] => pure ()
  | start :: outer => skipGroups fuel start outer

variable {r : Reader} {fuel start pos depth : Nat} {outer : List Nat} {rest : List UInt8}

lemma skipGroups_of_nil (hrest : r.rest = []) (fuel start : Nat) (outer : List Nat) :
    skipGroups fuel start outer r = .error (.unterminatedGroup start) r := by
  cases fuel with
  | zero => rfl
  | succ fuel =>
    rw [skipGroups.eq_def]
    refine (bind_ok (get_ok r)).trans ?_
    simp only [hrest, List.isEmpty_nil, if_true]
    rfl

lemma skipGroups_of_error {r' : Reader} {e : DecodeError} (hrest : r.rest ≠ [])
    (htag : uint32 r = .error e r') (fuel start : Nat) (outer : List Nat) :
    skipGroups (fuel + 1) start outer r = .error e r' := by
  have hsome : r.rest.isEmpty = false := by simpa using hrest
  rw [skipGroups.eq_def]
  refine (bind_ok (get_ok r)).trans ?_
  simp only [hsome, Bool.false_eq_true, if_false]
  exact bind_error htag

/-- One record of the innermost open group ends the group, opens another one, or is passed over. -/
lemma skipGroups_of_tag {r' : Reader} {tag : UInt32} (hrest : r.rest ≠ [])
    (htag : uint32 r = .ok tag r') (fuel start : Nat) (outer : List Nat) :
    skipGroups (fuel + 1) start outer r =
      (if tag.toNat % 8 = 4 then do
        modify fun r : Reader => { r with depth := r.depth - 1 }
        behindGroup fuel outer
      else if tag.toNat % 8 = 3 then do
        let inner ← position
        descend
        skipGroups fuel inner (start :: outer)
      else do
        skipPlain (tag.toNat % 8)
        skipGroups fuel start outer : Read Unit) r' := by
  have hsome : r.rest.isEmpty = false := by simpa using hrest
  conv_lhs => rw [skipGroups.eq_def]
  refine (bind_ok (get_ok r)).trans ?_
  simp only [hsome, Bool.false_eq_true, if_false]
  refine (bind_ok htag).trans ?_
  cases outer <;> rfl

lemma skipGroups_succ {head : List UInt8} {tag : UInt32} (htag : Reads uint32 depth head tag) :
    skipGroups (fuel + 1) start outer ⟨pos, head ++ rest, depth⟩ =
      (if tag.toNat % 8 = 4 then do
        modify fun r : Reader => { r with depth := r.depth - 1 }
        behindGroup fuel outer
      else if tag.toNat % 8 = 3 then do
        let inner ← position
        descend
        skipGroups fuel inner (start :: outer)
      else do
        skipPlain (tag.toNat % 8)
        skipGroups fuel start outer : Read Unit) ⟨pos + head.length, rest, depth⟩ := by
  have hpos := htag.length_pos_of_uint32
  refine skipGroups_of_tag ?_ (htag pos rest) fuel start outer
  exact List.append_ne_nil_of_left_ne_nil (List.length_pos_iff.mp hpos) rest

/-- Passing over a group enters it, which needs a level of depth, and goes on with its records. -/
lemma skipValue_enter (hdepth : depth < recursionLimit) (pos : Nat) (rest : List UInt8) :
    skipValue 3 ⟨pos, rest, depth⟩ = skipGroups rest.length pos [] ⟨pos, rest, depth + 1⟩ := by
  rw [skipValue, if_pos rfl, bind_ok (position_ok ..),
    bind_ok (descend_of_lt hdepth _ _), bind_ok (get_ok _)]

lemma skipValue_of_le (hdepth : recursionLimit ≤ depth) (pos : Nat) (rest : List UInt8) :
    skipValue 3 ⟨pos, rest, depth⟩ =
      .error (.recursionLimit pos recursionLimit) ⟨pos, rest, depth⟩ := by
  rw [skipValue, if_pos rfl, bind_ok (position_ok ..),
    bind_error (descend_of_le hdepth _ _)]

end Protobuf.Wire.Reader
