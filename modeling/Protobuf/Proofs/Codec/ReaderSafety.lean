import Protobuf.Proofs.Codec.FrameIsolation
import Protobuf.Proofs.Wire.CheckedLoops

/-!
# Readers stay in their buffers

Whatever a buffer holds and whatever is asked of a reader, one operation after the
other, with errors or without: no step of the checked reader has a fault. So the
position never falls and never leaves the buffer, the depth stays within the limit,
and every operation ends with an answer or with a cause why there is none.
-/

open Nat

namespace Protobuf

open Wire

namespace Wrapper

/-- Read a length and the wrapper of that length, with every step checked. -/
def check (kind : Wrapper) (buf : List UInt8) (budget : Nat) : Checked Primitive := do
  let length ← Checked.uint32 buf
  Checked.frame buf budget
    (fun number wireType value =>
      if number = 1 then Checked.scalar buf kind.scalar
      else do
        Checked.skipType buf budget budget none wireType
        return value)
    (some length.toNat) kind.scalar.zero

end Wrapper

namespace Timestamp

/-- Read a message in a frame, with every step checked. -/
def check (buf : List UInt8) (budget : Nat) (length : Option Nat) : Checked Timestamp :=
  Checked.frame buf budget
    (fun number wireType t => do
      match number with
      | 1 => return { t with seconds := ← Checked.int64 buf }
      | 2 => return { t with nanos := ← Checked.int32 buf }
      | _ =>
        Checked.skipType buf budget budget none wireType
        return t)
    length zero

end Timestamp

namespace Codec.Schema

open Plan

section

variable (s : Schema) (buf : List UInt8) (budget : Nat)
  (inner : (name : String) → (length : Option Nat) → Checked Message)

def checkScalar (t : Scalar) : Checked Primitive := do
  let p ← Checked.scalar buf t
  match s.textWidth? t, p.toInt? with
  | some _, some n => return .string (Text.intText n)
  | _, _ => return p

def checkValue : ValueKind → Checked Value
  | .scalar t => return .scalar (← s.checkScalar buf t)
  | .enum _ e => return .choice (e.ofNumber (← Checked.int32 buf))
  | .wrapper k => return .scalar (← k.check buf budget)
  | .timestamp => return .time (← Checked.message buf (Timestamp.check buf budget)).toInstant
  | .message ref => return .message (← Checked.message buf (inner ref.qualifiedName))

/-- Read a record of a member into its slot, with every step checked. -/
def checkMember (number wireType : Nat) (kind : ValueKind) : Member → Slot → Checked Slot
  | .field p, slot => do
    match p.layout, slot with
    | .plain, _ => return .plain (← s.checkValue buf budget inner kind)
    | .optional, _ => return .optional (some (← s.checkValue buf budget inner kind))
    | .repeated, .repeated vs =>
      if p.isPacked && wireType == 2 then
        return .repeated (vs ++ (← Checked.block buf budget (s.checkValue buf budget inner kind)))
      else return .repeated (vs ++ [← s.checkValue buf budget inner kind])
    | .map entry _ value, .map entries =>
      let m ← Checked.message buf (inner entry.qualifiedName)
      match entryOf? (s.missingValue value.kind) m with
      | some (k, v) => return .map (putEntry k v entries)
      | none => return .map entries
    | _, slot => return slot
  | .union _, _ => return .union (some (number, ← s.checkValue buf budget inner kind))

/-- Read a record into the slot of the first member that has its number, with every step
checked. -/
def checkRecord (number wireType : Nat) : List Member → List Slot → Checked (List Slot)
  | m :: members, slot :: slots =>
    match m.kind? number with
    | some kind => return (← s.checkMember buf budget inner number wireType kind m slot) :: slots
    | none => return slot :: (← checkRecord number wireType members slots)
  | _, slots => do
    Checked.skipType buf budget budget none wireType
    return slots

end

/-- Read a message with messages nested at most `levels` deep, with every step checked. -/
def checkWithin (s : Schema) (buf : List UInt8) (budget : Nat) :
    (levels : Nat) → (above : Option Nat) → (name : String) → (length : Option Nat) →
      Checked Message
  | 0, _, _, _ => fun _ => .fault .unending
  | levels + 1, above, name, length => Checked.below above do
    let outer ← Checked.depth
    Checked.frame buf budget
      (fun number wireType slots =>
        s.checkRecord buf budget (s.checkWithin buf budget levels (some outer)) number wireType
          (s.members name) slots)
      length (s.zero name)

end Codec.Schema

/-! ## The checked reads of the codec -/

section

variable {buf : List UInt8} {budget depth : Nat} (hbudget : buf.length + recursionLimit < budget)

include hbudget

lemma executes_skipValue (wireType : Nat) :
    Executes buf depth 0 (Checked.skipType buf budget budget none wireType)
      (Reader.skipValue wireType) :=
  executes_skipType (by omega) (by omega) rfl wireType

lemma Wrapper.executes_check (kind : Wrapper) :
    Executes buf depth 1 (kind.check buf budget) kind.read := by
  refine (executes_uint32 buf depth).bind_pure fun length => ?_
  refine executes_frame (by omega) (fun number wireType value => ?_) _ _
  by_cases hnumber : number = 1
  · rw [if_pos hnumber, if_pos hnumber]
    exact (executes_scalar buf depth kind.scalar).mono (zero_le 1)
  · rw [if_neg hnumber, if_neg hnumber]
    exact (executes_skipValue hbudget wireType).map fun _ => value

lemma Timestamp.executes_check (length : Option Nat) :
    Executes buf depth 0 (Timestamp.check buf budget length) (Timestamp.decode length) := by
  refine executes_frame (by omega) (fun number wireType t => ?_) _ _
  have hvarint := (executes_varint buf depth).mono (zero_le 1)
  have hskip : Executes buf depth 0 _ _ := (executes_skipValue hbudget wireType).map fun _ => t
  obtain _ | _ | _ | number := number
  · exact hskip
  · exact (hvarint.map _).map _
  · exact (hvarint.map _).map _
  · exact hskip

namespace Codec.Schema

open Plan

variable (s : Schema) {inner : (name : String) → (length : Option Nat) → Checked Message}
  {inner' : MessageReader}

omit hbudget in
lemma executes_checkScalar (t : Scalar) :
    Executes buf depth 1 (s.checkScalar buf t) (s.readScalar t) := by
  refine (executes_scalar buf depth t).bind_pure fun p => ?_
  rcases s.textWidth? t with _ | width <;> rcases p.toInt? with _ | n <;> exact .pure _

variable
  (hinner : ∀ name n, Executes buf (depth + 1) 0 (inner name (some n)) (inner' name (some n)))

include hinner

lemma executes_checkValue (kind : ValueKind) :
    Executes buf depth 1 (s.checkValue buf budget inner kind) (s.readValue inner' kind) := by
  cases kind with
  | scalar t => exact (s.executes_checkScalar t).map _
  | enum ref e => exact (executes_int32 buf depth).map _
  | wrapper k => exact (k.executes_check hbudget).map _
  | timestamp =>
    exact (executes_message buf depth fun n => Timestamp.executes_check hbudget (some n)).map _
  | message ref => exact (executes_message buf depth (hinner ref.qualifiedName)).map _

lemma executes_checkMember (number wireType : Nat) (kind : ValueKind) (m : Member)
    (slot : Slot) :
    Executes buf depth 0 (s.checkMember buf budget inner number wireType kind m slot)
      (s.readMember inner' number wireType kind m slot) := by
  have hvalue := s.executes_checkValue hbudget hinner kind
  have hplain := hvalue.mono (zero_le 1)
  cases m with
  | union u => exact hplain.map _
  | field p =>
    simp only [checkMember, readMember]
    generalize p.layout = layout
    cases layout with
    | plain | optional => exact hplain.map _
    | repeated =>
      cases slot with
      | repeated vs =>
        by_cases hpacked : (p.isPacked && wireType == 2)
        · simp only [hpacked, if_true]
          have hblock := executes_block (show buf.length < budget by omega) hvalue
          exact (hblock.mono (zero_le 1)).map _
        · simp only [hpacked]
          exact hplain.map _
      | plain | optional | map | union => exact .pure _
    | map entry key value =>
      cases slot with
      | map entries =>
        have hentry := executes_message buf depth (hinner entry.qualifiedName)
        refine (hentry.mono (zero_le 1)).bind_pure fun m => ?_
        cases entryOf? (s.missingValue value.kind) m <;> exact .pure _
      | plain | optional | repeated | union => exact .pure _

lemma executes_checkRecord (number wireType : Nat) (members : List Member)
    (slots : List Slot) :
    Executes buf depth 0 (s.checkRecord buf budget inner number wireType members slots)
      (s.readRecord inner' number wireType members slots) := by
  have hskip : Executes buf depth 0 _ _ := executes_skipValue hbudget wireType
  induction members generalizing slots with
  | nil => exact hskip.map fun _ => slots
  | cons m members ih =>
    cases slots with
    | nil => exact hskip.map fun _ => []
    | cons slot slots =>
      unfold checkRecord readRecord
      cases m.kind? number with
      | some kind =>
        exact (s.executes_checkMember hbudget hinner number wireType kind m slot).map _
      | none => exact (ih slots).map _

omit hinner in
/-- A message in which messages are nested as deep as the limit allows. -/
lemma executes_checkWithin {levels levels' : Nat} (hlevels : recursionLimit < depth + levels)
    (hlevels' : recursionLimit < depth + levels') {above : Option Nat}
    (habove : above.all (· < depth)) (name : String) (length : Option Nat) :
    Executes buf depth 0 (s.checkWithin buf budget levels above name length)
      (s.readWithin levels' name length) := by
  induction levels generalizing depth levels' above name length with
  | zero => exact fun hdepth => by omega
  | succ levels ih =>
    intro hdepth pos hpos
    obtain ⟨levels', rfl⟩ : ∃ k, levels' = k + 1 := ⟨levels' - 1, by omega⟩
    have hinner : ∀ name n, Executes buf (depth + 1) 0
        (s.checkWithin buf budget levels (some depth) name (some n))
        (s.readWithin levels' name (some n)) :=
      fun name n => ih (by omega) (by omega) (by simp) name (some n)
    have hframe := executes_frame (show buf.length < budget by omega)
      (fun number wireType => s.executes_checkRecord hbudget hinner number wireType
        (s.members name)) length (s.zero name)
    rw [checkWithin, Checked.below_of_lt habove, readWithin]
    exact hframe hdepth pos hpos

end Codec.Schema

end

/-! ## Operations, one after the other -/

def Wire.Cursor.reader (c : Cursor) (buf : List UInt8) : Reader :=
  ⟨c.pos, buf.drop c.pos, c.depth⟩

namespace Codec

inductive Operation where
  /-- Read a scalar: a number, a boolean, a text or bytes. -/
  | scalar (t : Scalar)
  /-- Go past some bytes. -/
  | skip (n : Nat)
  /-- Go past a value of a wire type. -/
  | skipType (wireType : Nat)
  | packedEnd
  | frameEnd (length : Option Nat)
  /-- Check that a frame ends here. -/
  | finishFrame (stop : Nat)
  | wrapper (kind : Wrapper)
  /-- Read a timestamp after its length. -/
  | timestamp
  /-- Read a message of any type of any schema after its length. -/
  | message (s : Schema) (name : String)
  | decodeTimestamp (length : Option Nat)
  /-- Read a message of any type of any schema in a frame. -/
  | decode (s : Schema) (name : String) (length : Option Nat)

/-- What an operation gives. -/
inductive Answer where
  | done
  | primitive (p : Primitive)
  | offset (n : Nat)
  | timestamp (t : Timestamp)
  | message (m : Message)

namespace Operation

def read : Operation → Read Answer
  | scalar t => return .primitive (← t.read)
  | skip n => do Reader.skip n; return .done
  | skipType wireType => do Reader.skipValue wireType; return .done
  | packedEnd => return .offset (← Reader.packedEnd)
  | frameEnd length => return .offset (← Reader.frameEnd length)
  | finishFrame stop => do Reader.finishFrame stop; return .done
  | wrapper kind => return .primitive (← kind.read)
  | timestamp => return .timestamp (← Reader.message Timestamp.decode)
  | message s name => return .message (← Reader.message (s.read name))
  | decodeTimestamp length => return .timestamp (← Timestamp.decode length)
  | decode s name length => return .message (← s.read name length)

/-- What the reader does, with every step checked: no loop may run more than `budget` times, and no
call may be nested more than `budget` deep. -/
def check (buf : List UInt8) (budget : Nat) : Operation → Checked Answer
  | scalar t => return .primitive (← Checked.scalar buf t)
  | skip n => do Checked.skip buf n; return .done
  | skipType wireType => do Checked.skipType buf budget budget none wireType; return .done
  | packedEnd => return .offset (← Checked.packedEnd buf)
  | frameEnd length => return .offset (← Checked.frameEnd buf length)
  | finishFrame stop => do Checked.finishFrame stop; return .done
  | wrapper kind => return .primitive (← kind.check buf budget)
  | timestamp => return .timestamp (← Checked.message buf (Timestamp.check buf budget))
  | message s name =>
    return .message (← Checked.message buf (s.checkWithin buf budget budget none name))
  | decodeTimestamp length => return .timestamp (← Timestamp.check buf budget length)
  | decode s name length => return .message (← s.checkWithin buf budget budget none name length)

lemma executes_check {buf : List UInt8} {budget depth : Nat}
    (hbudget : buf.length + recursionLimit < budget) (op : Operation) :
    Executes buf depth 0 (op.check buf budget) op.read := by
  have hmessage : ∀ (s : Schema) (depth : Nat) (name : String) (length : Option Nat),
      Executes buf depth 0 (s.checkWithin buf budget budget none name length)
        (s.read name length) := by
    intro s depth name length
    have hlevels : recursionLimit < depth + (recursionLimit + 1) := by omega
    exact s.executes_checkWithin hbudget (by omega) hlevels rfl name length
  cases op with
  | scalar t => exact ((executes_scalar buf depth t).mono (zero_le 1)).map _
  | skip n => exact ((executes_skip buf depth n).mono (zero_le n)).map _
  | skipType wireType => exact (executes_skipValue hbudget wireType).map _
  | packedEnd => exact ((executes_packedEnd buf depth).mono (zero_le 1)).map _
  | frameEnd length => exact (executes_frameEnd buf depth length).map _
  | finishFrame stop => exact (executes_finishFrame buf depth stop).map _
  | wrapper kind => exact ((kind.executes_check hbudget).mono (zero_le 1)).map _
  | timestamp =>
    have h := executes_message buf depth fun n => Timestamp.executes_check hbudget (some n)
    exact (h.mono (zero_le 1)).map _
  | message s name =>
    have h := executes_message buf depth fun n => hmessage s (depth + 1) name (some n)
    exact (h.mono (zero_le 1)).map _
  | decodeTimestamp length => exact (Timestamp.executes_check hbudget length).map _
  | decode s name length => exact (hmessage s depth name length).map _

/-- Some operations, each from where the one before left the reader, also if that one failed. -/
def readAll : List Operation → Reader → List (Except DecodeError Answer × Reader)
  | [], _ => []
  | op :: ops, r =>
    match op.read r with
    | .ok a r => (.ok a, r) :: readAll ops r
    | .error e r => (.error e, r) :: readAll ops r

/-- Some operations, with every step checked; the first fault ends it all. -/
def checkAll (buf : List UInt8) (budget : Nat) :
    List Operation → Cursor → Except Fault (List (Except DecodeError Answer × Cursor))
  | [], _ => .ok []
  | op :: ops, c =>
    match op.check buf budget c with
    | .ok a c => return (.ok a, c) :: (← checkAll buf budget ops c)
    | .error e c => return (.error e, c) :: (← checkAll buf budget ops c)
    | .fault f => .error f

/-- From anywhere in the buffer, every operation ends and leaves the cursor in it, no earlier and no
less deep. -/
lemma checkAll_eq_ok {buf : List UInt8} {budget : Nat}
    (hbudget : buf.length + recursionLimit < budget) (ops : List Operation) {pos depth : Nat}
    (hpos : pos ≤ buf.length) (hdepth : depth ≤ recursionLimit) :
    ∃ trace, checkAll buf budget ops ⟨pos, depth⟩ = .ok trace ∧
      trace.map (fun x => (x.1, x.2.reader buf)) = readAll ops ⟨pos, buf.drop pos, depth⟩ ∧
      (∀ x ∈ trace, pos ≤ x.2.pos ∧ x.2.pos ≤ buf.length ∧ x.2.depth ≤ recursionLimit) ∧
      trace.Pairwise (fun x y => x.2.pos ≤ y.2.pos) := by
  induction ops generalizing pos depth with
  | nil => exact ⟨[], rfl, rfl, by simp, .nil⟩
  | cons op ops ih =>
    -- Both ways to end put the next cursor at `mid`; the rest goes on from there.
    have hnext : ∀ (answer : Except DecodeError Answer) (mid deep : Nat), pos ≤ mid →
        mid ≤ buf.length → deep ≤ recursionLimit →
        checkAll buf budget (op :: ops) ⟨pos, depth⟩ =
          (do return (answer, ⟨mid, deep⟩) :: (← checkAll buf budget ops ⟨mid, deep⟩)) →
        readAll (op :: ops) ⟨pos, buf.drop pos, depth⟩ =
          (answer, ⟨mid, buf.drop mid, deep⟩) :: readAll ops ⟨mid, buf.drop mid, deep⟩ →
        ∃ trace, checkAll buf budget (op :: ops) ⟨pos, depth⟩ = .ok trace ∧
          trace.map (fun x => (x.1, x.2.reader buf)) =
            readAll (op :: ops) ⟨pos, buf.drop pos, depth⟩ ∧
          (∀ x ∈ trace, pos ≤ x.2.pos ∧ x.2.pos ≤ buf.length ∧ x.2.depth ≤ recursionLimit) ∧
          trace.Pairwise (fun x y => x.2.pos ≤ y.2.pos) := by
      intro answer mid deep hmid hend hdeep hcheck hread
      obtain ⟨trace, htrace, hmap, hin, hordered⟩ := ih hend hdeep
      refine ⟨(answer, ⟨mid, deep⟩) :: trace, ?_, ?_, ?_, ?_⟩
      · rw [hcheck, htrace]
        rfl
      · rw [hread, ← hmap]
        rfl
      · intro x hx
        rcases List.mem_cons.mp hx with rfl | hx
        · exact ⟨hmid, hend, hdeep⟩
        · exact ⟨hmid.trans (hin x hx).1, (hin x hx).2⟩
      · exact List.pairwise_cons.mpr ⟨fun x hx => (hin x hx).1, hordered⟩
    rcases (executes_check hbudget op).cases hdepth hpos with
      ⟨a, mid, hx, hy, hmid, hend⟩ | ⟨e, mid, deep, hx, hy, hmid, hend, -, hlimit⟩
    · exact hnext (.ok a) mid depth hmid hend hdepth (by simp only [checkAll, hx])
        (by simp only [readAll, hy])
    · exact hnext (.error e) mid deep hmid hend hlimit (by simp only [checkAll, hx])
        (by simp only [readAll, hy])

/-- Whatever the buffer holds, and whatever is asked of a reader of it, one operation after the
other, from where the last one stopped whether it failed or not: with a budget that only depends on
the length of the buffer, and with any larger one, no step has a fault. So no bytes outside of the
buffer are asked for, the depth does not fall below zero, every iteration of a loop takes a byte,
everything nested is deeper than what it is in, and all operations end, with the same answers and
causes and at the same places as those of the reader. The position stays in the buffer and never
falls, and the depth stays within the limit. -/
theorem checkAll_never_faults (buf : List UInt8) (extra : Nat) (ops : List Operation) :
    ∃ trace, checkAll buf (buf.length + recursionLimit + 1 + extra) ops ⟨0, 0⟩ = .ok trace ∧
      trace.map (fun x => (x.1, x.2.reader buf)) = readAll ops (Reader.ofBytes buf) ∧
      (∀ x ∈ trace, x.2.pos ≤ buf.length ∧ x.2.depth ≤ recursionLimit) ∧
      trace.Pairwise (fun x y => x.2.pos ≤ y.2.pos) := by
  have hbudget : buf.length + recursionLimit < buf.length + recursionLimit + 1 + extra := by omega
  obtain ⟨trace, htrace, hmap, hin, hordered⟩ :=
    checkAll_eq_ok hbudget ops (Nat.zero_le _) (Nat.zero_le _)
  exact ⟨trace, htrace, hmap, fun x hx => (hin x hx).2, hordered⟩

-- The budget is needed: one iteration is not enough for a record and the end of a frame.
example : checkAll [8, 1] 1 [.decodeTimestamp none] ⟨0, 0⟩ = .error .unending := rfl

end Operation

end Codec

end Protobuf
