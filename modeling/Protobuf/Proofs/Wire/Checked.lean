import Protobuf.Proofs.Wire.Reads
import Protobuf.Wire.Scalar

/-!
# Reading by index

A second way to read: the whole buffer stays in view, a cursor holds an index and a
depth, and every step is checked. Bytes outside of the buffer, a depth below zero, a
loop whose iteration takes no byte, a nested group or message that is not deeper than
the one around it, and a loop or a recursion beyond its budget are faults, which no
reader reports. `Executes` says that a checked read has no fault and that it does what
a read does; it is proved here for the reads that have no loop but a bounded one.
-/

namespace Protobuf.Wire

variable {α β σ : Type}

/-- Where reading stands in a buffer. -/
structure Cursor where
  /-- The index of the next byte. -/
  pos : Nat
  depth : Nat

/-- What must not happen. -/
inductive Fault where
  /-- Bytes are asked for that the buffer does not have. -/
  | outOfRange
  /-- The depth would fall below zero. -/
  | underflow
  /-- An iteration of a loop took no byte. -/
  | stalled
  /-- A nested message or group is not deeper than what it is nested in. -/
  | shallow
  /-- The budget for iterations or for nested calls is used up. -/
  | unending

/-- How a checked read ends. -/
inductive Outcome (α : Type) where
  | ok (a : α) (c : Cursor)
  | error (e : DecodeError) (c : Cursor)
  | fault (f : Fault)

def Checked (α : Type) := Cursor → Outcome α

namespace Checked

instance : Monad Checked where
  pure a c := .ok a c
  bind x f c :=
    match x c with
    | .ok a c => f a c
    | .error e c => .error e c
    | .fault f => .fault f

def position : Checked Nat := fun c => .ok c.pos c

def depth : Checked Nat := fun c => .ok c.depth c

def seek (pos : Nat) : Checked Unit := fun c => .ok () { c with pos }

def fail (e : DecodeError) : Checked α := fun c => .error e c

def descend : Checked Unit := fun c =>
  if recursionLimit ≤ c.depth then .error (.recursionLimit c.pos recursionLimit) c
  else .ok () { c with depth := c.depth + 1 }

/-- Leave a message or a group. -/
def ascend : Checked Unit := fun c =>
  if c.depth = 0 then .fault .underflow else .ok () { c with depth := c.depth - 1 }

def ascending (inner : Checked α) : Checked α := fun c =>
  match inner c with
  | .ok a c => (do ascend; return a : Checked α) c
  | .error e c => (do ascend; fail e : Checked α) c
  | .fault f => .fault f

/-- Run a nested call, which must be deeper than the call around it. -/
def below (above : Option Nat) (x : Checked α) : Checked α := fun c =>
  if above.all (· < c.depth) then x c else .fault .shallow

/-- Run the body until it is done; every time it is not, it must have taken a byte. -/
def loop {ρ : Type} (body : σ → Checked (σ ⊕ ρ)) : (budget : Nat) → σ → Checked ρ
  | 0, _ => fun _ => .fault .unending
  | budget + 1, s => fun c =>
    match body s c with
    | .ok (.inl s) c' => if c.pos < c'.pos then loop body budget s c' else .fault .stalled
    | .ok (.inr r) c' => .ok r c'
    | .error e c' => .error e c'
    | .fault f => .fault f

/-- Run the body as long as the index is below `stop`. -/
def whileBefore (stop : Nat) (body : σ → Checked σ) (budget : Nat) (s : σ) : Checked σ :=
  loop (fun s => do
    if (← position) < stop then return .inl (← body s)
    else return .inr s) budget s

section

variable (buf : List UInt8)

/-- The bytes between two indices. -/
def slice (first last : Nat) : Checked (List UInt8) := fun c =>
  if first ≤ last ∧ last ≤ buf.length then .ok ((buf.drop first).take (last - first)) c
  else .fault .outOfRange

def take (n : Nat) : Checked (List UInt8) := do
  let first ← position
  if first + n ≤ buf.length then
    let bytes ← slice buf first (first + n)
    seek (first + n)
    return bytes
  else fail (.truncated first)

def skip (n : Nat) : Checked Unit := do
  let _ ← take buf n
  return

def frameEnd (length : Option Nat) : Checked Nat := fun c =>
  match length with
  | none => .ok buf.length c
  | some n =>
    if c.pos + n ≤ buf.length then .ok (c.pos + n) c else .error (.frameOverrun c.pos n) c

def finishFrame (stop : Nat) : Checked Unit := fun c =>
  if c.pos = stop then .ok () c else .error (.fieldOverrun c.pos stop) c

def varintFrom (start : Nat) : (left : Nat) → (shift value : Nat) → Checked UInt64
  | 0, _, _ => fail (.varintOverflow start)
  | left + 1, shift, value => fun c =>
    match buf[c.pos]? with
    | none => .error (.truncated c.pos) c
    | some b =>
      let value := value + b.toNat % 128 * Nat.pow 2 shift
      let c := { c with pos := c.pos + 1 }
      if b.toNat < 128 then .ok (UInt64.ofNat value) c
      else varintFrom start left (shift + 7) value c

/-- Read a varint of at most ten bytes. -/
def varint : Checked UInt64 := fun c =>
  varintFrom buf c.pos 10 0 0 c

/-- Read an unsigned 32-bit number. -/
def uint32 : Checked UInt32 :=
  return (← varint buf).toUInt32

/-- Read a signed 32-bit number. -/
def int32 : Checked Int32 :=
  return (← varint buf).toUInt32.toInt32

def sint32 : Checked Int32 :=
  return Int32.ofInt (unzigzag (← varint buf).toUInt32.toNat)

def int64 : Checked Int64 :=
  return (← varint buf).toInt64

def sint64 : Checked Int64 :=
  return Int64.ofInt (unzigzag (← varint buf).toNat)

def fixed32 : Checked UInt32 :=
  return UInt32.ofNat (ofLittleEndian (← take buf 4))

def sfixed32 : Checked Int32 :=
  return (← fixed32 buf).toInt32

def fixed64 : Checked UInt64 :=
  return UInt64.ofNat (ofLittleEndian (← take buf 8))

def sfixed64 : Checked Int64 :=
  return (← fixed64 buf).toInt64

def float : Checked Numeric.Single :=
  return ⟨← fixed32 buf⟩

def double : Checked Numeric.Double :=
  return ⟨← fixed64 buf⟩

def bool : Checked Bool :=
  return (← varint buf) != 0

def bytes : Checked (List UInt8) := do
  let length ← uint32 buf
  take buf length.toNat

def string : Checked String := do
  let offset ← position
  match utf8Text? (← bytes buf) with
  | some s => return s
  | none => fail (.invalidUtf8 offset)

/-- Read a value of a scalar type. -/
def scalar : Scalar → Checked Primitive
  | .double => return .double (← double buf)
  | .float => return .float (← float buf)
  | .int32 => return .int32 (← int32 buf)
  | .int64 => return .int64 (← int64 buf)
  | .uint32 => return .uint32 (← uint32 buf)
  | .uint64 => return .uint64 (← varint buf)
  | .sint32 => return .int32 (← sint32 buf)
  | .sint64 => return .int64 (← sint64 buf)
  | .fixed32 => return .uint32 (← fixed32 buf)
  | .fixed64 => return .uint64 (← fixed64 buf)
  | .sfixed32 => return .int32 (← sfixed32 buf)
  | .sfixed64 => return .int64 (← sfixed64 buf)
  | .bool => return .bool (← bool buf)
  | .string => return .string (← string buf)
  | .bytes => return .bytes (← bytes buf)

def packedEnd : Checked Nat := do
  let length ← uint32 buf
  frameEnd buf (some length.toNat)

def message (decode : Option Nat → Checked α) : Checked α := do
  let length ← uint32 buf
  descend
  ascending (decode (some length.toNat))

end

end Checked

/-! ## Checked reads that do what reads do -/

/-- From a cursor both end the same way: with the same result, after at least so many more bytes
and at the same depth, or with the same cause and no less deep. -/
inductive Agrees (buf : List UInt8) (c : Cursor) (least : Nat) :
    Outcome α → EStateM.Result DecodeError Reader α → Prop
  | ok {pos : Nat} (a : α) (hpos : c.pos + least ≤ pos) (hend : pos ≤ buf.length) :
      Agrees buf c least (.ok a ⟨pos, c.depth⟩) (.ok a ⟨pos, buf.drop pos, c.depth⟩)
  | error {pos depth : Nat} (e : DecodeError) (hpos : c.pos ≤ pos) (hend : pos ≤ buf.length)
      (hdepth : c.depth ≤ depth) (hlimit : depth ≤ recursionLimit) :
      Agrees buf c least (.error e ⟨pos, depth⟩) (.error e ⟨pos, buf.drop pos, depth⟩)

/-- What goes on after so many bytes has taken these as well. -/
lemma Agrees.after {buf : List UInt8} {c : Cursor} {mid more total : Nat}
    {outcome : Outcome α} {result : EStateM.Result DecodeError Reader α}
    (h : Agrees buf ⟨mid, c.depth⟩ more outcome result) (hmid : c.pos ≤ mid)
    (htotal : c.pos + total ≤ mid + more) : Agrees buf c total outcome result := by
  cases h with
  | ok a hpos hend =>
    change mid + more ≤ _ at hpos
    exact .ok a (by omega) hend
  | error e hpos hend hdepth hlimit =>
    change mid ≤ _ at hpos
    exact .error e (by omega) hend hdepth hlimit

/-- At a depth within the limit, the checked read does what the read does, from any position. -/
def Executes (buf : List UInt8) (depth least : Nat) (x : Checked α) (y : Read α) : Prop :=
  depth ≤ recursionLimit → ∀ pos, pos ≤ buf.length →
    Agrees buf ⟨pos, depth⟩ least (x ⟨pos, depth⟩) (y ⟨pos, buf.drop pos, depth⟩)

namespace Executes

variable {buf : List UInt8} {depth least more : Nat} {x : Checked α} {y : Read α}
  {f : α → Checked β} {g : α → Read β}

protected lemma pure (a : α) : Executes buf depth 0 (pure a) (pure a) :=
  fun _ _ hpos => .ok a le_rfl hpos

lemma fail (e : DecodeError) :
    Executes buf depth least (Checked.fail e : Checked α) (throw e : Read α) :=
  fun hdepth _ hpos => .error e le_rfl hpos le_rfl hdepth

lemma position : Executes buf depth 0 Checked.position Reader.position :=
  fun _ pos hpos => .ok pos le_rfl hpos

/-- Either both give a value, after at least so many bytes, or both stop for the same cause. -/
lemma cases (hx : Executes buf depth least x y) (hdepth : depth ≤ recursionLimit) {pos : Nat}
    (hpos : pos ≤ buf.length) :
    (∃ a mid, x ⟨pos, depth⟩ = .ok a ⟨mid, depth⟩ ∧
      y ⟨pos, buf.drop pos, depth⟩ = .ok a ⟨mid, buf.drop mid, depth⟩ ∧
      pos + least ≤ mid ∧ mid ≤ buf.length) ∨
    ∃ e mid deep, x ⟨pos, depth⟩ = .error e ⟨mid, deep⟩ ∧
      y ⟨pos, buf.drop pos, depth⟩ = .error e ⟨mid, buf.drop mid, deep⟩ ∧
      pos ≤ mid ∧ mid ≤ buf.length ∧ depth ≤ deep ∧ deep ≤ recursionLimit := by
  have hagrees := hx hdepth pos hpos
  generalize x ⟨pos, depth⟩ = outcome at hagrees ⊢
  generalize y ⟨pos, buf.drop pos, depth⟩ = result at hagrees ⊢
  cases hagrees with
  | ok a hmid hend => exact .inl ⟨a, _, rfl, rfl, hmid, hend⟩
  | error e hmid hend hdeep hlimit => exact .inr ⟨e, _, _, rfl, rfl, hmid, hend, hdeep, hlimit⟩

end Executes

namespace Checked

lemma bind_ok {x : Checked α} {f : α → Checked β} {c c' : Cursor} {a : α}
    (h : x c = .ok a c') : (x >>= f) c = f a c' := by
  change (match x c with
    | .ok a c => f a c
    | .error e c => .error e c
    | .fault f => .fault f) = _
  rw [h]

lemma bind_error {x : Checked α} {f : α → Checked β} {c c' : Cursor} {e : DecodeError}
    (h : x c = .error e c') : (x >>= f) c = .error e c' := by
  change (match x c with
    | .ok a c => f a c
    | .error e c => .error e c
    | .fault f => .fault f) = _
  rw [h]

lemma bind_eq_ok {x : Checked α} {f : α → Checked β} {c c' : Cursor} {b : β} :
    (x >>= f) c = .ok b c' ↔ ∃ a c₁, x c = .ok a c₁ ∧ f a c₁ = .ok b c' := by
  change (match x c with
    | .ok a c => f a c
    | .error e c => .error e c
    | .fault f => .fault f) = _ ↔ _
  cases x c <;> simp

lemma position_ok (c : Cursor) : position c = .ok c.pos c :=
  rfl

lemma depth_ok (c : Cursor) : depth c = .ok c.depth c :=
  rfl

end Checked

namespace Executes

variable {buf : List UInt8} {depth least more : Nat} {x : Checked α} {y : Read α}
  {f : α → Checked β} {g : α → Read β}

protected lemma bind (hx : Executes buf depth least x y)
    (hf : ∀ a, Executes buf depth more (f a) (g a)) :
    Executes buf depth (least + more) (x >>= f) (y >>= g) := by
  intro hdepth pos hpos
  rcases hx.cases hdepth hpos with
    ⟨a, mid, hx, hy, hmid, hend⟩ | ⟨e, mid, deep, hx, hy, hmid, hend, hdeep, hlimit⟩
  · rw [Checked.bind_ok hx, Read.bind_ok hy]
    refine (hf a hdepth mid hend).after ?_ ?_
    · change pos ≤ mid
      omega
    · change pos + (least + more) ≤ mid + more
      omega
  · rw [Checked.bind_error hx, Read.bind_error hy]
    exact .error e hmid hend hdeep hlimit

/-- The second one of two reads only has to do with what the first one can give. -/
lemma bind_of (hx : Executes buf depth least x y)
    (hf : ∀ a, (∃ c c', x c = .ok a c') → Executes buf depth 0 (f a) (g a)) :
    Executes buf depth least (x >>= f) (y >>= g) := by
  intro hdepth pos hpos
  rcases hx.cases hdepth hpos with
    ⟨a, mid, hx, hy, hmid, hend⟩ | ⟨e, mid, deep, hx, hy, hmid, hend, hdeep, hlimit⟩
  · rw [Checked.bind_ok hx, Read.bind_ok hy]
    exact (hf a ⟨_, _, hx⟩ hdepth mid hend).after (Nat.le_of_add_right_le hmid) hmid
  · rw [Checked.bind_error hx, Read.bind_error hy]
    exact .error e hmid hend hdeep hlimit

lemma bind_pure (hx : Executes buf depth least x y)
    (hf : ∀ a, Executes buf depth 0 (f a) (g a)) :
    Executes buf depth least (x >>= f) (y >>= g) :=
  hx.bind hf

lemma bind_then (hx : Executes buf depth 0 x y)
    (hf : ∀ a, Executes buf depth least (f a) (g a)) :
    Executes buf depth least (x >>= f) (y >>= g) := by
  have h := hx.bind hf
  rwa [Nat.zero_add] at h

protected lemma map (hx : Executes buf depth least x y) (h : α → β) :
    Executes buf depth least (do return h (← x)) (do return h (← y)) :=
  hx.bind fun a => .pure (h a)

lemma mono (hx : Executes buf depth least x y) (hle : more ≤ least) : Executes buf depth more x y :=
  fun hdepth pos hpos => (hx hdepth pos hpos).after le_rfl (Nat.add_le_add_left hle pos)

end Executes

/-! ## Reads without a loop of their own -/

section

variable (buf : List UInt8) (depth : Nat)

lemma executes_take (n : Nat) : Executes buf depth n (Checked.take buf n) (Reader.take n) := by
  intro hdepth pos hpos
  have hlength : (buf.drop pos).length = buf.length - pos := List.length_drop
  by_cases hn : pos + n ≤ buf.length
  · have hchecked : Checked.take buf n ⟨pos, depth⟩ =
        .ok ((buf.drop pos).take n) ⟨pos + n, depth⟩ := by
      simp only [Checked.take]
      have hslice : Checked.slice buf pos (pos + n) ⟨pos, depth⟩ =
          .ok ((buf.drop pos).take n) ⟨pos, depth⟩ := by
        simp [Checked.slice, hn]
      refine (Checked.bind_ok (Checked.position_ok _)).trans ?_
      refine (congrFun (if_pos hn) _).trans ((Checked.bind_ok hslice).trans rfl)
    have hread : Reader.take n ⟨pos, buf.drop pos, depth⟩ =
        .ok ((buf.drop pos).take n) ⟨pos + n, buf.drop (pos + n), depth⟩ := by
      simp only [Reader.take, hlength, if_pos (show n ≤ buf.length - pos by omega), List.drop_drop]
    rw [hchecked, hread]
    exact .ok _ le_rfl hn
  · have hchecked : Checked.take buf n ⟨pos, depth⟩ = .error (.truncated pos) ⟨pos, depth⟩ := by
      simp only [Checked.take]
      refine (Checked.bind_ok (Checked.position_ok _)).trans ?_
      exact congrFun (if_neg hn) _
    have hread : Reader.take n ⟨pos, buf.drop pos, depth⟩ =
        .error (.truncated pos) ⟨pos, buf.drop pos, depth⟩ := by
      simp only [Reader.take, hlength, if_neg (show ¬ n ≤ buf.length - pos by omega)]
    rw [hchecked, hread]
    exact .error _ le_rfl hpos le_rfl hdepth

lemma executes_skip (n : Nat) : Executes buf depth n (Checked.skip buf n) (Reader.skip n) :=
  (executes_take buf depth n).map fun _ => ()

lemma executes_frameEnd (length : Option Nat) :
    Executes buf depth 0 (Checked.frameEnd buf length) (Reader.frameEnd length) := by
  intro hdepth pos hpos
  have hsize : Reader.size ⟨pos, buf.drop pos, depth⟩ = buf.length := by
    simp only [Reader.size, List.length_drop]
    omega
  cases length with
  | none =>
    simp only [Checked.frameEnd, Reader.frameEnd, hsize]
    exact .ok _ le_rfl hpos
  | some n =>
    simp only [Checked.frameEnd, Reader.frameEnd, hsize]
    split_ifs
    · exact .ok _ le_rfl hpos
    · exact .error _ le_rfl hpos le_rfl hdepth

lemma executes_finishFrame (stop : Nat) :
    Executes buf depth 0 (Checked.finishFrame stop) (Reader.finishFrame stop) := by
  intro hdepth pos hpos
  simp only [Checked.finishFrame, Reader.finishFrame]
  split_ifs
  · exact .ok _ le_rfl hpos
  · exact .error _ le_rfl hpos le_rfl hdepth

lemma executes_varintFrom (start left shift value : Nat) :
    Executes buf depth 1 (Checked.varintFrom buf start left shift value)
      (Reader.varintFrom start left shift value) := by
  induction left generalizing shift value with
  | zero => exact .fail _
  | succ left ih =>
    intro hdepth pos hpos
    by_cases hlast : pos < buf.length
    · have hdrop : buf.drop pos = buf[pos] :: buf.drop (pos + 1) := List.drop_eq_getElem_cons hlast
      simp only [Checked.varintFrom, Reader.varintFrom, hdrop, List.getElem?_eq_getElem hlast]
      split_ifs
      · exact .ok _ le_rfl hlast
      · exact (ih _ _ hdepth (pos + 1) hlast).after (Nat.le_succ pos) (Nat.le_succ (pos + 1))
    · have hnil : buf.drop pos = [] := List.drop_eq_nil_of_le (by omega)
      have hnone : buf[pos]? = none := List.getElem?_eq_none (by omega)
      simp only [Checked.varintFrom, Reader.varintFrom, hnil, hnone]
      exact hnil ▸ .error _ le_rfl hpos le_rfl hdepth

lemma executes_varint : Executes buf depth 1 (Checked.varint buf) Reader.varint :=
  fun hdepth pos hpos => executes_varintFrom buf depth pos 10 0 0 hdepth pos hpos

lemma executes_uint32 : Executes buf depth 1 (Checked.uint32 buf) Reader.uint32 :=
  (executes_varint buf depth).map _

lemma executes_int32 : Executes buf depth 1 (Checked.int32 buf) Reader.int32 :=
  (executes_varint buf depth).map _

lemma executes_fixed32 : Executes buf depth 4 (Checked.fixed32 buf) Reader.fixed32 :=
  (executes_take buf depth 4).map _

lemma executes_fixed64 : Executes buf depth 8 (Checked.fixed64 buf) Reader.fixed64 :=
  (executes_take buf depth 8).map _

lemma executes_bytes : Executes buf depth 1 (Checked.bytes buf) Reader.bytes :=
  (executes_uint32 buf depth).bind_pure fun n =>
    (executes_take buf depth n.toNat).mono (Nat.zero_le _)

lemma executes_string : Executes buf depth 1 (Checked.string buf) Reader.string := by
  refine Executes.position.bind_then fun offset => (executes_bytes buf depth).bind_pure fun bs => ?_
  cases utf8Text? bs with
  | none => exact .fail _
  | some s => exact .pure s

lemma executes_scalar (t : Scalar) : Executes buf depth 1 (Checked.scalar buf t) t.read := by
  have hvarint := executes_varint buf depth
  have hfixed32 := (executes_fixed32 buf depth).mono (show 1 ≤ 4 by decide)
  have hfixed64 := (executes_fixed64 buf depth).mono (show 1 ≤ 8 by decide)
  cases t with
  | int32 | int64 | uint32 | sint32 | sint64 | bool => exact (hvarint.map _).map _
  | uint64 => exact hvarint.map _
  | fixed32 => exact hfixed32.map _
  | fixed64 => exact hfixed64.map _
  | sfixed32 | float => exact (hfixed32.map _).map _
  | sfixed64 | double => exact (hfixed64.map _).map _
  | string => exact (executes_string buf depth).map _
  | bytes => exact (executes_bytes buf depth).map _

lemma executes_packedEnd : Executes buf depth 1 (Checked.packedEnd buf) Reader.packedEnd :=
  (executes_uint32 buf depth).bind_pure fun n => executes_frameEnd buf depth (some n.toNat)

/-- A message is one level deeper than its length, and left again however it ends. -/
lemma executes_message {decode : Option Nat → Checked α} {decode' : Option Nat → Read α}
    (h : ∀ n, Executes buf (depth + 1) 0 (decode (some n)) (decode' (some n))) :
    Executes buf depth 1 (Checked.message buf decode) (Reader.message decode') := by
  refine (executes_uint32 buf depth).bind_pure fun n => ?_
  intro hdepth pos hpos
  by_cases hlt : depth < recursionLimit
  · have hdescend : Checked.descend ⟨pos, depth⟩ = .ok () ⟨pos, depth + 1⟩ := by
      simp only [Checked.descend, if_neg (Nat.not_le.mpr hlt)]
    rw [Checked.bind_ok hdescend, Read.bind_ok (Reader.descend_of_lt hlt _ _)]
    simp only [Checked.ascending, Reader.ascending]
    rcases (h n.toNat).cases hlt hpos with
      ⟨a, mid, hx, hy, hmid, hend⟩ | ⟨e, mid, deep, hx, hy, hmid, hend, hdeep, hlimit⟩
    · rw [hx, hy]
      exact .ok a hmid hend
    · obtain ⟨deep, rfl⟩ : ∃ k, deep = k + 1 := ⟨deep - 1, by omega⟩
      rw [hx, hy]
      exact .error e hmid hend (Nat.le_of_succ_le_succ hdeep) (Nat.le_of_succ_le hlimit)
  · have hfull : recursionLimit ≤ depth := Nat.not_lt.mp hlt
    have hdescend : Checked.descend ⟨pos, depth⟩ =
        .error (.recursionLimit pos recursionLimit) ⟨pos, depth⟩ := by
      simp only [Checked.descend, if_pos hfull]
    rw [Checked.bind_error hdescend, Read.bind_error (Reader.descend_of_le hfull _ _)]
    exact .error _ le_rfl hpos le_rfl hdepth

end

end Protobuf.Wire
