import Protobuf.Proofs.Codec.WireForm

/-!
# The textbook encoding

The encoding of a message as it is usually described: the members in the order of
their declaration, each value as a record, which is a tag and the value, and
every message within a message as the length of its own encoding and that
encoding. Nothing is deferred and no writer is involved. The codec gives the same
bytes for every message.
-/

namespace Protobuf.Wire

def record (number wireType : Nat) (content : List UInt8) : List UInt8 :=
  varint (Codec.tagOf number wireType).toUInt64 ++ content

def delimited (content : List UInt8) : List UInt8 :=
  lengthBytes content.length ++ content

def blockRecord (number : Nat) (content : List UInt8) : List UInt8 :=
  record number 2 (delimited content)

end Protobuf.Wire

namespace Protobuf

open Wire

/-- The default of the type that a value has. -/
def Primitive.default : Primitive → Primitive
  | .double _ => .double .zero
  | .float _ => .float .zero
  | .int32 _ => .int32 0
  | .int64 _ => .int64 0
  | .uint32 _ => .uint32 0
  | .uint64 _ => .uint64 0
  | .bool _ => .bool false
  | .string _ => .string ""
  | .bytes _ => .bytes []

/-- Whether a value is the default of its type; a zero can have either sign. -/
def Primitive.isDefault (p : Primitive) : Bool :=
  p.numericEq p.default

/-- The bytes of a value of a scalar type. -/
def Scalar.content (t : Scalar) (p : Primitive) : List UInt8 :=
  Piece.flatten (t.pieces p)

/-- The message that a wrapper is: one field, absent if it has its default. -/
def Wrapper.content (k : Wrapper) (p : Primitive) : List UInt8 :=
  if p.isDefault then [] else record 1 k.scalar.wireType (k.scalar.content p)

/-- The message that an instant is: seconds and nanoseconds, each absent if zero. -/
def Timestamp.content (t : Timestamp) : List UInt8 :=
  (if t.seconds = 0 then [] else record 1 0 (varint t.seconds.toUInt64)) ++
  (if t.nanos = 0 then [] else record 2 0 (varint t.nanos.toInt64.toUInt64))

end Protobuf

namespace Protobuf.Codec.Schema

open Plan Wire

/-- The bytes of a scalar; a number held as text is that number. -/
def scalarContent (s : Schema) (t : Scalar) (p : Primitive) : List UInt8 :=
  match s.textWidth? t, p with
  | some width, .string text => t.content (.ofInt width (decimalValue width text))
  | some _, _ => []
  | none, p => t.content p

def packedContent (s : Schema) (kind : ValueKind) (v : Value) : List UInt8 :=
  match kind, v with
  | .scalar t, .scalar p => s.scalarContent t p
  | .enum _ e, .choice c => varint (e.number c).toInt64.toUInt64
  | _, _ => []

/-- Whether a plain field has its default: a number held as text is zero, another scalar is the
default of its type, and an enum has the value of a field that was not set. -/
def hasDefault (s : Schema) (kind : ValueKind) (v : Value) : Bool :=
  match kind, v with
  | .scalar t, .scalar p =>
    match s.textWidth? t, p with
    | some width, .string text => decimalValue width text == 0
    | _, p => p.isDefault
  | .enum _ e, .choice c => c == e.unset
  | _, _ => false

mutual

/-- The record of a value under a field number. -/
def valueRecord (s : Schema) (number : Nat) (kind : ValueKind) : Value → List UInt8
  | .scalar p =>
    match kind with
    | .scalar t => record number t.wireType (s.scalarContent t p)
    | .wrapper k => blockRecord number (k.content p)
    | _ => []
  | .choice c =>
    match kind with
    | .enum _ e => record number 0 (varint (e.number c).toInt64.toUInt64)
    | _ => []
  | .time t =>
    match kind with
    | .timestamp => blockRecord number (Timestamp.ofInstant t).content
    | _ => []
  | .message slots =>
    match kind with
    | .message ref =>
      blockRecord number (membersContent s (s.members ref.qualifiedName) slots)
    | _ => []

def valueRecords (s : Schema) (number : Nat) (kind : ValueKind) : List Value → List UInt8
  | [] => []
  | v :: vs => valueRecord s number kind v ++ valueRecords s number kind vs

/-- The records of map entries: messages with a key and a value, both always present. -/
def entryRecords (s : Schema) (number : Nat) (key value : FieldPlan) :
    List (Primitive × Value) → List UInt8
  | [] => []
  | (k, v) :: entries =>
    let keyRecord :=
      match key.kind with
      | .scalar t => record key.field.number t.wireType (s.scalarContent t k)
      | _ => []
    blockRecord number (keyRecord ++ valueRecord s value.field.number value.kind v) ++
      entryRecords s number key value entries

/-- The records of a member: none for a plain field with its default, a repeated field without
values, and an optional field or union without a value. -/
def memberContent (s : Schema) (m : Member) : Slot → List UInt8
  | .plain v =>
    match m with
    | .field p => if s.hasDefault p.kind v then [] else valueRecord s p.field.number p.kind v
    | .union _ => []
  | .optional none => []
  | .optional (some v) =>
    match m with
    | .field p => valueRecord s p.field.number p.kind v
    | .union _ => []
  | .repeated vs =>
    match m with
    | .field p =>
      if p.isPacked then
        if vs.isEmpty then [] else blockRecord p.field.number (vs.flatMap (s.packedContent p.kind))
      else valueRecords s p.field.number p.kind vs
    | .union _ => []
  | .map entries =>
    match m with
    | .field p =>
      match p.layout with
      | .map _ key value => entryRecords s p.field.number key value entries
      | _ => []
    | .union _ => []
  | .union none => []
  | .union (some (number, v)) =>
    match m.kind? number with
    | some kind => valueRecord s number kind v
    | none => []

/-- The records of the members, in the order of their declaration. -/
def membersContent (s : Schema) : List Member → List Slot → List UInt8
  | m :: members, slot :: slots => memberContent s m slot ++ membersContent s members slots
  | _, _ => []

end

/-- The textbook encoding of a message of the type with a qualified name. -/
def textbook (s : Schema) (name : String) (m : Message) : List UInt8 :=
  s.membersContent (s.members name) m

end Protobuf.Codec.Schema

/-! ## The codec gives the textbook encoding -/

namespace Protobuf

open Wire

lemma Primitive.isZero_eq_isDefault (p : Primitive) : p.isZero = p.isDefault := by
  cases p with
  | double x | float x =>
    change x.isZero = (!x.isNaN && !false && (x.bits == 0 || (x.isZero && true)))
    by_cases hx : x.isZero
    · have hm : x.magnitude = 0 := beq_iff_eq.mp hx
      have hnum : x.isNaN = false := decide_eq_false (by simp [hm])
      simp [hx, hnum]
    · have hbits : x.bits ≠ 0 := by
        obtain ⟨bits⟩ := x
        rintro rfl
        exact hx rfl
      simp [hx, hbits]
  | bool b => cases b <;> rfl
  | string text => rw [Bool.eq_iff_iff]; simp [isZero, isDefault, numericEq, default]
  | bytes bs => cases bs <;> rfl
  | _ => simp [isZero, isDefault, numericEq, default]

lemma Wire.Emits.blockRecord {f : Writer → Writer} {content : List UInt8} (number : Nat)
    (hf : Emits f content) :
    Emits (fun w => w.message (Codec.tagOf number 2) f) (blockRecord number content) := by
  have h := Emits.message (Codec.tagOf number 2) hf
  rwa [List.append_assoc] at h

lemma Wrapper.flatten_pieces (k : Wrapper) (p : Primitive) :
    Piece.flatten (k.pieces p) = k.content p := by
  have htag : UInt32.ofNat (8 + k.scalar.wireType) = Codec.tagOf 1 k.scalar.wireType := rfl
  unfold pieces content
  rw [p.isZero_eq_isDefault, htag]
  by_cases hp : p.isDefault
  · simp only [hp, if_true, Piece.flatten]
  · simp only [hp]; rfl

lemma Wrapper.emits_blockRecord (k : Wrapper) (p : Primitive) (number : Nat) :
    Emits (k.write (Codec.tagOf number 2) p) (Wire.blockRecord number (k.content p)) := by
  have h := k.emits_write p (Codec.tagOf number 2)
  simpa only [Piece.flatten, Piece.bytes, k.flatten_pieces, List.append_nil, blockRecord, record,
    delimited] using h

lemma Timestamp.flatten_pieces (t : Timestamp) : Piece.flatten t.pieces = t.content := by
  rw [pieces, content, Piece.flatten_append]
  by_cases hs : t.seconds = 0 <;> by_cases hn : t.nanos = 0
  all_goals simp [hs, hn, Piece.flatten, Piece.bytes, record, Codec.tagOf]

end Protobuf

namespace Protobuf.Codec.Schema

open Plan Wire

variable (s : Schema)

lemma flatten_scalarPieces (t : Scalar) (p : Primitive) :
    Piece.flatten (s.scalarPieces t p) = s.scalarContent t p := by
  unfold scalarPieces scalarContent
  cases s.textWidth? t with
  | none => rfl
  | some width => cases p <;> rfl

lemma flatten_barePieces (kind : ValueKind) (v : Value) :
    Piece.flatten (s.barePieces kind v) = s.packedContent kind v := by
  cases kind <;> cases v
  case scalar.scalar t p => exact s.flatten_scalarPieces t p
  case enum.choice => exact List.append_nil _
  all_goals rfl

lemma isUnset_eq_hasDefault (kind : ValueKind) (v : Value) :
    s.isUnset kind v = s.hasDefault kind v := by
  cases kind <;> cases v
  case scalar.scalar t p =>
    simp only [isUnset, hasDefault]
    cases s.textWidth? t with
    | none => exact p.isZero_eq_isDefault
    | some width =>
      cases p with
      | string text => rfl
      | _ => exact Primitive.isZero_eq_isDefault _
  all_goals rfl

lemma emits_scalar (number : Nat) (t : Scalar) (p : Primitive) :
    Emits (fun w => s.writeScalar t p (w.uint32 (tagOf number t.wireType)))
      (record number t.wireType (s.scalarContent t p)) := by
  rw [← s.flatten_scalarPieces]
  exact (Emits.append _).comp (s.emits_writeScalar t p)

lemma emits_packed (kind : ValueKind) (vs : List Value) :
    Emits (fun w => vs.foldl (fun w v => s.writeBare kind v w) w)
      (vs.flatMap (s.packedContent kind)) := by
  induction vs with
  | nil => exact Emits.id
  | cons v vs ih =>
    have hv := s.emits_writeBare kind v
    rw [s.flatten_barePieces] at hv
    exact hv.comp ih

mutual

theorem emits_valueRecord (number : Nat) (kind : ValueKind) :
    ∀ v, Emits (s.writeValue number kind v) (s.valueRecord number kind v)
  | .scalar p => by
    cases kind with
    | scalar t => exact s.emits_scalar number t p
    | wrapper k => exact k.emits_blockRecord p number
    | _ => exact Emits.id
  | .choice c => by
    cases kind with
    | enum ref e => exact (Emits.append _).comp (.append _)
    | _ => exact Emits.id
  | .time t => by
    cases kind with
    | timestamp =>
      rw [valueRecord, ← Timestamp.flatten_pieces]
      exact .blockRecord number (Timestamp.emits_encode _)
    | _ => exact Emits.id
  | .message slots => by
    cases kind with
    | message ref => exact .blockRecord number (emits_membersContent _ slots)
    | _ => exact Emits.id

theorem emits_valueRecords (number : Nat) (kind : ValueKind) :
    ∀ vs, Emits (s.writeValues number kind vs) (s.valueRecords number kind vs)
  | [] => Emits.id
  | v :: vs => (emits_valueRecord number kind v).comp (emits_valueRecords number kind vs)

theorem emits_entryRecords (number : Nat) (key value : FieldPlan) :
    ∀ entries, Emits (s.writeEntries number key value entries)
      (s.entryRecords number key value entries)
  | [] => Emits.id
  | (k, v) :: entries => by
    have hvalue := emits_valueRecord value.field.number value.kind v
    have hrest := emits_entryRecords number key value entries
    simp only [writeEntries, entryRecords]
    refine Emits.comp (.blockRecord number ?_) hrest
    cases key.kind with
    | scalar t => exact (s.emits_scalar _ t k).comp hvalue
    | _ => exact hvalue

theorem emits_memberContent (m : Member) :
    ∀ slot, Emits (s.writeSlot m slot) (s.memberContent m slot)
  | .plain v => by
    cases m with
    | field p =>
      simp only [writeSlot, memberContent, s.isUnset_eq_hasDefault]
      exact (emits_valueRecord p.field.number p.kind v).left_out
    | union u => exact Emits.id
  | .optional none => Emits.id
  | .optional (some v) => by
    cases m with
    | field p => exact emits_valueRecord p.field.number p.kind v
    | union u => exact Emits.id
  | .repeated vs => by
    cases m with
    | field p =>
      have hvs := emits_valueRecords p.field.number p.kind vs
      simp only [writeSlot, memberContent]
      split_ifs with hpacked hempty
      · exact Emits.id
      · exact .blockRecord _ (s.emits_packed p.kind vs)
      · exact hvs
    | union u => exact Emits.id
  | .map entries => by
    cases m with
    | field p =>
      simp only [writeSlot, memberContent]
      cases p.layout with
      | map entry key value => exact emits_entryRecords p.field.number key value entries
      | _ => exact Emits.id
    | union u => exact Emits.id
  | .union none => Emits.id
  | .union (some (number, v)) => by
    simp only [writeSlot, memberContent]
    cases m.kind? number with
    | some kind => exact emits_valueRecord number kind v
    | none => exact Emits.id

theorem emits_membersContent (members : List Member) :
    ∀ slots, Emits (s.writeSlots members slots) (s.membersContent members slots)
  | [] => by cases members <;> exact Emits.id
  | slot :: slots => by
    cases members with
    | nil => exact Emits.id
    | cons m members => exact (emits_memberContent m slot).comp (emits_membersContent members slots)

end

/-- The codec gives the textbook encoding of every message. In particular the content of a message
within a message is what the codec gives for that message alone. -/
theorem encode_eq_textbook (name : String) (m : Message) :
    s.encode name m = s.textbook name m ∧
      ∀ (number : Nat) (ref : Schema.TypeRef) (slots : List Slot),
        s.valueRecord number (.message ref) (.message slots) =
          blockRecord number (s.encode ref.qualifiedName slots) := by
  have hencode : ∀ name m, s.encode name m = s.textbook name m := fun name m =>
    (s.emits_membersContent (s.members name) m).finish_eq
  refine ⟨hencode name m, ?_⟩
  intro number ref slots
  rw [hencode]
  rfl

end Protobuf.Codec.Schema
