import Protobuf.Codec.Encode
import Protobuf.Proofs.Text.Numeral
import Protobuf.Proofs.Wire.Scalars

/-!
# The wire form of messages

`Fits` says which messages belong to a type, and `pieces` lays such a message out
as a tree of length-delimited blocks, without a writer. The two sides meet in
`encode_eq_flatten`: the codec writes exactly the bytes of that tree.
-/

namespace Protobuf.Schema.Enum

open Protobuf.Codec

/-- Whether a value is one of the enum: a declared number, or the value of all other numbers. -/
def has (e : Enum) : Choice → Bool
  | .declared n => e.values.any fun v => v.number == n
  | .unrecognized => true

end Protobuf.Schema.Enum

namespace Protobuf.Codec

open Plan Wire

/-! ## Messages of a type -/

namespace Schema

/-- Whether a value is one of a scalar type. A number that is held as text can be any text. -/
def holdsScalar (s : Schema) (t : Scalar) (p : Primitive) : Bool :=
  match s.textWidth? t, p with
  | some _, .string _ => true
  | some _, _ => false
  | none, p => t.holds p

/-- The value that a scalar comes back as: a number that is held as text becomes its numeral. -/
def normScalar (s : Schema) (t : Scalar) (p : Primitive) : Primitive :=
  match s.textWidth? t, p with
  | some width, .string text => .string (Text.intText (Wire.decimalValue width text))
  | _, p => p

end Schema

mutual

inductive Fits (s : Schema) : ValueKind → Value → Prop
  | scalar {t : Scalar} {p : Primitive} :
      s.holdsScalar t p = true → Fits s (.scalar t) (.scalar p)
  | choice {ref : Schema.TypeRef} {e : Schema.Enum} {c : Choice} :
      e.has c = true → Fits s (.enum ref e) (.choice c)
  | wrapper {k : Wrapper} {p : Primitive} :
      k.scalar.holds p = true → Fits s (.wrapper k) (.scalar p)
  | time (t : Time.Instant) : Fits s .timestamp (.time t)
  | message {ref : Schema.TypeRef} {slots : List Slot} :
      SlotsFit s (s.members ref.qualifiedName) slots → Fits s (.message ref) (.message slots)

/-- The slot is one of a member. The keys of a map are distinct as what they stand for. -/
inductive SlotFits (s : Schema) : Member → Slot → Prop
  | plain {p : FieldPlan} {v : Value} :
      p.layout = .plain → Fits s p.kind v → SlotFits s (.field p) (.plain v)
  | absent {p : FieldPlan} : p.layout = .optional → SlotFits s (.field p) (.optional none)
  | present {p : FieldPlan} {v : Value} :
      p.layout = .optional → Fits s p.kind v → SlotFits s (.field p) (.optional (some v))
  | repeated {p : FieldPlan} {vs : List Value} :
      p.layout = .repeated → (∀ v ∈ vs, Fits s p.kind v) → SlotFits s (.field p) (.repeated vs)
  | map {p key value : FieldPlan} {entry : Schema.TypeRef} {t : Scalar}
      {entries : List (Primitive × Value)} :
      p.layout = .map entry key value → key.kind = .scalar t →
      (∀ e ∈ entries, s.holdsScalar t e.1 = true) →
      (∀ e ∈ entries, Fits s value.kind e.2) →
      (entries.map fun e => s.normScalar t e.1).Nodup → SlotFits s (.field p) (.map entries)
  | unset (u : UnionPlan) : SlotFits s (.union u) (.union none)
  | chosen {u : UnionPlan} {number : Nat} {kind : ValueKind} {v : Value} :
      (Member.union u).kind? number = some kind → Fits s kind v →
      SlotFits s (.union u) (.union (some (number, v)))

inductive SlotsFit (s : Schema) : List Member → List Slot → Prop
  | nil : SlotsFit s [] []
  | cons {m : Member} {slot : Slot} {members : List Member} {slots : List Slot} :
      SlotFits s m slot → SlotsFit s members slots → SlotsFit s (m :: members) (slot :: slots)

end

mutual

/-- How deeply messages are nested in a value: a message, a timestamp and a map entry count one
level each, a wrapper none. -/
def Value.nesting : Value → Nat
  | .scalar _ => 0
  | .choice _ => 0
  | .time _ => 1
  | .message slots => slotsNesting slots + 1

def Slot.nesting : Slot → Nat
  | .plain v => v.nesting
  | .optional none => 0
  | .optional (some v) => v.nesting
  | .repeated vs => valuesNesting vs
  | .map entries => entriesNesting entries
  | .union none => 0
  | .union (some (_, v)) => v.nesting

def valuesNesting : List Value → Nat
  | [] => 0
  | v :: vs => max v.nesting (valuesNesting vs)

/-- How deeply messages are nested in map entries. -/
def entriesNesting : List (Primitive × Value) → Nat
  | [] => 0
  | (_, v) :: entries => max (v.nesting + 1) (entriesNesting entries)

/-- How deeply messages are nested in a message. -/
def slotsNesting : List Slot → Nat
  | [] => 0
  | slot :: slots => max slot.nesting (slotsNesting slots)

end

end Protobuf.Codec

/-! ## The tree of blocks -/

namespace Protobuf

open Wire

/-- The content of a timestamp message. -/
def Timestamp.pieces (t : Timestamp) : List Piece :=
  (if t.seconds = 0 then []
    else [.raw (varint (8 : UInt32).toUInt64), .raw (varint t.seconds.toUInt64)]) ++
  (if t.nanos = 0 then []
    else [.raw (varint (16 : UInt32).toUInt64), .raw (varint t.nanos.toInt64.toUInt64)])

def Wrapper.pieces (k : Wrapper) (p : Primitive) : List Piece :=
  if p.isZero then []
  else .raw (varint (UInt32.ofNat (8 + k.scalar.wireType)).toUInt64) :: k.scalar.pieces p

end Protobuf

namespace Protobuf.Codec

open Plan Wire

def tagPiece (number wireType : Nat) : Piece :=
  .raw (varint (tagOf number wireType).toUInt64)

namespace Schema

def scalarPieces (s : Schema) (t : Scalar) (p : Primitive) : List Piece :=
  match s.textWidth? t, p with
  | some width, .string text => t.pieces (.ofInt width (Wire.decimalValue width text))
  | some _, _ => []
  | none, p => t.pieces p

/-- A value within a packed block. -/
def barePieces (s : Schema) (kind : ValueKind) (v : Value) : List Piece :=
  match kind, v with
  | .scalar t, .scalar p => s.scalarPieces t p
  | .enum _ e, .choice c => [.raw (varint (e.number c).toInt64.toUInt64)]
  | _, _ => []

mutual

/-- A value without its tag. -/
def valuePieces (s : Schema) (kind : ValueKind) : Value → List Piece
  | .scalar p =>
    match kind with
    | .wrapper k => [.block (k.pieces p)]
    | .scalar t => s.scalarPieces t p
    | _ => []
  | .choice c =>
    match kind with
    | .enum _ e => [.raw (varint (e.number c).toInt64.toUInt64)]
    | _ => []
  | .time t => [.block (Timestamp.ofInstant t).pieces]
  | .message slots =>
    match kind with
    | .message ref => [.block (slotsPieces s (s.members ref.qualifiedName) slots)]
    | _ => []

def valuesPieces (s : Schema) (number : Nat) (kind : ValueKind) : List Value → List Piece
  | [] => []
  | v :: vs =>
    tagPiece number kind.wireType :: valuePieces s kind v ++ valuesPieces s number kind vs

/-- Map entries, each one a block of key and value after a tag. -/
def entriesPieces (s : Schema) (number : Nat) (key value : FieldPlan) :
    List (Primitive × Value) → List Piece
  | [] => []
  | (k, v) :: entries =>
    tagPiece number 2 ::
      .block (tagPiece key.field.number key.kind.wireType :: s.barePieces key.kind (.scalar k) ++
        tagPiece value.field.number value.kind.wireType :: valuePieces s value.kind v) ::
      entriesPieces s number key value entries

def slotPieces (s : Schema) (m : Member) : Slot → List Piece
  | .plain v =>
    match m with
    | .field p =>
      if s.isUnset p.kind v then []
      else tagPiece p.field.number p.kind.wireType :: valuePieces s p.kind v
    | .union _ => []
  | .optional none => []
  | .optional (some v) =>
    match m with
    | .field p => tagPiece p.field.number p.kind.wireType :: valuePieces s p.kind v
    | .union _ => []
  | .repeated vs =>
    match m with
    | .field p =>
      if p.isPacked then
        if vs.isEmpty then []
        else [tagPiece p.field.number 2, .block (vs.flatMap (s.barePieces p.kind))]
      else valuesPieces s p.field.number p.kind vs
    | .union _ => []
  | .map entries =>
    match m with
    | .field p =>
      match p.layout with
      | .map _ key value => entriesPieces s p.field.number key value entries
      | _ => []
    | .union _ => []
  | .union none => []
  | .union (some (number, v)) =>
    match m.kind? number with
    | some kind => tagPiece number kind.wireType :: valuePieces s kind v
    | none => []

def slotsPieces (s : Schema) : List Member → List Slot → List Piece
  | m :: members, slot :: slots => slotPieces s m slot ++ slotsPieces s members slots
  | _, _ => []

end

/-- The content of a map entry. -/
def entryPieces (s : Schema) (key value : FieldPlan) (k : Primitive) (v : Value) : List Piece :=
  tagPiece key.field.number key.kind.wireType :: s.barePieces key.kind (.scalar k) ++
    tagPiece value.field.number value.kind.wireType :: s.valuePieces value.kind v

lemma entriesPieces_cons (s : Schema) (number : Nat) (key value : FieldPlan) (k : Primitive)
    (v : Value) (entries : List (Primitive × Value)) :
    s.entriesPieces number key value ((k, v) :: entries) =
      [tagPiece number 2, .block (s.entryPieces key value k v)] ++
        s.entriesPieces number key value entries :=
  rfl

def pieces (s : Schema) (name : String) (m : Message) : List Piece :=
  s.slotsPieces (s.members name) m

end Schema

end Protobuf.Codec

/-! ## The codec writes the tree -/

namespace Protobuf

open Wire

lemma Timestamp.emits_encode (t : Timestamp) : Emits t.encode (Piece.flatten t.pieces) := by
  rw [pieces, Piece.flatten_append]
  exact (Emits.ite_id (.raw_cons _ (.raw _))).comp (Emits.ite_id (.raw_cons _ (.raw _)))

lemma Wrapper.emits_write (k : Wrapper) (p : Primitive) (tag : UInt32) :
    Emits (k.write tag p)
      (Piece.flatten [.raw (varint tag.toUInt64), .block (k.pieces p)]) :=
  .block tag (.ite_id (.raw_cons _ (k.scalar.emits_write p)))

lemma Scalar.toInt?_of_holds {t : Scalar} {width : Numeric.Width} {p : Primitive}
    (hwidth : t.width? = some width) (hp : t.holds p) :
    ∃ n, p.toInt? = some n ∧ width.holds n ∧ Primitive.ofInt width n = p := by
  cases p with
  | int32 n =>
    obtain rfl : width = .int32 := by cases t <;> cases hp <;> cases hwidth <;> rfl
    have hrange := And.intro n.le_toInt n.toInt_lt
    exact ⟨n.toInt, rfl, Numeric.Width.holds_iff.mpr ⟨hrange.1, by
      simp only [Numeric.Width.greatest]; omega⟩, congrArg Primitive.int32 n.ofInt_toInt⟩
  | int64 n =>
    obtain rfl : width = .int64 := by cases t <;> cases hp <;> cases hwidth <;> rfl
    have hrange := And.intro n.le_toInt n.toInt_lt
    exact ⟨n.toInt, rfl, Numeric.Width.holds_iff.mpr ⟨hrange.1, by
      simp only [Numeric.Width.greatest]; omega⟩, congrArg Primitive.int64 n.ofInt_toInt⟩
  | uint32 n =>
    obtain rfl : width = .uint32 := by cases t <;> cases hp <;> cases hwidth <;> rfl
    have hlt := n.toNat_lt
    have hmod : ((n.toNat : Int) % 4294967296).toNat = n.toNat := by omega
    refine ⟨n.toNat, rfl, Numeric.Width.holds_iff.mpr ⟨by simp [Numeric.Width.least], ?_⟩, ?_⟩
    · simp only [Numeric.Width.greatest]
      omega
    · simp [Primitive.ofInt, UInt32.ofInt, hmod]
  | uint64 n =>
    obtain rfl : width = .uint64 := by cases t <;> cases hp <;> cases hwidth <;> rfl
    have hlt := n.toNat_lt
    have hmod : ((n.toNat : Int) % 18446744073709551616).toNat = n.toNat := by omega
    refine ⟨n.toNat, rfl, Numeric.Width.holds_iff.mpr ⟨by simp [Numeric.Width.least], ?_⟩, ?_⟩
    · simp only [Numeric.Width.greatest]
      omega
    · simp [Primitive.ofInt, UInt64.ofInt, hmod]
  | _ =>
    cases t <;> cases hp
    cases hwidth

end Protobuf

namespace Protobuf.Codec.Schema

open Plan Wire

variable (s : Schema)

lemma width?_of_textWidth? {s : Schema} {t : Scalar} {width : Numeric.Width}
    (ht : s.textWidth? t = some width) : t.width? = some width := by
  unfold textWidth? at ht
  split_ifs at ht
  exact ht

lemma holds_ofInt {t : Scalar} {width : Numeric.Width} (ht : s.textWidth? t = some width)
    (n : Int) : t.holds (.ofInt width n) := by
  unfold textWidth? at ht
  split_ifs at ht
  cases t <;> cases ht <;> rfl

lemma emits_writeScalar (t : Scalar) (p : Primitive) :
    Emits (s.writeScalar t p) (Piece.flatten (s.scalarPieces t p)) := by
  unfold writeScalar scalarPieces
  cases s.textWidth? t with
  | none => exact t.emits_write p
  | some width =>
    cases p with
    | string text => exact t.emits_write _
    | _ => exact Emits.id

lemma emits_writeBare (kind : ValueKind) (v : Value) :
    Emits (s.writeBare kind v) (Piece.flatten (s.barePieces kind v)) := by
  cases kind <;> cases v
  case scalar.scalar t p => exact s.emits_writeScalar t p
  case enum.choice => exact Emits.raw _
  all_goals exact Emits.id

lemma emits_foldl_writeBare (kind : ValueKind) (vs : List Value) :
    Emits (fun w => vs.foldl (fun w v => s.writeBare kind v w) w)
      (Piece.flatten (vs.flatMap (s.barePieces kind))) := by
  induction vs with
  | nil => exact Emits.id
  | cons v vs ih =>
    rw [List.flatMap_cons, Piece.flatten_append]
    exact (s.emits_writeBare kind v).comp ih

section

variable {n : Nat}
  (ih : ∀ members slots, slotsNesting slots < n → SlotsFit s members slots →
    Emits (s.writeSlots members slots) (Piece.flatten (s.slotsPieces members slots)))

include ih

lemma emits_writeValue {kind : ValueKind} {v : Value} (hv : Fits s kind v)
    (hn : v.nesting ≤ n) (number : Nat) :
    Emits (s.writeValue number kind v)
      (Piece.flatten (tagPiece number kind.wireType :: s.valuePieces kind v)) := by
  cases hv with
  | scalar _ => exact .raw_cons _ (s.emits_writeScalar _ _)
  | choice _ => exact .raw_cons _ (.raw _)
  | wrapper _ => exact Wrapper.emits_write _ _ _
  | time t => exact .block _ (Timestamp.ofInstant t).emits_encode
  | message hslots => exact .block _ (ih _ _ hn hslots)

lemma emits_writeValues {kind : ValueKind} {vs : List Value} (hvs : ∀ v ∈ vs, Fits s kind v)
    (hn : valuesNesting vs ≤ n) (number : Nat) :
    Emits (s.writeValues number kind vs) (Piece.flatten (s.valuesPieces number kind vs)) := by
  induction vs with
  | nil => exact Emits.id
  | cons v vs ihvs =>
    simp only [valuesNesting, max_le_iff] at hn
    rw [valuesPieces, Piece.flatten_append]
    exact (s.emits_writeValue ih (hvs v (by simp)) hn.1 number).comp
      (ihvs (fun u hu => hvs u (by simp [hu])) hn.2)

lemma emits_writeEntries {key value : FieldPlan} {t : Scalar}
    {entries : List (Primitive × Value)} (hkey : key.kind = .scalar t)
    (hkeys : ∀ e ∈ entries, s.holdsScalar t e.1)
    (hvalues : ∀ e ∈ entries, Fits s value.kind e.2) (hn : entriesNesting entries ≤ n)
    (number : Nat) :
    Emits (s.writeEntries number key value entries)
      (Piece.flatten (s.entriesPieces number key value entries)) := by
  induction entries with
  | nil => exact Emits.id
  | cons e entries ihes =>
    obtain ⟨k, v⟩ := e
    simp only [entriesNesting, max_le_iff] at hn
    have hk : Emits (fun w => s.writeScalar t k (w.uint32 (tagOf key.field.number t.wireType)))
        (Piece.flatten (tagPiece key.field.number t.wireType :: s.scalarPieces t k)) :=
      .raw_cons _ (s.emits_writeScalar t k)
    have hv := s.emits_writeValue ih (hvalues (k, v) (by simp)) (Nat.le_of_succ_le hn.1)
      value.field.number
    have hrest := ihes (fun e he => hkeys e (by simp [he])) (fun e he => hvalues e (by simp [he]))
      hn.2
    have hentry := hk.comp hv
    rw [← Piece.flatten_append] at hentry
    have h := (Emits.block (tagOf number 2) hentry).comp hrest
    rw [← Piece.flatten_append] at h
    simp only [entriesPieces, writeEntries, hkey]
    exact h

lemma emits_writeSlot {m : Member} {slot : Slot} (hslot : SlotFits s m slot)
    (hn : slot.nesting ≤ n) :
    Emits (s.writeSlot m slot) (Piece.flatten (s.slotPieces m slot)) := by
  cases hslot with
  | plain _ hv => exact .ite_id (s.emits_writeValue ih hv hn _)
  | absent _ => exact Emits.id
  | present _ hv => exact s.emits_writeValue ih hv hn _
  | @repeated p vs hlayout hvs =>
    simp only [slotPieces, writeSlot]
    split_ifs
    · exact Emits.id
    · exact .block _ (s.emits_foldl_writeBare p.kind vs)
    · exact s.emits_writeValues ih hvs hn _
  | map hlayout hkey hkeys hvalues _ =>
    simp only [slotPieces, writeSlot, hlayout]
    exact s.emits_writeEntries ih hkey hkeys hvalues hn _
  | unset u => exact Emits.id
  | chosen hkind hv =>
    simp only [slotPieces, writeSlot, hkind]
    exact s.emits_writeValue ih hv hn _

lemma emits_writeSlots_of_nesting_le {members : List Member} {slots : List Slot}
    (h : SlotsFit s members slots) (hn : slotsNesting slots ≤ n) :
    Emits (s.writeSlots members slots) (Piece.flatten (s.slotsPieces members slots)) := by
  induction members generalizing slots with
  | nil =>
    cases h
    exact Emits.id
  | cons m members ihms =>
    cases h with
    | cons hslot hslots =>
      simp only [slotsNesting, max_le_iff] at hn
      rw [slotsPieces, Piece.flatten_append]
      exact (s.emits_writeSlot ih hslot hn.1).comp (ihms hslots hn.2)

end

lemma emits_writeSlots {members : List Member} {slots : List Slot}
    (h : SlotsFit s members slots) :
    Emits (s.writeSlots members slots) (Piece.flatten (s.slotsPieces members slots)) := by
  -- A message is written with all messages that are nested less deeply at hand.
  induction hn : slotsNesting slots using Nat.strong_induction_on generalizing members slots with
  | _ n ih =>
    refine s.emits_writeSlots_of_nesting_le (n := n) ?_ h hn.le
    intro members slots hlt hfit
    exact ih _ hlt hfit rfl

lemma encode_eq_flatten {name : String} {m : Message} (h : SlotsFit s (s.members name) m) :
    s.encode name m = Piece.flatten (s.pieces name m) :=
  (s.emits_writeSlots h).finish_eq

end Protobuf.Codec.Schema
