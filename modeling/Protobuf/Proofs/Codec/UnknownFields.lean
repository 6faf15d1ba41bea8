import Protobuf.Proofs.Codec.FrameIsolation

/-!
# Unknown fields

A decoder passes over records whose field number its message does not declare, so
a message can be read by a program that knows fewer of its fields. Records of
this kind can be put anywhere between the records of a message, and of messages
within it, without a change of the result.

Where a record ends is a matter of the declared type of its field: a decoder
looks at the wire type of a known field only to tell a packed block from a single
value. `Container.form` says so, and records that carry the wire type of their
field end where their wire type says.
-/

open List Protobuf.Wire.Reader Protobuf.Wire.Read

namespace Protobuf.Plan

open Protobuf.Codec

/-- The first member that has a field number, and the kind of value under that number. -/
def field? (members : List Member) (number : Nat) : Option (Member × ValueKind) :=
  members.findSome? fun m => (m.kind? number).map (m, ·)

end Protobuf.Plan

namespace Protobuf.Codec

open Plan Wire

/-! ## Where records stand, and where they end -/

/-- What consists of records. -/
inductive Container where
  /-- A message of the type with a qualified name. -/
  | message (name : String)
  | wrapper (k : Wrapper)
  | timestamp

/-- What a value consists of, if it consists of records. -/
def container? : ValueKind → Option Container
  | .message ref => some (.message ref.qualifiedName)
  | .wrapper k => some (.wrapper k)
  | .timestamp => some .timestamp
  | _ => none

/-- What a record of a member holds, if it holds records. The entries of a map are messages. -/
def memberContainer? (m : Member) (kind : ValueKind) : Option Container :=
  match m with
  | .field p =>
    match p.layout with
    | .map entry _ _ => some (.message entry.qualifiedName)
    | _ => container? kind
  | .union _ => container? kind

/-- The wire type by which a record of a member is read, if it carries the given one. -/
def memberForm (m : Member) (kind : ValueKind) (wireType : Nat) : Nat :=
  match m with
  | .field p =>
    match p.layout with
    | .map .. => 2
    | _ => if p.isPacked && wireType == 2 then 2 else kind.wireType
  | .union _ => kind.wireType

namespace Container

/-- How much deeper the reader counts itself within. -/
def levels : Container → Nat
  | wrapper _ => 0
  | _ => 1

def declares (s : Schema) : Container → Nat → Bool
  | message name, number => (field? (s.members name) number).isSome
  | wrapper _, number => number == 1
  | timestamp, number => number == 1 || number == 2

/-- The wire type by which a record is read, if it carries the given one. -/
def form (s : Schema) (c : Container) (number wireType : Nat) : Nat :=
  match c with
  | message name =>
    match field? (s.members name) number with
    | some (m, kind) => memberForm m kind wireType
    | none => wireType
  | wrapper k => if number = 1 then k.scalar.wireType else wireType
  | timestamp => if number = 1 ∨ number = 2 then 0 else wireType

/-- What a record holds, if it holds records. -/
def inner? (s : Schema) (c : Container) (number : Nat) : Option Container :=
  match c with
  | message name => (field? (s.members name) number).bind fun (m, kind) => memberContainer? m kind
  | _ => none

end Container

/-- The second bytes are those of the first ones with records of undeclared fields added, at any
place between the records and within them. -/
inductive Padded (s : Schema) : Container → (depth : Nat) → List UInt8 → List UInt8 → Prop
  | done {c : Container} {depth : Nat} : Padded s c depth [] []
  /-- A record of an undeclared field is added. -/
  | added {c : Container} {depth tag levels : Nat} {head value bytes bytes' : List UInt8} :
      IsNumber tag head → c.declares s (tag / 8) = false → IsValue (tag % 8) levels value →
      depth + levels ≤ recursionLimit → Padded s c depth bytes bytes' →
      Padded s c depth bytes (head ++ value ++ bytes')
  /-- A record stays as it is. -/
  | kept {c : Container} {depth tag levels : Nat} {head value bytes bytes' : List UInt8} :
      IsNumber tag head → IsValue (c.form s (tag / 8) (tag % 8)) levels value →
      Padded s c depth bytes bytes' →
      Padded s c depth (head ++ value ++ bytes) (head ++ value ++ bytes')
  /-- Records are added within a record, and its length is adjusted. -/
  | within {c inner : Container} {depth tag : Nat}
      {head length length' body body' bytes bytes' : List UInt8} :
      IsNumber tag head → c.inner? s (tag / 8) = some inner → IsNumber body.length length →
      IsNumber body'.length length' → Padded s inner (depth + inner.levels) body body' →
      Padded s c depth bytes bytes' →
      Padded s c depth (head ++ (length ++ body) ++ bytes) (head ++ (length' ++ body') ++ bytes')

/-! ## Reading records of any container -/

namespace Container

/-- What is known of a container while it is read. -/
abbrev State : Container → Type
  | message _ => Message
  | wrapper _ => Primitive
  | timestamp => Timestamp

/-- What is known before the first record. -/
def start (s : Schema) : (c : Container) → c.State
  | message name => s.zero name
  | wrapper k => k.scalar.zero
  | timestamp => Timestamp.zero

/-- Read a record, with messages nested at most `levels` deep in it. -/
def field (s : Schema) (levels : Nat) :
    (c : Container) → (number wireType : Nat) → c.State → Read c.State
  | message name => fun number wireType slots =>
    s.readRecord (s.readWithin levels) number wireType (s.members name) slots
  | wrapper k => k.field
  | timestamp => Timestamp.field

def read (s : Schema) (levels : Nat) : (c : Container) → Read c.State
  | message name => Reader.message (s.readWithin levels name)
  | wrapper k => k.read
  | timestamp => Reader.message Timestamp.decode

lemma field_determined (s : Schema) (levels : Nat) (c : Container) (number wireType : Nat)
    (st : c.State) : Determined (c.field s levels number wireType st) := by
  cases c with
  | message name =>
    exact s.readRecord_determined (s.readWithin_determined levels) number wireType _ st
  | wrapper k => exact k.field_determined number wireType st
  | timestamp => exact Timestamp.field_determined number wireType st

lemma read_determined (s : Schema) (budget : Nat) (c : Container) :
    Determined (c.read s budget) := by
  cases c with
  | message name => exact message_determined (s.readWithin_determined budget name)
  | wrapper k => exact k.read_determined
  | timestamp => exact message_determined Timestamp.decode_determined

end Container

/-! ## Slots of the right shape

A record of a repeated field or a map is read only into a slot of that shape. Messages start with
such slots, and every record keeps them. -/

inductive Shaped : Member → Slot → Prop
  | plain {p : FieldPlan} (slot : Slot) : p.layout = .plain → Shaped (.field p) slot
  | optional {p : FieldPlan} (slot : Slot) : p.layout = .optional → Shaped (.field p) slot
  | repeated {p : FieldPlan} (vs : List Value) :
      p.layout = .repeated → Shaped (.field p) (.repeated vs)
  | map {p key value : FieldPlan} {entry : Schema.TypeRef} (entries : List (Primitive × Value)) :
      p.layout = .map entry key value → Shaped (.field p) (.map entries)
  | union (u : UnionPlan) (slot : Slot) : Shaped (.union u) slot

namespace Schema

variable (s : Schema) (inner : MessageReader)

lemma shaped_zeroSlot (m : Member) : Shaped m (s.zeroSlot m) := by
  cases m with
  | union u => exact .union u _
  | field p =>
    simp only [zeroSlot]
    cases hlayout : p.layout with
    | plain => exact .plain _ hlayout
    | optional => exact .optional _ hlayout
    | repeated => exact .repeated [] hlayout
    | map entry key value => exact .map [] hlayout

lemma shaped_zero (name : String) : List.Forall₂ Shaped (s.members name) (s.zero name) := by
  rw [zero, forall₂_map_right_iff]
  exact forall₂_same.mpr fun m _ => s.shaped_zeroSlot m

variable {number : Nat}

/-- A record of a declared field is read into the slot of its member; the other slots stay. -/
lemma readRecord_focus {members : List Member} {slots : List Slot} {m : Member} {kind : ValueKind}
    (hslots : List.Forall₂ Shaped members slots) (hfield : field? members number = some (m, kind))
    (wireType : Nat) :
    m.kind? number = some kind ∧ ∃ (slot : Slot) (put : Slot → List Slot), Shaped m slot ∧
      s.readRecord inner number wireType members slots =
        (do return put (← s.readMember inner number wireType kind m slot)) ∧
      ∀ slot', Shaped m slot' → List.Forall₂ Shaped members (put slot') := by
  induction hslots with
  | nil => simp [field?] at hfield
  | @cons m₀ slot₀ members slots hslot hslots ih =>
    unfold readRecord
    cases hkind : m₀.kind? number with
    | some kind₀ =>
      simp only [field?, findSome?_cons, hkind, Option.map_some, Option.some.injEq,
        Prod.mk.injEq] at hfield
      obtain ⟨rfl, rfl⟩ := hfield
      exact ⟨hkind, slot₀, (· :: slots), hslot, rfl, fun slot' h => .cons h hslots⟩
    | none =>
      simp only [field?, findSome?_cons, hkind, Option.map_none] at hfield
      obtain ⟨hm, slot, put, hshaped, hread, hput⟩ := ih hfield
      refine ⟨hm, slot, (slot₀ :: put ·), hshaped, ?_, fun slot' h => .cons hslot (hput slot' h)⟩
      simp only [hread, bind_assoc, pure_bind]

lemma readRecord_undeclared {members : List Member} (hfield : field? members number = none)
    (wireType : Nat) (slots : List Slot) :
    s.readRecord inner number wireType members slots =
      (do Reader.skipValue wireType; return slots) := by
  induction members generalizing slots with
  | nil => rfl
  | cons m members ih =>
    cases slots with
    | nil => rfl
    | cons slot slots =>
      cases hkind : m.kind? number with
      | some kind => simp [field?, hkind] at hfield
      | none =>
        simp only [field?, findSome?_cons, hkind, Option.map_none] at hfield
        simp only [readRecord, hkind, ih hfield, bind_assoc, pure_bind]

variable {inner} in
lemma shaped_of_readMember {wireType : Nat} {kind : ValueKind} {m : Member} {slot slot' : Slot}
    {r r' : Reader} (hslot : Shaped m slot)
    (h : s.readMember inner number wireType kind m slot r = .ok slot' r') : Shaped m slot' := by
  cases hslot with
  | plain _ hlayout => exact .plain _ hlayout
  | optional _ hlayout => exact .optional _ hlayout
  | repeated vs hlayout =>
    simp only [readMember, hlayout] at h
    split_ifs at h
    all_goals
      obtain ⟨a, r₁, -, h⟩ := bind_eq_ok.mp h
      cases h
      exact .repeated _ hlayout
  | @map p key value entry entries hlayout =>
    simp only [readMember, hlayout] at h
    obtain ⟨e, r₁, -, h⟩ := bind_eq_ok.mp h
    cases hentry : entryOf? (s.missingValue value.kind) e with
    | none =>
      rw [hentry] at h
      cases h
      exact .map _ hlayout
    | some kv =>
      rw [hentry] at h
      cases h
      exact .map _ hlayout
  | union u _ => exact .union u _

/-! ## Records end where their form says -/

lemma ends_readScalar (t : Scalar) : Ends (s.readScalar t) t.wireType := by
  refine t.ends_read.bind_stays ?_
  intro p q r r' h
  cases htext : s.textWidth? t <;> cases hint : p.toInt? <;> rw [htext, hint] at h <;> cases h <;>
    rfl

lemma advances_readWithin (levels : Nat) (name : String) (n : Nat) :
    Reader.Advances (s.readWithin levels name (some n)) n := by
  cases levels with
  | zero =>
    intro pos depth rest m r h
    cases h
  | succ levels =>
    exact advances_frame (fun number wireType => s.readRecord_determined
      (s.readWithin_determined levels) number wireType (s.members name)) n (s.zero name)

section

variable (levels : Nat)

lemma ends_read (c : Container) : Ends (c.read s levels) 2 := by
  cases c with
  | message name => exact ends_message (s.advances_readWithin levels name)
  | wrapper k =>
    exact ends_block fun n => advances_frame k.field_determined n.toNat _
  | timestamp =>
    exact ends_message fun n =>
      advances_frame Timestamp.field_determined n Timestamp.zero

lemma ends_readValue (kind : ValueKind) :
    Ends (s.readValue (s.readWithin levels) kind) kind.wireType := by
  cases kind with
  | scalar t => exact (s.ends_readScalar t).map _
  | enum ref e => exact (ends_varint.map _).map _
  | wrapper k => exact (s.ends_read levels (.wrapper k)).map _
  | timestamp => exact (s.ends_read levels .timestamp).map _
  | message ref => exact (s.ends_read levels (.message ref.qualifiedName)).map _

lemma ends_readPacked (kind : ValueKind) : Ends (s.readPacked (s.readWithin levels) kind) 2 := by
  unfold readPacked packedEnd
  rw [bind_assoc]
  refine ends_block fun n => ?_
  intro pos depth rest vs r h
  obtain ⟨stop, r₁, hend, h⟩ := bind_eq_ok.mp h
  obtain ⟨rfl, rfl⟩ := frameEnd_eq_ok hend
  rw [bind_ok (get_ok _)] at h
  obtain ⟨us, r₂, hitems, h⟩ := bind_eq_ok.mp h
  obtain ⟨bytes, left, us, rfl, rfl, rfl, -⟩ := itemsRead_of_itemsUntil
    (s.readValue_determined (s.readWithin_determined levels) kind)
    (s.not_readValue_nil _ kind) hitems
  obtain ⟨⟨⟩, r₃, hfinish, h⟩ := bind_eq_ok.mp h
  obtain ⟨hpos, rfl⟩ := finishFrame_eq_ok hfinish
  cases h
  have hlength : bytes.length = n.toNat := Nat.add_left_cancel hpos
  rw [← hlength, drop_left]

lemma ends_readMember {number wireType : Nat} {kind : ValueKind} {m : Member} {slot : Slot}
    (hslot : Shaped m slot) :
    Ends (s.readMember (s.readWithin levels) number wireType kind m slot)
      (memberForm m kind wireType) := by
  have hvalue := s.ends_readValue levels kind
  cases hslot with
  | plain _ hlayout =>
    simp only [readMember, memberForm, hlayout, FieldPlan.isPacked, Bool.false_and]
    exact hvalue.map _
  | optional _ hlayout =>
    simp only [readMember, memberForm, hlayout, FieldPlan.isPacked, Bool.false_and]
    exact hvalue.map _
  | repeated vs hlayout =>
    simp only [readMember, memberForm, hlayout]
    split_ifs
    · exact (s.ends_readPacked levels kind).map _
    · exact hvalue.map _
  | @map p key value entry entries hlayout =>
    simp only [readMember, memberForm, hlayout]
    refine (s.ends_read levels (.message _)).bind_stays ?_
    intro e slot r r' h
    cases hentry : entryOf? (s.missingValue value.kind) e <;> rw [hentry] at h <;> cases h <;> rfl
  | union u _ => exact hvalue.map _

end

end Schema

/-! ## Records that hold records -/

/-- A map entry that was read as a message is put among the entries. -/
private def putMessage (missing : Value) (entries : List (Primitive × Value)) (m : Message) :
    Slot :=
  match entryOf? missing m with
  | some (k, v) => .map (putEntry k v entries)
  | none => .map entries

lemma isPackable_eq_false {kind : ValueKind} {inner : Container}
    (hinner : container? kind = some inner) : kind.isPackable = false := by
  cases kind with
  | scalar t | enum ref e => cases hinner
  | _ => rfl

namespace Schema

variable (s : Schema) (budget : Nat)

lemma readValue_inner {kind : ValueKind} {inner : Container}
    (hinner : container? kind = some inner) :
    ∃ put : inner.State → Value, s.readValue (s.readWithin budget) kind =
      (do return put (← inner.read s budget)) := by
  cases kind with
  | scalar t | enum ref e => cases hinner
  | wrapper k => cases hinner; exact ⟨.scalar, rfl⟩
  | timestamp => cases hinner; exact ⟨fun t => .time t.toInstant, rfl⟩
  | message ref => cases hinner; exact ⟨.message, rfl⟩

lemma readMember_inner {number : Nat} (wireType : Nat) {kind : ValueKind} {m : Member}
    {slot : Slot} {inner : Container} (hslot : Shaped m slot) (hkind : m.kind? number = some kind)
    (hinner : memberContainer? m kind = some inner) :
    ∃ put : inner.State → Slot,
      s.readMember (s.readWithin budget) number wireType kind m slot =
        (do return put (← inner.read s budget)) := by
  cases hslot with
  | plain _ hlayout =>
    simp only [memberContainer?, hlayout] at hinner
    obtain ⟨put, hread⟩ := s.readValue_inner budget hinner
    refine ⟨fun a => .plain (put a), ?_⟩
    simp only [readMember, hlayout, hread, bind_assoc, pure_bind]
  | optional _ hlayout =>
    simp only [memberContainer?, hlayout] at hinner
    obtain ⟨put, hread⟩ := s.readValue_inner budget hinner
    refine ⟨fun a => .optional (some (put a)), ?_⟩
    simp only [readMember, hlayout, hread, bind_assoc, pure_bind]
  | @repeated p vs hlayout =>
    simp only [memberContainer?, hlayout] at hinner
    obtain ⟨put, hread⟩ := s.readValue_inner budget hinner
    have hp : p.kind = kind := by
      simp only [Member.kind?] at hkind
      split_ifs at hkind
      exact Option.some.inj hkind
    have hpacked : p.isPacked = false := by
      simp only [FieldPlan.isPacked, hlayout, hp, isPackable_eq_false hinner]
    refine ⟨fun a => .repeated (vs ++ [put a]), ?_⟩
    simp [readMember, hlayout, hpacked, hread]
  | @map p key value entry entries hlayout =>
    simp only [memberContainer?, hlayout] at hinner
    cases hinner
    refine ⟨putMessage (s.missingValue value.kind) entries, ?_⟩
    simp only [readMember, hlayout, Container.read]
    congr 1
    funext m
    unfold putMessage
    cases entryOf? (s.missingValue value.kind) m <;> rfl
  | union u _ =>
    obtain ⟨put, hread⟩ := s.readValue_inner budget hinner
    refine ⟨fun a => .union (some (number, put a)), ?_⟩
    simp only [readMember, hread, bind_assoc, pure_bind]

end Schema

end Protobuf.Codec

namespace Protobuf

open Wire

lemma Timestamp.field_undeclared {number : Nat} (hone : number ≠ 1) (htwo : number ≠ 2)
    (wireType : Nat) (t : Timestamp) :
    field number wireType t = (do Reader.skipValue wireType; return t) := by
  unfold field
  split
  · exact absurd rfl hone
  · exact absurd rfl htwo
  · rfl

end Protobuf

/-! ## One record of any container -/

namespace Protobuf.Codec

open Plan Wire

namespace Container

variable {s : Schema} {budget number wireType depth : Nat}

/-- What is known has the shape that records are read into. -/
def Good (s : Schema) : (c : Container) → c.State → Prop
  | message name => List.Forall₂ Shaped (s.members name)
  | wrapper _ => fun _ => True
  | timestamp => fun _ => True

lemma good_start (c : Container) : c.Good s (c.start s) := by
  cases c with
  | message name => exact s.shaped_zero name
  | wrapper k | timestamp => trivial

variable {c : Container} {st : c.State}

lemma good_of_field {st' : c.State} {r r' : Reader} (hst : c.Good s st)
    (h : c.field s budget number wireType st r = .ok st' r') : c.Good s st' := by
  cases c with
  | wrapper k | timestamp => trivial
  | message name =>
    simp only [field] at h
    cases hfield : field? (s.members name) number with
    | none =>
      rw [s.readRecord_undeclared _ hfield] at h
      obtain ⟨⟨⟩, r₁, -, h⟩ := bind_eq_ok.mp h
      cases h
      exact hst
    | some found =>
      obtain ⟨-, slot, put, hslot, hread, hput⟩ :=
        s.readRecord_focus (s.readWithin budget) hst hfield wireType
      rw [hread] at h
      obtain ⟨slot', r₁, hmember, h⟩ := bind_eq_ok.mp h
      cases h
      exact hput slot' (s.shaped_of_readMember hslot hmember)

lemma ends_field (hst : c.Good s st) :
    Ends (c.field s budget number wireType st) (c.form s number wireType) := by
  cases c with
  | message name =>
    simp only [field, form]
    cases hfield : field? (s.members name) number with
    | none =>
      rw [s.readRecord_undeclared _ hfield]
      exact (ends_skipValue wireType).map _
    | some found =>
      obtain ⟨-, slot, put, hslot, hread, -⟩ :=
        s.readRecord_focus (s.readWithin budget) hst hfield wireType
      rw [hread]
      exact (s.ends_readMember budget hslot).map _
  | wrapper k =>
    simp only [field, form, Wrapper.field]
    by_cases hnumber : number = 1
    · simpa only [hnumber, if_true] using k.scalar.ends_read
    · simpa only [hnumber, if_false] using (ends_skipValue wireType).map fun _ => st
  | timestamp =>
    simp only [field, form]
    by_cases hone : number = 1
    · subst hone
      exact (ends_varint.map _).map _
    · by_cases htwo : number = 2
      · subst htwo
        exact (ends_varint.map _).map _
      · simp only [hone, htwo, or_self, if_false, Timestamp.field_undeclared hone htwo]
        exact (ends_skipValue wireType).map _

/-- A record of an undeclared field leaves everything as it is. -/
lemma reads_undeclared (budget : Nat) {levels : Nat} {value : List UInt8}
    (hnumber : c.declares s number = false) (hvalue : IsValue wireType levels value)
    (hdepth : depth + levels ≤ recursionLimit) (st : c.State) :
    Reads (c.field s budget number wireType st) depth value st := by
  have hskip := (reads_skipValue hvalue hdepth).map fun _ => st
  cases c with
  | message name =>
    have hfield : field? (s.members name) number = none := by
      simpa only [declares, Option.isSome_eq_false_iff, Option.isNone_iff_eq_none] using hnumber
    simpa only [field, s.readRecord_undeclared _ hfield] using hskip
  | wrapper k =>
    have hne : number ≠ 1 := by simpa [declares] using hnumber
    simpa only [field, Wrapper.field, hne, if_false] using hskip
  | timestamp =>
    have hne : number ≠ 1 ∧ number ≠ 2 := by simpa [declares] using hnumber
    simpa only [field, Timestamp.field_undeclared hne.1 hne.2] using hskip

/-- A record that holds records is their container, which is read first and then put in place. -/
lemma field_inner (budget wireType : Nat) {inner : Container} (hst : c.Good s st)
    (hinner : c.inner? s number = some inner) :
    ∃ put : inner.State → c.State,
      c.field s budget number wireType st = (do return put (← inner.read s budget)) := by
  cases c with
  | wrapper k | timestamp => cases hinner
  | message name =>
    cases hfield : field? (s.members name) number with
    | none => simp [inner?, hfield] at hinner
    | some found =>
      obtain ⟨m, kind⟩ := found
      have hmember : memberContainer? m kind = some inner := by
        simpa only [inner?, hfield, Option.bind_some] using hinner
      obtain ⟨hkind, slot, put, hslot, hread, -⟩ :=
        s.readRecord_focus (s.readWithin budget) hst hfield wireType
      obtain ⟨put', hread'⟩ := s.readMember_inner budget wireType hslot hkind hmember
      refine ⟨fun a => put (put' a), ?_⟩
      simp only [field, hread, hread', bind_assoc, pure_bind]

/-- A container after its length is read exactly if it consists of records. -/
lemma recordsRead_of_read {length body : List UInt8} {a : c.State}
    (hlength : IsNumber body.length length) (h : Reads (c.read s budget) depth (length ++ body) a) :
    ∃ budget', RecordsRead (c.field s budget') (depth + c.levels) body (c.start s) a ∧
      ∀ {length' body' : List UInt8}, IsNumber body'.length length' →
        RecordsRead (c.field s budget') (depth + c.levels) body' (c.start s) a →
        Reads (c.read s budget) depth (length' ++ body') a := by
  cases c with
  | message name =>
    cases budget with
    | zero =>
      have hread := h 0 []
      rw [read, Reader.message, append_assoc,
        bind_ok (reads_of_isNumber hlength depth _ _)] at hread
      obtain ⟨⟨⟩, r, -, hread⟩ := bind_eq_ok.mp hread
      cases hread
    | succ budget =>
      have hfield := field_determined s budget (message name)
      obtain ⟨hdepth, hbody⟩ := (reads_message_iff hfield hlength (fun _ => rfl)).mp h
      refine ⟨budget, hbody, ?_⟩
      intro length' body' hlength' hbody'
      exact (reads_message_iff hfield hlength' (fun _ => rfl)).mpr ⟨hdepth, hbody'⟩
  | wrapper k =>
    refine ⟨budget, (reads_lengthFrame_iff k.field_determined hlength).mp h, ?_⟩
    intro length' body' hlength' hbody'
    exact (reads_lengthFrame_iff k.field_determined hlength').mpr hbody'
  | timestamp =>
    have hfield := Timestamp.field_determined
    obtain ⟨hdepth, hbody⟩ := (reads_message_iff hfield hlength (fun _ => rfl)).mp h
    refine ⟨budget, hbody, ?_⟩
    intro length' body' hlength' hbody'
    exact (reads_message_iff hfield hlength' (fun _ => rfl)).mpr ⟨hdepth, hbody'⟩

end Container

/-! ## All records -/

namespace Padded

variable {s : Schema}

/-- The records with others added lead to the same result. -/
lemma recordsRead {c : Container} {depth : Nat} {bytes bytes' : List UInt8}
    (h : Padded s c depth bytes bytes') {budget : Nat} {st st' : c.State} (hst : c.Good s st)
    (hread : RecordsRead (c.field s budget) depth bytes st st') :
    RecordsRead (c.field s budget) depth bytes' st st' := by
  induction h generalizing budget with
  | done => exact hread
  | @added c depth tag levels head value bytes bytes' hhead hnumber hvalue hdepth _ ih =>
    have htag := reads_of_isNumber hhead depth
    have hbody := Container.reads_undeclared budget hnumber hvalue hdepth st
    rw [← hhead.toNat] at hbody
    exact .record htag hbody (ih hst hread)
  | @kept c depth tag levels head value bytes bytes' hhead hvalue _ ih =>
    have htag := reads_of_isNumber hhead depth
    rw [append_assoc] at hread
    obtain ⟨body, rest, t, hrest, hbody, htail⟩ := hread.uncons htag
    have ht := Container.good_of_field hst (hbody 0 [])
    rw [← hhead.toNat] at hvalue
    obtain ⟨rfl, rfl⟩ := (Container.ends_field hst).eq_of_reads hvalue hbody hrest
    exact .record htag hbody (ih ht htail)
  | @within c inner depth tag head length length' body body' bytes bytes' hhead hinner hlength
      hlength' _ _ ihbody ih =>
    have htag := reads_of_isNumber hhead depth
    rw [append_assoc] at hread
    obtain ⟨taken, rest, t, hrest, hbody, htail⟩ := hread.uncons htag
    have ht := Container.good_of_field hst (hbody 0 [])
    rw [← hhead.toNat] at hinner
    -- the record is a container that is read to its end, and the rest is put in place
    obtain ⟨put, hput⟩ := Container.field_inner budget ((UInt32.ofNat tag).toNat % 8) hst hinner
    rw [hput] at hbody
    have hvalue : IsValue 2 0 (length ++ body) := .plain (.block hlength)
    have hends := (s.ends_read budget inner).map put
    obtain ⟨rfl, rfl⟩ := hends.eq_of_reads hvalue hbody hrest
    obtain ⟨a, ha, rfl⟩ := (inner.read_determined s budget).exists_of_reads_map hbody
    obtain ⟨budget', hrecords, hback⟩ := Container.recordsRead_of_read hlength ha
    have hbody' := (hback hlength' (ihbody inner.good_start hrecords)).map put
    rw [← hput] at hbody'
    exact .record htag hbody' (ih ht htail)

end Padded

namespace Schema

lemma decode_eq_ok_iff (s : Schema) {name : String} {bytes : List UInt8} {m : Message} :
    s.decode name bytes = .ok m ↔
      RecordsRead ((Container.message name).field s recursionLimit) 0 bytes (s.zero name) m := by
  have hfield := Container.field_determined s recursionLimit (.message name)
  have hread : s.read name none (ofBytes bytes) =
      frame ((Container.message name).field s recursionLimit) (some bytes.length)
        (s.zero name) ⟨0, bytes ++ [], 0⟩ := by
    rw [append_nil]
    exact frame_none ..
  rw [decode, hread]
  constructor
  · intro h
    split at h
    · rename_i m' r hframe
      cases h
      exact recordsRead_of_frame_length hfield hframe
    · cases h
  · intro h
    rw [reads_frame h 0 []]

/-- Records of undeclared fields change nothing, wherever they are added. -/
theorem decode_padded {s : Schema} {name : String} {bytes bytes' : List UInt8} {m : Message}
    (h : Padded s (.message name) 0 bytes bytes') (hm : s.decode name bytes = .ok m) :
    s.decode name bytes' = .ok m := by
  rw [decode_eq_ok_iff] at hm ⊢
  exact h.recordsRead (Container.good_start _) hm

private def listField (number : Nat) (kind : ValueKind) (layout : Layout FieldPlan) : Member :=
  .field ⟨⟨"f", number, .scalar .int32, .optional, none, none, false, []⟩, ⟨false, "f"⟩, "f", kind,
    layout, false, false⟩

/-- A number, a text and the next element of the list. -/
private def listSchema : Schema :=
  ⟨.standard, fun _ => [listField 1 (.scalar .int32) .plain, listField 2 (.scalar .string) .plain,
    listField 3 (.message ⟨[], "a", "List", ".a.List"⟩) .optional]⟩

private def fiveOne : Message :=
  [.plain (.scalar (.int32 5)), .plain (.scalar (.string "")),
    .optional (some (.message [.plain (.scalar (.int32 1)), .plain (.scalar (.string "")),
      .optional none]))]

/-- A group before the first record, and a number within the next element of the list. -/
theorem decode_padded_list :
    Padded listSchema (.message ".a.List") 0 [8, 5, 26, 2, 8, 1]
        [75, 72, 1, 76, 8, 5, 26, 4, 8, 1, 72, 1] ∧
      listSchema.decode ".a.List" [8, 5, 26, 2, 8, 1] = .ok fiveOne ∧
      listSchema.decode ".a.List" [75, 72, 1, 76, 8, 5, 26, 4, 8, 1, 72, 1] = .ok fiveOne := by
  have hbyte (b : UInt8) (hb : b.toNat < 128) : IsPlain 0 [b] :=
    .varint (isNumber_singleton hb).1
  have hgroup : IsGroup 0 [72, 1, 76] :=
    .plain (isNumber_singleton (b := 72) (by decide)) (hbyte 1 (by decide))
      (.stop (isNumber_singleton (b := 76) (by decide)) (by decide))
  have hlast : Padded listSchema (.message ".a.List") 1 [] ([72] ++ [1] ++ []) :=
    .added (isNumber_singleton (b := 72) (by decide)) rfl (.plain (hbyte 1 (by decide)))
      (show 1 + 0 ≤ recursionLimit by decide) .done
  have hbody : Padded listSchema (.message ".a.List") 1 ([8] ++ [1] ++ [])
      ([8] ++ [1] ++ [72, 1]) :=
    .kept (isNumber_singleton (b := 8) (by decide))
      (show IsValue 0 0 [1] from .plain (hbyte 1 (by decide))) hlast
  have hnext : Padded listSchema (.message ".a.List") 0 ([26] ++ ([2] ++ [8, 1]) ++ [])
      ([26] ++ ([4] ++ [8, 1, 72, 1]) ++ []) :=
    .within (isNumber_singleton (b := 26) (by decide)) rfl (isNumber_singleton (b := 2) (by decide))
      (isNumber_singleton (b := 4) (by decide)) hbody .done
  have hfirst : Padded listSchema (.message ".a.List") 0 ([8] ++ [5] ++ [26, 2, 8, 1])
      ([8] ++ [5] ++ [26, 4, 8, 1, 72, 1]) :=
    .kept (isNumber_singleton (b := 8) (by decide))
      (show IsValue 0 0 [5] from .plain (hbyte 5 (by decide))) hnext
  have hpadded : Padded listSchema (.message ".a.List") 0 [8, 5, 26, 2, 8, 1]
      ([75] ++ [72, 1, 76] ++ [8, 5, 26, 4, 8, 1, 72, 1]) :=
    .added (isNumber_singleton (b := 75) (by decide)) rfl (.group hgroup) (by decide) hfirst
  have hplain : listSchema.decode ".a.List" [8, 5, 26, 2, 8, 1] = .ok fiveOne := rfl
  exact ⟨hpadded, hplain, decode_padded hpadded hplain⟩

/-- A record of field two that carries wire type zero, where the field is a text: by its wire type
the record ends after two bytes, but the decoder takes its value for a length. A record of an
undeclared field at this place becomes a part of the text. -/
theorem decode_padded_by_wireType :
    IsNumber 16 [16] ∧ IsValue (16 % 8) 0 [2] ∧ IsNumber 8 [8] ∧ IsValue (8 % 8) 0 [5] ∧
      IsNumber 72 [72] ∧ IsValue (72 % 8) 0 [1] ∧
      (Container.message ".a.List").declares listSchema (72 / 8) = false ∧
      listSchema.decode ".a.List" ([16, 2] ++ [8, 5]) =
        .ok [.plain (.scalar (.int32 0)), .plain (.scalar (.string "\x08\x05")), .optional none] ∧
      listSchema.decode ".a.List" ([16, 2] ++ [72, 1] ++ [8, 5]) =
        .ok [.plain (.scalar (.int32 5)), .plain (.scalar (.string "H\x01")), .optional none] := by
  have hbyte (b : UInt8) (hb : b.toNat < 128) : IsValue 0 0 [b] :=
    .plain (.varint (isNumber_singleton hb).1)
  exact ⟨isNumber_singleton (b := 16) (by decide), hbyte 2 (by decide),
    isNumber_singleton (b := 8) (by decide), hbyte 5 (by decide),
    isNumber_singleton (b := 72) (by decide), hbyte 1 (by decide), rfl, rfl, rfl⟩

end Schema

end Protobuf.Codec
