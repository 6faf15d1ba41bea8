import Protobuf.Proofs.Codec.Checks
import Protobuf.Proofs.Codec.Merging
import Protobuf.Sample.Declare

/-!
# The round trip of messages

A message that fits its type is read back in its normal form if its nesting stays
within the limit of the reader, and is refused for its nesting otherwise. The
proof follows the reader: values, the records of one member, the members of a
message, and last an induction on the levels that are left.
-/

/-! ## Reading the records of a member -/

open List Protobuf.Wire.Reader Protobuf.Wire.Piece Protobuf.Plan.Member Bool

namespace Protobuf.Plan.Member

lemma mem_numbers_of_kind? {m : Member} {number : Nat} {kind : ValueKind}
    (h : m.kind? number = some kind) : number ∈ m.numbers := by
  cases m with
  | field p =>
    simp only [kind?] at h
    split_ifs at h with heq
    simp [numbers, heq]
  | union u =>
    obtain ⟨v, hv, -⟩ := Option.map_eq_some_iff.mp h
    have hnumber := find?_some hv
    exact mem_map.mpr ⟨v, mem_of_find?_eq_some hv, beq_iff_eq.mp hnumber⟩

lemma kind?_field (p : FieldPlan) : (Member.field p).kind? p.field.number = some p.kind :=
  if_pos rfl

end Protobuf.Plan.Member

lemma Protobuf.Plan.ValueKind.wireType_lt (kind : ValueKind) : kind.wireType < 8 := by
  cases kind with
  | scalar t => cases t <;> decide
  | _ => simp [wireType]

namespace Protobuf.Codec

open Plan Wire

/-- The tag of a field number in range gives back the number and the wire type. -/
lemma toNat_tagOf {number wireType : Nat} (hnumber : number < 536870912) (hwire : wireType < 8) :
    (tagOf number wireType).toNat / 8 = number ∧ (tagOf number wireType).toNat % 8 = wireType := by
  have hlt : number * 8 + wireType < UInt32.size := by
    simp only [UInt32.size]
    omega
  rw [tagOf, UInt32.toNat_ofNat_of_lt' hlt]
  omega

/-- What reading relies on in a member of a message: its numbers fit into tags, its enums have
a number to spare, and the entry message of a map has the fields that the map is written with. -/
structure MemberSound (s : Schema) (m : Member) : Prop where
  number_lt : ∀ n ∈ m.numbers, n < 536870912
  sentinelFree : ∀ n kind, m.kind? n = some kind → SentinelFree kind
  entry_members : ∀ p entry key value, m = .field p → p.layout = .map entry key value →
    s.members entry.qualifiedName = [.field key, .field value] ∧ key.layout = .plain ∧
      (value.layout = .plain ∨ value.layout = .optional)

namespace Schema

variable {s : Schema} {inner : MessageReader} {depth : Nat} {m : Member}

/-- Records of the member change one slot of a message, and do to it what the member says. -/
def ReadsInto (s : Schema) (inner : MessageReader) (depth : Nat)
    (field : (number wireType : Nat) → Message → Read Message) (m : Member)
    (place : Slot → Message) : Prop :=
  ∀ number wireType kind slot slot' bytes levels, m.kind? number = some kind → wireType < 8 →
    ReadsNested (s.readMember inner number wireType kind m slot) depth bytes slot' levels →
    RecordsNested field depth ((tagPiece number wireType).bytes ++ bytes) (place slot)
      (place slot') levels

/-- A record is read into the slot of the member that has its number. -/
lemma readsNested_readRecord {number wireType levels : Nat} {kind : ValueKind}
    {before after : List Member} {done rest : List Slot} {slot slot' : Slot} {bytes : List UInt8}
    (hbefore : ∀ m' ∈ before, number ∉ m'.numbers) (hkind : m.kind? number = some kind)
    (hdone : done.length = before.length)
    (h : ReadsNested (s.readMember inner number wireType kind m slot) depth bytes slot' levels) :
    ReadsNested (s.readRecord inner number wireType (before ++ m :: after) (done ++ slot :: rest))
      depth bytes (done ++ slot' :: rest) levels := by
  induction before generalizing done with
  | nil =>
    obtain rfl := length_eq_zero_iff.mp hdone
    simp only [nil_append, readRecord, hkind]
    exact h.map fun slot' => slot' :: rest
  | cons m' before ih =>
    obtain ⟨d, done, rfl⟩ := exists_cons_of_length_eq_add_one hdone
    have hnone : m'.kind? number = none := by
      rw [Option.eq_none_iff_forall_ne_some]
      intro kind hsome
      exact hbefore m' (by simp) (mem_numbers_of_kind? hsome)
    simp only [cons_append, readRecord, hnone]
    exact (ih (fun m' hm' => hbefore m' (by simp [hm'])) (by simpa using hdone)).map fun slots =>
      d :: slots

lemma readsInto_members (hm : MemberSound s m) (before after : List Member)
    (done rest : List Slot) (hnodup : ((before ++ m :: after).flatMap Member.numbers).Nodup)
    (hdone : done.length = before.length) :
    ReadsInto s inner depth
      (fun number wireType => s.readRecord inner number wireType (before ++ m :: after)) m
      (fun slot => done ++ slot :: rest) := by
  intro number wireType kind slot slot' bytes levels hkind hwire h
  have hmem := mem_numbers_of_kind? hkind
  have hbefore : ∀ m' ∈ before, number ∉ m'.numbers := by
    intro m' hm' hnumber
    rw [flatMap_append, nodup_append] at hnodup
    exact hnodup.2.2 number (mem_flatMap.mpr ⟨m', hm', hnumber⟩) number (by simp [hmem]) rfl
  obtain ⟨hdiv, hmod⟩ := toNat_tagOf (hm.number_lt number hmem) hwire
  refine RecordsNested.record (reads_uint32 (tagOf number wireType) depth) ?_
  rw [hdiv, hmod]
  exact readsNested_readRecord hbefore hkind hdone h

/-- What the reader of messages does with map entries, one level below `depth`. -/
def ReadsEntries (s : Schema) (inner : MessageReader) (depth : Nat) : Prop :=
  ∀ (entry : Schema.TypeRef) (key value : FieldPlan) (t : Scalar) (k : Primitive) (v : Value),
    s.members entry.qualifiedName = [.field key, .field value] → key.layout = .plain →
    (value.layout = .plain ∨ value.layout = .optional) → key.kind = .scalar t →
    s.holdsScalar t k = true → Fits s value.kind v → Piece.Short (s.entryPieces key value k v) →
    ∃ m : Message,
      (∀ missing, entryOf? missing m = some (s.normScalar t k, s.normValue value.kind v)) ∧
      (depth < recursionLimit →
        ReadsNested (inner entry.qualifiedName
            (some (Piece.flatten (s.entryPieces key value k v)).length)) (depth + 1)
          (Piece.flatten (s.entryPieces key value k v)) m v.nesting)

lemma valuesNesting_of_isPackable {kind : ValueKind} (hkind : kind.isPackable)
    {vs : List Value} (hvs : ∀ v ∈ vs, Fits s kind v) : valuesNesting vs = 0 := by
  induction vs with
  | nil => rfl
  | cons v vs ih =>
    have hv : v.nesting = 0 := by
      cases hvs v (by simp) with
      | scalar _ | choice _ => rfl
      | _ => simp only [ValueKind.isPackable, false_eq_true] at hkind
    rw [valuesNesting, hv, ih fun u hu => hvs u (by simp [hu])]
    rfl

section

variable {field : (number wireType : Nat) → Message → Read Message} {place : Slot → Message}
  (hdepth : depth ≤ recursionLimit) (hinto : ReadsInto s inner depth field m place)

include hdepth hinto

/-- A packed block after its tag. -/
lemma recordsNested_packed {p : FieldPlan} (hm : m = .field p) (hsound : MemberSound s m)
    (hlayout : p.layout = .repeated) (hpacked : p.isPacked) {vs : List Value}
    (hvs : ∀ v ∈ vs, Fits s p.kind v) (acc : List Value)
    (hshort : Piece.Short [tagPiece p.field.number 2, .block (vs.flatMap (s.barePieces p.kind))]) :
    RecordsNested field depth
      (Piece.flatten [tagPiece p.field.number 2, .block (vs.flatMap (s.barePieces p.kind))])
      (place (.repeated acc)) (place (.repeated (acc ++ s.normValues p.kind vs))) 0 := by
  subst hm
  have hkind := hsound.sentinelFree _ _ (kind?_field p)
  have hpackable : p.kind.isPackable := by
    simpa only [FieldPlan.isPacked, hlayout] using hpacked
  obtain ⟨hlength, hblock, -⟩ := short_block_cons.mp (short_raw_cons.mp hshort)
  have hread : Reads (s.readPacked inner p.kind) depth _ (s.normValues p.kind vs) :=
    s.reads_readPacked (reads_length hlength depth)
      (UInt32.toNat_ofNat_of_lt' hlength).symm (itemsRead_bare hkind hpackable hvs hblock)
  have hmember : Reads (s.readMember inner p.field.number 2 p.kind (.field p) (.repeated acc))
      depth (block (vs.flatMap (s.barePieces p.kind))).bytes
      (.repeated (acc ++ s.normValues p.kind vs)) := by
    simp only [readMember, hlayout, hpacked, Bool.true_and, beq_self_eq_true, if_true]
    exact hread.map fun vs => Slot.repeated (acc ++ vs)
  have h := hinto p.field.number 2 p.kind (.repeated acc) _ _ _ (kind?_field p) (by decide)
    (.of_reads hmember hdepth)
  simpa only [Piece.flatten, append_nil] using h

lemma recordsNested_entries (hentries : ReadsEntries s inner depth)
    {p key value : FieldPlan} {entry : Schema.TypeRef} {t : Scalar} (hm : m = .field p)
    (hsound : MemberSound s m) (hlayout : p.layout = .map entry key value)
    (hkey : key.kind = .scalar t) {entries : List (Primitive × Value)}
    (hkeys : ∀ e ∈ entries, s.holdsScalar t e.1)
    (hvalues : ∀ e ∈ entries, Fits s value.kind e.2) (acc : List (Primitive × Value))
    (hshort : Piece.Short (s.entriesPieces p.field.number key value entries)) :
    RecordsNested field depth (Piece.flatten (s.entriesPieces p.field.number key value entries))
      (place (.map acc))
      (place (.map (putEntries acc (s.normEntries key.kind value.kind entries))))
      (entriesNesting entries) := by
  subst hm
  obtain ⟨hmembers, hplain, hsingle⟩ := hsound.entry_members p entry key value rfl hlayout
  induction entries generalizing acc with
  | nil => exact .done hdepth _
  | cons e entries ih =>
    obtain ⟨k, v⟩ := e
    rw [entriesPieces_cons] at hshort ⊢
    obtain ⟨hfirst, hrest⟩ := short_append.mp hshort
    obtain ⟨hlength, hblock, -⟩ := short_block_cons.mp (short_raw_cons.mp hfirst)
    have hrecord : RecordsNested field depth
        (flatten [tagPiece p.field.number 2, .block (s.entryPieces key value k v)])
        (place (.map acc))
        (place (.map (putEntry (s.normScalar t k) (s.normValue value.kind v) acc)))
        (v.nesting + 1) := by
      obtain ⟨e, hparts, hread⟩ := hentries entry key value t k v hmembers hplain hsingle hkey
        (hkeys (k, v) (by simp)) (hvalues (k, v) (by simp)) hblock
      have hmember : ReadsNested (s.readMember inner p.field.number 2 p.kind (.field p) (.map acc))
          depth (block (s.entryPieces key value k v)).bytes
          (.map (putEntry (s.normScalar t k) (s.normValue value.kind v) acc)) (v.nesting + 1) := by
        simp only [readMember, hlayout]
        refine (readsNested_message hdepth hlength hread).bind_pure ?_
        simp only [hparts]
      have h := hinto p.field.number 2 p.kind (.map acc) _ _ _ (kind?_field p) (by decide)
        hmember
      simpa only [Piece.flatten, append_nil] using h
    have hmore := ih (fun e he => hkeys e (by simp [he])) (fun e he => hvalues e (by simp [he]))
      (putEntry (s.normScalar t k) (s.normValue value.kind v) acc) hrest
    rw [Piece.flatten_append]
    simp only [normEntries, hkey, putEntries_cons] at hmore ⊢
    exact hrecord.append hmore

variable (hmessages : ReadsMessages s inner depth)

include hmessages

/-- One value after its tag. -/
lemma recordsNested_value {number : Nat} {kind : ValueKind} {v : Value} (slot : Slot)
    (hsound : MemberSound s m) (hkind : m.kind? number = some kind) (hv : Fits s kind v)
    (hshort : Piece.Short (tagPiece number kind.wireType :: s.valuePieces kind v))
    (wrap : Value → Slot)
    (hwrap : s.readMember inner number kind.wireType kind m slot =
      do return wrap (← s.readValue inner kind)) :
    RecordsNested field depth
      (Piece.flatten (tagPiece number kind.wireType :: s.valuePieces kind v)) (place slot)
      (place (wrap (s.normValue kind v))) v.nesting := by
  have hread := readsNested_value hdepth hmessages hv (hsound.sentinelFree _ _ hkind)
    (short_raw_cons.mp hshort)
  refine hinto number kind.wireType kind slot _ _ _ hkind kind.wireType_lt ?_
  rw [hwrap]
  exact hread.map wrap

lemma recordsNested_values {p : FieldPlan} (hm : m = .field p) (hsound : MemberSound s m)
    (hlayout : p.layout = .repeated) (hpacked : p.isPacked = false) {vs : List Value}
    (hvs : ∀ v ∈ vs, Fits s p.kind v) (acc : List Value)
    (hshort : Piece.Short (s.valuesPieces p.field.number p.kind vs)) :
    RecordsNested field depth (Piece.flatten (s.valuesPieces p.field.number p.kind vs))
      (place (.repeated acc)) (place (.repeated (acc ++ s.normValues p.kind vs)))
      (valuesNesting vs) := by
  subst hm
  induction vs generalizing acc with
  | nil =>
    simp only [normValues, append_nil]
    exact .done hdepth _
  | cons v vs ih =>
    rw [valuesPieces] at hshort ⊢
    obtain ⟨hfirst, hrest⟩ := short_append.mp hshort
    have h := recordsNested_value hdepth hinto hmessages (.repeated acc) hsound
      (kind?_field p) (hvs v (by simp)) hfirst (fun v => .repeated (acc ++ [v]))
      (by simp only [readMember, hlayout, hpacked, Bool.false_and, Bool.false_eq_true, if_false])
    have hmore := ih (fun u hu => hvs u (by simp [hu])) (acc ++ [s.normValue p.kind v]) hrest
    rw [append_assoc] at hmore
    rw [Piece.flatten_append]
    exact h.append hmore

/-- What a member holds is merged into what is there. -/
lemma recordsNested_slot (hentries : ReadsEntries s inner depth) (hsound : MemberSound s m)
    {start slot : Slot} (hstart : Shaped m start) (hslot : SlotFits s m slot)
    (hshort : Piece.Short (s.slotPieces m slot)) :
    RecordsNested field depth (Piece.flatten (s.slotPieces m slot)) (place start)
      (place (s.mergeSlot m start (s.normSlot m slot))) slot.nesting := by
  cases hslot with
  | @plain p v hlayout hv =>
    simp only [slotPieces, normSlot, Slot.nesting] at hshort ⊢
    by_cases hunset : s.isUnset p.kind v
    · rw [if_pos hunset, (positive_normValue_of_isUnset hv hunset).2,
        mergeSlot_of_isUnset _ (by rwa [isUnset_positive_normValue hv])]
      exact .done hdepth _
    · rw [if_neg hunset] at hshort ⊢
      rw [not_eq_true] at hunset
      rw [mergeSlot_of_not_isUnset _ (by rwa [isUnset_positive_normValue hv]),
        positive_normValue_of_not_isUnset hv hunset]
      exact recordsNested_value hdepth hinto hmessages _ hsound (kind?_field p) hv hshort
        .plain (by simp only [readMember, hlayout])
  | absent _ => exact .done hdepth _
  | @present p v hlayout hv =>
    exact recordsNested_value hdepth hinto hmessages _ hsound (kind?_field p) hv hshort
      (fun v => .optional (some v)) (by simp only [readMember, hlayout])
  | @repeated p vs hlayout hvs =>
    obtain ⟨us, rfl⟩ := hstart.exists_values hlayout
    simp only [slotPieces, normSlot, mergeSlot, Slot.nesting] at hshort ⊢
    by_cases hpacked : p.isPacked
    · have hpackable : p.kind.isPackable := by
        simpa only [FieldPlan.isPacked, hlayout] using hpacked
      rw [if_pos hpacked] at hshort ⊢
      rw [valuesNesting_of_isPackable hpackable hvs]
      cases vs with
      | nil =>
        simp only [normValues, append_nil]
        exact .done hdepth _
      | cons v vs =>
        exact recordsNested_packed hdepth hinto rfl hsound hlayout hpacked hvs us hshort
    · rw [if_neg hpacked] at hshort ⊢
      exact recordsNested_values hdepth hinto hmessages rfl hsound hlayout
        (not_eq_true _ ▸ hpacked) hvs us hshort
  | @map p key value entry t entries hlayout hkey hkeys hvalues _ =>
    obtain ⟨es, rfl⟩ := hstart.exists_entries hlayout
    simp only [slotPieces, normSlot, mergeSlot, hlayout, Slot.nesting] at hshort ⊢
    exact recordsNested_entries hdepth hinto hentries rfl hsound hlayout hkey hkeys hvalues es
      hshort
  | unset u => exact .done hdepth _
  | @chosen u number kind v hkind hv =>
    simp only [slotPieces, normSlot, hkind] at hshort ⊢
    exact recordsNested_value hdepth hinto hmessages _ hsound hkind hv hshort
      (fun v => .union (some (number, v))) rfl

end

/-- What the members hold is merged into what is there, after the slots of the members before them
were. -/
lemma recordsNested_slots (hdepth : depth ≤ recursionLimit)
    (hmessages : ReadsMessages s inner depth) (hentries : ReadsEntries s inner depth)
    (before : List Member) (done : List Slot) {members : List Member} {start slots : List Slot}
    (hsound : ∀ m ∈ members, MemberSound s m)
    (hnodup : ((before ++ members).flatMap Member.numbers).Nodup)
    (hdone : done.length = before.length) (hstart : List.Forall₂ Shaped members start)
    (hslots : SlotsFit s members slots) (hshort : Piece.Short (s.slotsPieces members slots)) :
    RecordsNested (fun number wireType => s.readRecord inner number wireType (before ++ members))
      depth (Piece.flatten (s.slotsPieces members slots)) (done ++ start)
      (done ++ s.mergeSlots members start (s.normSlots members slots)) (slotsNesting slots) := by
  induction hstart generalizing before done slots with
  | nil =>
    cases hslots
    exact .done hdepth _
  | @cons m start members starts hstart _ ih =>
    cases hslots with
    | @cons _ slot _ slots hslot hslots =>
      rw [slotsPieces] at hshort ⊢
      obtain ⟨hfirst, hrest⟩ := short_append.mp hshort
      have hm := hsound m (by simp)
      have h := recordsNested_slot hdepth
        (readsInto_members hm before members done starts hnodup hdone) hmessages
        hentries hm hstart hslot hfirst
      have hmore := ih (before ++ [m]) (done ++ [s.mergeSlot m start (s.normSlot m slot)])
        (fun m' hm' => hsound m' (by simp [hm'])) (by simpa using hnodup) (by simp [hdone]) hslots
        hrest
      simp only [append_assoc, singleton_append] at hmore
      rw [Piece.flatten_append]
      exact h.append hmore

/-! ## Messages -/

/-- What reading relies on in a schema. -/
structure Sound (s : Schema) : Prop where
  member : ∀ name, ∀ m ∈ s.members name, MemberSound s m
  numbers_nodup : ∀ name, ((s.members name).flatMap Member.numbers).Nodup

/-- The records of a message are merged into what was read before them. -/
lemma recordsNested_message (hs : s.Sound) (hdepth : depth ≤ recursionLimit)
    (hmessages : ReadsMessages s inner depth) (hentries : ReadsEntries s inner depth)
    {name : String} {start m : Message} (hstart : List.Forall₂ Shaped (s.members name) start)
    (hm : SlotsFit s (s.members name) m) (hshort : Piece.Short (s.pieces name m)) :
    RecordsNested (fun number wireType => s.readRecord inner number wireType (s.members name))
      depth (Piece.flatten (s.pieces name m)) start (s.merge name start (s.norm name m))
      (slotsNesting m) :=
  recordsNested_slots hdepth hmessages hentries [] [] (hs.member name) (hs.numbers_nodup name) rfl
    hstart hm hshort

lemma readsNested_message (hs : s.Sound) {levels : Nat} (hdepth : depth ≤ recursionLimit)
    (hmessages : ReadsMessages s (s.readWithin levels) depth)
    (hentries : ReadsEntries s (s.readWithin levels) depth) {name : String} {m : Message}
    (hm : SlotsFit s (s.members name) m) (hshort : Piece.Short (s.pieces name m)) :
    ReadsNested (s.readWithin (levels + 1) name (some (Piece.flatten (s.pieces name m)).length))
      depth (Piece.flatten (s.pieces name m)) (s.norm name m) (slotsNesting m) := by
  have h := recordsNested_message hs hdepth hmessages hentries (s.shaped_zero name) hm hshort
  have hmerge : s.merge name (s.zero name) (s.norm name m) = s.norm name m :=
    mergeSlots_zero_left hm
  rw [hmerge] at h
  exact readsNested_frame h

/-- The entry of a map is read as a message of which both fields were written. -/
lemma exists_readsNested_entry (hs : s.Sound) {entry : Schema.TypeRef} {key value : FieldPlan}
    {t : Scalar} {k : Primitive} {v : Value}
    (hmembers : s.members entry.qualifiedName = [.field key, .field value])
    (hplain : key.layout = .plain) (hsingle : value.layout = .plain ∨ value.layout = .optional)
    (hkey : key.kind = .scalar t) (hk : s.holdsScalar t k) (hv : Fits s value.kind v)
    (hshort : Piece.Short (s.entryPieces key value k v)) :
    ∃ m : Message,
      (∀ missing, entryOf? missing m = some (s.normScalar t k, s.normValue value.kind v)) ∧
      ∀ {levels depth : Nat}, depth ≤ recursionLimit →
        ReadsMessages s (s.readWithin levels) depth →
        ReadsNested (s.readWithin (levels + 1) entry.qualifiedName
            (some (Piece.flatten (s.entryPieces key value k v)).length)) depth
          (Piece.flatten (s.entryPieces key value k v)) m v.nesting := by
  obtain ⟨wrap, hzero, hwrap⟩ : ∃ wrap : Value → Slot,
      (∀ missing,
        entryOf? missing [.plain (.scalar (s.normScalar t k)), wrap (s.normValue value.kind v)] =
          some (s.normScalar t k, s.normValue value.kind v)) ∧
      ∀ inner, s.readMember inner value.field.number value.kind.wireType value.kind (.field value)
        (s.zeroSlot (.field value)) = do return wrap (← s.readValue inner value.kind) := by
    rcases hsingle with hlayout | hlayout
    · exact ⟨.plain, fun _ => rfl, fun _ => by simp only [readMember, hlayout]⟩
    · exact ⟨fun v => .optional (some v), fun _ => rfl,
        fun _ => by simp only [readMember, hlayout]⟩
  refine ⟨_, hzero, fun {levels depth} hdepth hmessages => ?_⟩
  have hkeySound := hs.member entry.qualifiedName (.field key) (by simp [hmembers])
  have hvalueSound := hs.member entry.qualifiedName (.field value) (by simp [hmembers])
  have hnodup := hs.numbers_nodup entry.qualifiedName
  rw [hmembers] at hnodup
  obtain ⟨hkeyShort, hvalueShort⟩ := short_append.mp hshort
  have hbare : s.barePieces key.kind (.scalar k) = s.valuePieces key.kind (.scalar k) := by
    rw [hkey]
    rfl
  rw [hbare] at hkeyShort
  have hfirst := recordsNested_value hdepth (readsInto_members hkeySound [] [.field value] []
    [s.zeroSlot (.field value)] hnodup rfl) hmessages (s.zeroSlot (.field key)) hkeySound
    (kind?_field key) (hkey ▸ Fits.scalar hk) hkeyShort .plain
    (by simp only [readMember, hplain])
  have hsecond := recordsNested_value hdepth (readsInto_members hvalueSound [.field key] []
    [.plain (s.normValue key.kind (.scalar k))] [] hnodup rfl) hmessages
    (s.zeroSlot (.field value)) hvalueSound (kind?_field value) hv hvalueShort wrap
    (hwrap _)
  have h := hfirst.append hsecond
  rw [← hbare, ← Piece.flatten_append] at h
  have hframe := readsNested_frame h
  have hlevels : max (Value.scalar k).nesting v.nesting = v.nesting := Nat.zero_max _
  have hnorm : s.normValue key.kind (.scalar k) = .scalar (s.normScalar t k) := by
    rw [hkey]
    rfl
  rw [hlevels, hnorm] at hframe
  simp only [readWithin, zero, hmembers]
  exact hframe

lemma readsWithin (hs : s.Sound) (levels : Nat) {depth : Nat}
    (hlevels : recursionLimit ≤ levels + depth) :
    ReadsMessages s (s.readWithin levels) depth ∧ ReadsEntries s (s.readWithin levels) depth := by
  induction levels generalizing depth with
  | zero =>
    constructor
    · intro name slots _ _ hdepth
      omega
    · intro entry key value t k v hmembers hplain hsingle hkey hk hv hshort
      obtain ⟨m, hparts, -⟩ := exists_readsNested_entry hs hmembers hplain hsingle hkey hk hv hshort
      exact ⟨m, hparts, fun hdepth => by omega⟩
  | succ levels ih =>
    have hbelow : recursionLimit ≤ levels + (depth + 1) := by omega
    obtain ⟨hmessages, hentries⟩ := ih hbelow
    constructor
    · intro name slots hslots hshort hdepth
      exact readsNested_message hs hdepth hmessages hentries hslots hshort
    · intro entry key value t k v hmembers hplain hsingle hkey hk hv hshort
      obtain ⟨m, hparts, hread⟩ :=
        exists_readsNested_entry hs hmembers hplain hsingle hkey hk hv hshort
      exact ⟨m, hparts, fun hdepth => hread hdepth hmessages⟩

/-- Writing and reading again, in a schema that reading can rely on. -/
lemma Sound.reads_back (hs : s.Sound) {name : String} {m : Message}
    (hm : SlotsFit s (s.members name) m) (hshort : Piece.Short (s.pieces name m)) :
    (slotsNesting m ≤ recursionLimit → s.decode name (s.encode name m) = .ok (s.norm name m)) ∧
      (recursionLimit < slotsNesting m → ∃ offset,
        s.decode name (s.encode name m) = .error (.recursionLimit offset recursionLimit)) := by
  obtain ⟨hmessages, hentries⟩ := readsWithin hs recursionLimit (le_refl (recursionLimit + 0))
  have hroot := readsNested_message hs (Nat.zero_le _) hmessages hentries hm hshort
  rw [s.encode_eq_flatten hm]
  have hread : s.read name none (ofBytes (flatten (s.pieces name m))) =
      s.readWithin (recursionLimit + 1) name (some (flatten (s.pieces name m)).length)
        ⟨0, flatten (s.pieces name m) ++ [], 0⟩ := by
    rw [append_nil]
    exact frame_none ..
  constructor
  · intro hle
    have hok := hroot.1 (by omega) 0 []
    rw [decode, hread, hok]
  · intro hlt
    obtain ⟨offset, r, herror⟩ := hroot.2 (by omega) 0 []
    refine ⟨offset, ?_⟩
    rw [decode, hread, herror]

/-! ## Schemas of files -/

/-- What holds of a schema whose generated code compiles: the field numbers of a message are
distinct, an enum has a number left for its sentinel, and the entry of a map has a key and a value
that can be put into the map. -/
structure Compiles (s : Schema) : Prop where
  numbers_nodup : ∀ name, ((s.members name).flatMap Member.numbers).Nodup
  sentinelFree : ∀ name, ∀ m ∈ s.members name, ∀ n kind, m.kind? n = some kind → SentinelFree kind
  entry_members : ∀ name p entry key value, .field p ∈ s.members name →
    p.layout = .map entry key value → ∃ k v, s.members entry.qualifiedName = [.field k, .field v] ∧
      k.layout = .plain ∧ (v.layout = .plain ∨ v.layout = .optional)

variable {files : List Descriptor.File} {options : Options}

lemma Compiles.sound (hc : s.Compiles) (hs : ofFiles files options = .ok s) : s.Sound where
  member name m hm := {
    number_lt := ofFiles_number_lt hs hm
    sentinelFree := hc.sentinelFree name m hm
    entry_members := by
      rintro p entry key value rfl hlayout
      obtain ⟨k, v, hmembers, hkey, hvalue⟩ := hc.entry_members name p entry key value hm hlayout
      obtain ⟨rfl, rfl⟩ := ofFiles_entry_members hs hm hlayout hmembers
      exact ⟨hmembers, hkey, hvalue⟩ }
  numbers_nodup := hc.numbers_nodup

instance (kind : ValueKind) : Decidable (SentinelFree kind) :=
  match kind with
  | .enum _ _ => inferInstanceAs (Decidable (_ ∉ _))
  | .scalar _ | .wrapper _ | .timestamp | .message _ => inferInstanceAs (Decidable True)

/-- Whether the members are those of a map entry, of which a map can be made. -/
def isEntry : List Member → Bool
  | [.field k, .field v] => k.layout.shape == .plain &&
      (v.layout.shape == .plain || v.layout.shape == .optional)
  | _ => false

/-- Whether the members of a message are as generated code that compiles has them. -/
def membersCompile (s : Schema) (members : List Member) : Bool :=
  decide (members.flatMap Member.numbers).Nodup &&
    (members.flatMap Member.places).all fun place =>
      decide (SentinelFree place.kind) &&
        match place.shape with
        | .map entry _ _ => isEntry (s.members entry.qualifiedName)
        | _ => true

/-- Files are planned and what is generated for them compiles, if a computation says so. -/
lemma planned_compiles (files : List Descriptor.File) (options : Options)
    (h : (plans? files options).any (fun plans =>
      plans.all fun plan => (planned files options).membersCompile plan.2)) :
    ofFiles files options = .ok (planned files options) ∧ (planned files options).Compiles := by
  obtain ⟨plans, hplans, hall⟩ := (Option.any_eq_true ..).mp h
  have hcheck (name : String) : (planned files options).membersCompile
      ((planned files options).members name) = true := by
    refine forall_planned_members (motive := fun members =>
      (planned files options).membersCompile members = true) rfl (fun plan hplan => ?_) name
    rw [hplans] at hplan
    exact all_eq_true.mp hall plan hplan
  simp only [membersCompile, and_eq_true, decide_eq_true_eq, all_eq_true] at hcheck
  refine ⟨ofFiles_eq_planned (by rw [hplans]; rfl), fun name => (hcheck name).1, ?_, ?_⟩
  · intro name m hm n kind hkind
    obtain ⟨place, hplace, -, rfl⟩ := exists_place_of_kind? hkind
    exact ((hcheck name).2 place (mem_flatMap.mpr ⟨m, hm, hplace⟩)).1
  · intro name p entry key value hp hlayout
    have hentry := ((hcheck name).2 p.place
      (mem_flatMap.mpr ⟨_, hp, mem_singleton_self _⟩)).2
    simp only [FieldPlan.place, hlayout, Layout.shape] at hentry
    unfold isEntry at hentry
    split at hentry
    · rename_i k v hmembers
      simp only [and_eq_true, or_eq_true, beq_iff_eq, Layout.shape_eq_plain,
        Layout.shape_eq_optional] at hentry
      exact ⟨k, v, hmembers, hentry⟩
    · cases hentry

/-- A message of a compiled schema, all of whose blocks are short enough, is read back in its
normal form exactly if it is not nested too deeply. -/
theorem decode_encode (hs : ofFiles files options = .ok s) (hc : s.Compiles) {name : String}
    {m : Message} (hm : SlotsFit s (s.members name) m) (hshort : Piece.Short (s.pieces name m)) :
    (slotsNesting m ≤ recursionLimit → s.decode name (s.encode name m) = .ok (s.norm name m)) ∧
      (recursionLimit < slotsNesting m → ∃ offset,
        s.decode name (s.encode name m) = .error (.recursionLimit offset recursionLimit)) :=
  (hc.sound hs).reads_back hm hshort

/-- A file with one message, a node of a linked list. -/
private def nodeFile : Descriptor.File :=
  { name := "node.proto"
    package := "list"
    dialect := "proto3"
    messages := [{
      name := "Node"
      fields := [Sample.scalar .int64 "id" 1, Sample.message ".list.Node" "next" 2] }] }

/-- Options under which the numbers of nodes are held as text. -/
private def nodeOptions : Options := { longs := .decimal }

private def nodeSchema : Schema := planned [nodeFile] nodeOptions

/-- Two nodes, of which one has a number in an unusual spelling and the other none at all. -/
private def twoNodes : Message :=
  [.plain (.scalar (.string "007")),
    .optional (some (.message [.plain (.scalar (.string "")), .optional none]))]

/-- The two nodes come back with the numbers spelled out. -/
theorem decode_encode_twoNodes : ∃ s : Schema, ofFiles [nodeFile] nodeOptions = .ok s ∧
    s.Compiles ∧ SlotsFit s (s.members ".list.Node") twoNodes ∧
    Piece.Short (s.pieces ".list.Node" twoNodes) ∧ slotsNesting twoNodes ≤ recursionLimit ∧
    s.decode ".list.Node" (s.encode ".list.Node" twoNodes) =
      .ok [.plain (.scalar (.string "7")),
        .optional (some (.message [.plain (.scalar (.string "0")), .optional none]))] := by
  obtain ⟨hs, hc⟩ := planned_compiles [nodeFile] nodeOptions (by decide +kernel)
  have hfits : SlotsFit nodeSchema (nodeSchema.members ".list.Node") twoNodes :=
    slotsFit_sound _ (by decide +kernel)
  have hshort : Piece.Short (nodeSchema.pieces ".list.Node" twoNodes) := by decide +kernel
  have hnesting : slotsNesting twoNodes ≤ recursionLimit := by decide
  refine ⟨nodeSchema, hs, hc, hfits, hshort, hnesting, ?_⟩
  exact ((decode_encode hs hc hfits hshort).1 hnesting).trans (by decide +kernel)

end Schema

end Protobuf.Codec
