import Protobuf.Proofs.Codec.RoundTrip

/-!
# Packed blocks and single values

A writer is free to cut the values of a packable field into runs: a run is one block,
or every value of it has a tag of its own, and records of other fields may stand
between the runs. A decoder appends what it finds, in the order of the wire, so all
of these are the same message. The proof rests on two equations for one record: a
record of the field changes its slot and nothing else, and a record of another field
is read alike whatever the slot holds.
-/

open List Protobuf.Plan.Member Protobuf.Codec.Schema

namespace Protobuf.Wire

variable {σ : Type} {field : (number wireType : Nat) → σ → Read σ} {depth : Nat} {s t u : σ}

lemma recordsRead_nil_iff : RecordsRead field depth [] s t ↔ t = s := by
  constructor
  · intro h
    generalize hbytes : ([] : List UInt8) = bytes at h
    cases h with
    | done => rfl
    | record htag _ _ =>
      have hpos := htag.length_pos_of_uint32
      simp [(append_eq_nil_iff.mp (append_eq_nil_iff.mp hbytes.symm).1).1] at hpos
  · rintro rfl
    exact .done t

/-- After a record that is read, the records that follow it are read on. -/
lemma recordsRead_tag_iff {tag : Nat} {head body rest : List UInt8} (hhead : IsNumber tag head)
    (hbody : Reads (field (tag / 8) (tag % 8) s) depth body t) :
    RecordsRead field depth (head ++ body ++ rest) s u ↔ RecordsRead field depth rest t u := by
  have htag := Reader.reads_of_isNumber hhead depth
  rw [← hhead.toNat] at hbody
  constructor
  · intro h
    rw [append_assoc] at h
    obtain ⟨body', rest', t', hrest, hbody', htail⟩ := h.uncons htag
    obtain ⟨-, rfl, rfl⟩ := hbody.unique hbody' hrest
    exact htail
  · intro h
    exact .record htag hbody h

end Protobuf.Wire

namespace Protobuf.Codec

open Plan Wire

def Schema.bareBytes (s : Schema) (kind : ValueKind) (v : Value) : List UInt8 :=
  (s.writeBare kind v .empty).finish

/-- Records of a message of which those of the field `p` hold the given values, in this order.
Runs of values are blocks or single values as the writer likes; a block may be empty. The records
of all other fields are the last argument. -/
inductive Interleaved (s : Schema) (name : String) (p : FieldPlan) :
    List UInt8 → List Value → List UInt8 → Prop
  /-- Nothing is left. -/
  | done : Interleaved s name p [] [] []
  /-- A run of values in one block after its length. -/
  | block {head length bytes others : List UInt8} {vs us : List Value} :
      IsNumber (p.field.number * 8 + 2) head →
      IsNumber (vs.flatMap (s.bareBytes p.kind)).length length →
      Interleaved s name p bytes us others →
      Interleaved s name p (head ++ (length ++ vs.flatMap (s.bareBytes p.kind)) ++ bytes)
        (vs ++ us) others
  /-- One value after a tag of its own. -/
  | single {head bytes others : List UInt8} {v : Value} {us : List Value} :
      IsNumber (p.field.number * 8 + p.kind.wireType) head →
      Interleaved s name p bytes us others →
      Interleaved s name p (head ++ s.bareBytes p.kind v ++ bytes) (v :: us) others
  /-- A record of another field, declared or not. -/
  | other {tag levels : Nat} {head value bytes others : List UInt8} {us : List Value} :
      IsNumber tag head → tag / 8 ≠ p.field.number →
      IsValue ((Container.message name).form s (tag / 8) (tag % 8)) levels value →
      Interleaved s name p bytes us others →
      Interleaved s name p (head ++ value ++ bytes) us (head ++ value ++ others)

namespace Schema

variable {s : Schema} {inner : MessageReader} {number wireType i : Nat} {m : Member}

/-! ## One record -/

variable {members : List Member} {slots : List Slot}

/-- A record of the field of a slot changes the slot, and no other one. -/
lemma readRecord_set_own {kind : ValueKind} (hm : members[i]? = some m)
    (hkind : m.kind? number = some kind)
    (hfirst : ∀ j m', j < i → members[j]? = some m' → m'.kind? number = none)
    (hi : i < slots.length) (slot : Slot) :
    s.readRecord inner number wireType members (slots.set i slot) =
      do return slots.set i (← s.readMember inner number wireType kind m slot) := by
  induction members generalizing slots i with
  | nil => cases hm
  | cons m₀ members ih =>
    obtain ⟨slot₀, slots, rfl⟩ := exists_cons_of_length_pos (Nat.zero_lt_of_lt hi)
    cases i with
    | zero =>
      obtain rfl : m₀ = m := Option.some.inj hm
      simp only [set_cons_zero, readRecord, hkind]
    | succ i =>
      have hnone : m₀.kind? number = none := hfirst 0 m₀ (Nat.succ_pos i) rfl
      have hrest : s.readRecord inner number wireType members (slots.set i slot) =
          do return slots.set i (← s.readMember inner number wireType kind m slot) :=
        ih hm (fun j m' hj hm' => hfirst (j + 1) m' (by omega) hm') (by simpa using hi)
      simp only [set_cons_succ, readRecord, hnone, hrest, bind_assoc, pure_bind]

/-- A record of another field does not look at the slot, and leaves it as it is. -/
lemma readRecord_set_other (hm : members[i]? = some m) (hkind : m.kind? number = none)
    (hi : i < slots.length) (slot : Slot) :
    s.readRecord inner number wireType members (slots.set i slot) =
      do return (← s.readRecord inner number wireType members slots).set i slot := by
  induction members generalizing slots i with
  | nil => cases hm
  | cons m₀ members ih =>
    obtain ⟨slot₀, slots, rfl⟩ := exists_cons_of_length_pos (Nat.zero_lt_of_lt hi)
    cases i with
    | zero =>
      obtain rfl : m₀ = m := Option.some.inj hm
      simp only [set_cons_zero, readRecord, hkind, bind_assoc, pure_bind]
    | succ i =>
      have hrest : s.readRecord inner number wireType members (slots.set i slot) =
          do return (← s.readRecord inner number wireType members slots).set i slot :=
        ih hm (by simpa using hi)
      simp only [set_cons_succ, readRecord]
      cases m₀.kind? number with
      | none => simp only [hrest, bind_assoc, pure_bind, set_cons_succ]
      | some kind => simp only [bind_assoc, pure_bind, set_cons_succ]

/-! ## Values of a packable kind -/

lemma bareBytes_eq (s : Schema) (kind : ValueKind) (v : Value) :
    s.bareBytes kind v = Piece.flatten (s.barePieces kind v) :=
  (s.emits_writeBare kind v).finish_eq

lemma flatMap_bareBytes (s : Schema) (kind : ValueKind) (vs : List Value) :
    vs.flatMap (s.bareBytes kind) = Piece.flatten (vs.flatMap (s.barePieces kind)) := by
  induction vs with
  | nil => rfl
  | cons v vs ih =>
    rw [flatMap_cons, flatMap_cons, Piece.flatten_append, ih, bareBytes_eq]

end Schema

end Protobuf.Codec

lemma Protobuf.Scalar.short_pieces {t : Scalar} (ht : t.isPackable) (p : Primitive) :
    Wire.Piece.Short (t.pieces p) := by
  have hnone : Wire.Piece.lengths (t.pieces p) = [] := by
    cases t with
    | string | bytes => cases ht
    | _ => cases p <;> rfl
  unfold Wire.Piece.Short
  rw [hnone]
  simp

namespace Protobuf.Codec

open Plan Wire

namespace Schema

variable {s : Schema} {name : String} {p : FieldPlan} {i : Nat}

lemma normValues_append (kind : ValueKind) (vs us : List Value) :
    s.normValues kind (vs ++ us) = s.normValues kind vs ++ s.normValues kind us := by
  induction vs with
  | nil => rfl
  | cons v vs ih => rw [cons_append, normValues, ih, normValues, cons_append]

lemma short_barePieces {kind : ValueKind} (hkind : kind.isPackable) (v : Value) :
    Piece.Short (s.barePieces kind v) := by
  unfold barePieces
  split
  · rename_i t q
    unfold scalarPieces
    split
    · exact t.short_pieces hkind _
    · simp [Piece.Short, Piece.lengths]
    · exact t.short_pieces hkind _
  · simp [Piece.Short, Piece.lengths, Piece.blockLengths]
  · simp [Piece.Short, Piece.lengths]

lemma wireType_beq_two {kind : ValueKind} (hkind : kind.isPackable) :
    (kind.wireType == 2) = false := by
  cases kind with
  | scalar t =>
    cases t with
    | string | bytes => cases hkind
    | _ => rfl
  | enum ref e => rfl
  | _ => cases hkind

lemma layout_of_isPacked (hpacked : p.isPacked) :
    p.layout = .repeated ∧ p.kind.isPackable := by
  unfold FieldPlan.isPacked at hpacked
  cases hlayout : p.layout with
  | repeated => exact ⟨rfl, by simpa only [hlayout] using hpacked⟩
  | _ => simp only [hlayout, Bool.false_eq_true] at hpacked

/-! ## All records -/

section

variable (hs : s.Sound) (hp : (s.members name)[i]? = some (.field p))

include hs hp

lemma Sound.kind?_eq_none_of_lt {j : Nat} {m : Member} (hj : j < i)
    (hm : (s.members name)[j]? = some m) : m.kind? p.field.number = none := by
  rw [Option.eq_none_iff_forall_ne_some]
  intro kind hkind
  obtain ⟨hi, hfield⟩ := List.getElem?_eq_some_iff.mp hp
  obtain ⟨hj', hmember⟩ := List.getElem?_eq_some_iff.mp hm
  have hdisjoint := (nodup_flatMap.mp (hs.numbers_nodup name)).2
  have hapart := pairwise_iff_getElem.mp hdisjoint j i hj' hi hj
  rw [Function.onFun, hmember, hfield] at hapart
  have hown := mem_numbers_of_kind? (kind?_field p)
  exact hapart (mem_numbers_of_kind? hkind) hown

variable {slots : Message}

/-- A record of the field, if reading its value does to the slot what is said. -/
lemma Sound.reads_own {budget depth wireType : Nat} {slot slot' : Slot}
    {bytes : List UInt8} (hi : i < slots.length)
    (h : Reads (s.readMember (s.readWithin budget) p.field.number wireType p.kind (.field p) slot)
      depth bytes slot') :
    Reads ((Container.message name).field s budget p.field.number wireType (slots.set i slot)) depth
      bytes (slots.set i slot') := by
  simp only [Container.field]
  rw [readRecord_set_own hp (kind?_field p)
    (fun j m' hj hm' => hs.kind?_eq_none_of_lt hp hj hm') hi]
  exact h.map fun slot => slots.set i slot

/-- A block adds its values. -/
lemma Sound.reads_block (hpacked : p.isPacked) {vs : List Value}
    (hvs : ∀ v ∈ vs, Fits s p.kind v) {length : List UInt8}
    (hlength : IsNumber (vs.flatMap (s.bareBytes p.kind)).length length) (budget depth : Nat)
    (hi : i < slots.length) (acc : List Value) :
    Reads ((Container.message name).field s budget p.field.number 2
        (slots.set i (.repeated acc))) depth (length ++ vs.flatMap (s.bareBytes p.kind))
      (slots.set i (.repeated (acc ++ s.normValues p.kind vs))) := by
  obtain ⟨hlayout, hpackable⟩ := layout_of_isPacked hpacked
  have hkind := (hs.member name _ (mem_of_getElem? hp)).sentinelFree _ _ (kind?_field p)
  rw [flatMap_bareBytes] at hlength ⊢
  have hblock :
      Reads (s.readPacked (s.readWithin budget) p.kind) depth _ (s.normValues p.kind vs) :=
    s.reads_readPacked (Reader.reads_of_isNumber hlength depth) hlength.toNat.symm
      (itemsRead_bare hkind hpackable hvs (Piece.short_of_length_lt hlength.lt))
  apply hs.reads_own hp hi
  simp only [readMember, hlayout, hpacked, Bool.true_and, beq_self_eq_true, if_true]
  exact hblock.map fun vs => Slot.repeated (acc ++ vs)

/-- A single value is added. -/
lemma Sound.reads_single (hpacked : p.isPacked) {v : Value} (hv : Fits s p.kind v)
    (budget depth : Nat) (hi : i < slots.length) (acc : List Value) :
    Reads ((Container.message name).field s budget p.field.number p.kind.wireType
        (slots.set i (.repeated acc))) depth (s.bareBytes p.kind v)
      (slots.set i (.repeated (acc ++ [s.normValue p.kind v]))) := by
  obtain ⟨hlayout, hpackable⟩ := layout_of_isPacked hpacked
  have hkind := (hs.member name _ (mem_of_getElem? hp)).sentinelFree _ _ (kind?_field p)
  have hvalue : Reads (s.readValue (s.readWithin budget) p.kind) depth _ (s.normValue p.kind v) :=
    reads_bare hv hkind hpackable (short_barePieces hpackable v)
  apply hs.reads_own hp hi
  simp only [readMember, hlayout, hpacked, Bool.true_and, wireType_beq_two hpackable,
    Bool.false_eq_true, if_false]
  rw [bareBytes_eq]
  exact hvalue.map fun v => Slot.repeated (acc ++ [v])

end

variable {members : List Member} {slots : List Slot}

lemma lt_length_of_shaped {m : Member} (hm : members[i]? = some m)
    (h : List.Forall₂ Shaped members slots) : i < slots.length := by
  rw [← h.length_eq]
  exact (List.getElem?_eq_some_iff.mp hm).1

/-- A slot of the right shape can be put in the place of another one. -/
lemma shaped_set {m : Member} {slot : Slot} (h : List.Forall₂ Shaped members slots)
    (hm : members[i]? = some m) (hslot : Shaped m slot) :
    List.Forall₂ Shaped members (slots.set i slot) := by
  induction h generalizing i with
  | nil => exact .nil
  | cons hhead htail ih =>
    cases i with
    | zero =>
      obtain rfl := Option.some.inj hm
      exact .cons hslot htail
    | succ i => exact .cons hhead (ih hm)

/-- A record that ends where its form says, and the records after it. -/
lemma recordsRead_record_iff {budget depth tag levels : Nat} {head value bytes : List UInt8}
    {start m : Message} (hhead : IsNumber tag head)
    (hvalue : IsValue ((Container.message name).form s (tag / 8) (tag % 8)) levels value)
    (hstart : List.Forall₂ Shaped (s.members name) start) :
    RecordsRead ((Container.message name).field s budget) depth (head ++ value ++ bytes) start m ↔
      ∃ t, Reads ((Container.message name).field s budget (tag / 8) (tag % 8) start) depth value t ∧
        RecordsRead ((Container.message name).field s budget) depth bytes t m := by
  have htag := Reader.reads_of_isNumber hhead depth
  constructor
  · intro h
    rw [append_assoc] at h
    obtain ⟨body, rest, t, hrest, hbody, htail⟩ := h.uncons htag
    rw [hhead.toNat] at hbody
    have hends : Ends ((Container.message name).field s budget (tag / 8) (tag % 8) start) _ :=
      Container.ends_field hstart
    obtain ⟨rfl, rfl⟩ := hends.eq_of_reads hvalue hbody hrest
    exact ⟨t, hbody, htail⟩
  · rintro ⟨t, hbody, htail⟩
    rw [← hhead.toNat] at hbody
    exact .record htag hbody htail

end Schema

lemma Container.good_of_recordsRead {s : Schema} {c : Container} {budget depth : Nat}
    {bytes : List UInt8} {st st' : c.State} (hst : c.Good s st)
    (h : RecordsRead (c.field s budget) depth bytes st st') : c.Good s st' := by
  induction h with
  | done => exact hst
  | record _ hbody _ ih => exact ih (good_of_field hst (hbody 0 []))

namespace Interleaved

variable {s : Schema} {name : String} {p : FieldPlan} {i : Nat}

variable {bytes others : List UInt8}

/-- The records of all fields are read exactly if those of the other fields are, and then the slot
of the field holds in addition what its records hold. -/
lemma recordsRead_iff (hs : s.Sound) (hp : (s.members name)[i]? = some (.field p))
    (hpacked : p.isPacked) {vs : List Value} (h : Interleaved s name p bytes vs others)
    (hvs : ∀ v ∈ vs, Fits s p.kind v) (budget depth : Nat) {start : Message}
    (hstart : List.Forall₂ Shaped (s.members name) start) (acc : List Value) (m : Message) :
    RecordsRead ((Container.message name).field s budget) depth bytes
        (start.set i (.repeated acc)) m ↔
      ∃ m₀, RecordsRead ((Container.message name).field s budget) depth others start m₀ ∧
        m = m₀.set i (.repeated (acc ++ s.normValues p.kind vs)) := by
  obtain ⟨hlayout, -⟩ := layout_of_isPacked hpacked
  induction h generalizing start acc with
  | done =>
    simp only [recordsRead_nil_iff, normValues, append_nil, exists_eq_left]
  | @block head length bytes others vs us hhead hlength _ ih =>
    have hblock := hs.reads_block hp hpacked (fun v hv => hvs v (by simp [hv])) hlength budget depth
      (lt_length_of_shaped hp hstart) acc
    have hdiv : (p.field.number * 8 + 2) / 8 = p.field.number := by omega
    have hmod : (p.field.number * 8 + 2) % 8 = 2 := by omega
    have hus : ∀ v ∈ us, Fits s p.kind v := fun v hv => hvs v (by simp [hv])
    have hmore := ih hus hstart (acc ++ s.normValues p.kind vs)
    rw [append_assoc, ← normValues_append] at hmore
    exact (recordsRead_tag_iff hhead (by rwa [hdiv, hmod])).trans hmore
  | @single head bytes others v us hhead _ ih =>
    have hsingle := hs.reads_single hp hpacked (hvs v (by simp)) budget depth
      (lt_length_of_shaped hp hstart) acc
    have hlt := p.kind.wireType_lt
    have hdiv : (p.field.number * 8 + p.kind.wireType) / 8 = p.field.number := by omega
    have hmod : (p.field.number * 8 + p.kind.wireType) % 8 = p.kind.wireType := by omega
    have hus : ∀ v ∈ us, Fits s p.kind v := fun v hv => hvs v (by simp [hv])
    have hmore := ih hus hstart (acc ++ [s.normValue p.kind v])
    rw [append_assoc, singleton_append] at hmore
    exact (recordsRead_tag_iff hhead (by rwa [hdiv, hmod])).trans hmore
  | @other tag levels head value bytes others us hhead hnumber hvalue _ ih =>
    have hset := shaped_set hstart hp (.repeated acc hlayout)
    have hnone : (field p).kind? (tag / 8) = none := if_neg fun h => hnumber h.symm
    have hbeside : (Container.message name).field s budget (tag / 8) (tag % 8)
          (start.set i (.repeated acc)) =
        (do
          let t ← (Container.message name).field s budget (tag / 8) (tag % 8) start
          return t.set i (.repeated acc)) :=
      readRecord_set_other hp hnone (lt_length_of_shaped hp hstart) _
    have hfield := Container.field_determined s budget (.message name)
    rw [recordsRead_record_iff hhead hvalue hset]
    constructor
    · rintro ⟨t, hread, hrest⟩
      rw [hbeside] at hread
      obtain ⟨t₀, hread₀, rfl⟩ := (hfield _ _ start).exists_of_reads_map hread
      have ht₀ := Container.good_of_field (c := .message name) hstart (hread₀ 0 [])
      obtain ⟨m₀, hothers, rfl⟩ := (ih hvs ht₀ acc).mp hrest
      exact ⟨m₀, (recordsRead_record_iff hhead hvalue hstart).mpr ⟨t₀, hread₀, hothers⟩, rfl⟩
    · rintro ⟨m₀, hothers, rfl⟩
      obtain ⟨t₀, hread₀, hrest₀⟩ := (recordsRead_record_iff hhead hvalue hstart).mp hothers
      have ht₀ := Container.good_of_field (c := .message name) hstart (hread₀ 0 [])
      refine ⟨t₀.set i (.repeated acc), ?_, (ih hvs ht₀ acc).mpr ⟨m₀, hrest₀, rfl⟩⟩
      rw [hbeside]
      exact hread₀.map fun t => t.set i (.repeated acc)

lemma without {vs : List Value} (h : Interleaved s name p bytes vs others) :
    Interleaved s name p others [] others := by
  induction h with
  | done => exact .done
  | block _ _ _ ih | single _ _ ih => exact ih
  | other hhead hnumber hvalue _ ih => exact .other hhead hnumber hvalue ih

end Interleaved

namespace Schema

variable {files : List Descriptor.File} {options : Options} {s : Schema} {name : String}
  {p : FieldPlan} {i : Nat}

lemma zero_set_repeated (hp : (s.members name)[i]? = some (.field p))
    (hlayout : p.layout = .repeated) : (s.zero name).set i (.repeated []) = s.zero name := by
  have hslot : (s.zero name)[i]? = some (.repeated []) := by simp [zero, hp, zeroSlot, hlayout]
  obtain ⟨hi, hslot⟩ := List.getElem?_eq_some_iff.mp hslot
  rw [← hslot, set_getElem_self]

/-- Packed and unpacked encodings are interchangeable. Whatever runs a writer cuts the values of a
packable field into, and whatever records of other fields it writes between them, a decoder accepts
the message exactly if it accepts the other records alone. It then finds the values in the order of
the wire, and all else as in the message without them. -/
theorem decode_interleaved (hs : ofFiles files options = .ok s) (hc : s.Compiles)
    (hp : (s.members name)[i]? = some (.field p)) (hpacked : p.isPacked = true)
    {bytes others : List UInt8} {vs : List Value} (h : Interleaved s name p bytes vs others)
    (hvs : ∀ v ∈ vs, Fits s p.kind v) (m : Message) :
    s.decode name bytes = .ok m ↔
      ∃ m₀, s.decode name others = .ok m₀ ∧ m₀[i]? = some (.repeated []) ∧
        m = m₀.set i (.repeated (s.normValues p.kind vs)) := by
  have hsound := hc.sound hs
  obtain ⟨hlayout, -⟩ := layout_of_isPacked hpacked
  have hzero := zero_set_repeated hp hlayout
  have hshaped := s.shaped_zero name
  have hall := h.recordsRead_iff hsound hp hpacked hvs recursionLimit 0 hshaped []
  have hothers := h.without.recordsRead_iff hsound hp hpacked (by simp)
    recursionLimit 0 hshaped []
  rw [hzero] at hall hothers
  simp only [decode_eq_ok_iff]
  rw [hall]
  constructor
  · rintro ⟨m₀, hread, rfl⟩
    -- Read on their own, the other records leave the slot as it was at the start.
    obtain ⟨m₁, hread₁, rfl⟩ := (hothers m₀).mp hread
    have hgood₁ := Container.good_of_recordsRead (c := .message name) hshaped hread₁
    have hi := lt_length_of_shaped hp hgood₁
    exact ⟨m₁.set i (.repeated []), hread, List.getElem?_set_self hi, rfl⟩
  · rintro ⟨m₀, hread, -, rfl⟩
    exact ⟨m₀, hread, rfl⟩

/-! ## The points of a line -/

private def lineFile : Descriptor.File :=
  { name := "line.proto"
    package := "draw"
    dialect := "proto3"
    messages := [{
      name := "Line"
      fields := [
        Sample.many (Sample.scalar .sint64 "points" 1), Sample.scalar .int32 "width" 2] }] }

private def lineSchema : Schema := planned [lineFile] { longs := .decimal }

private lemma lineSchema_compiles :
    ofFiles [lineFile] { longs := .decimal } = .ok lineSchema ∧ lineSchema.Compiles :=
  planned_compiles _ _ (by decide +kernel)

private lemma exists_points : ∃ points,
    (lineSchema.members ".draw.Line")[0]? = some (.field points) ∧ points.field.number = 1 ∧
      points.kind = .scalar .sint64 ∧ points.isPacked :=
  exists_field _ (by decide +kernel)

/-- The points `1` and `-2` in a block, the width, an empty block, and a last point on its own. -/
private lemma interleaved_points {points : FieldPlan} (hnumber : points.field.number = 1)
    (hkind : points.kind = .scalar .sint64) :
    Interleaved lineSchema ".draw.Line" points [10, 2, 2, 3, 16, 7, 10, 0, 8, 14]
      [.scalar (.string "1"), .scalar (.string "-2"), .scalar (.string "007")] [16, 7] := by
  have hpair : [Value.scalar (.string "1"), .scalar (.string "-2")].flatMap
      (lineSchema.bareBytes points.kind) = [2, 3] := by
    rw [hkind]
    decide +kernel
  have hseven : lineSchema.bareBytes points.kind (.scalar (.string "007")) = [14] := by
    rw [hkind]
    decide +kernel
  have hblock : IsNumber (points.field.number * 8 + 2) [10] := by
    rw [hnumber]
    exact isNumber_singleton (b := 10) (by decide)
  have hsingle : IsNumber (points.field.number * 8 + points.kind.wireType) [8] := by
    rw [hnumber, hkind]
    exact isNumber_singleton (b := 8) (by decide)
  have hform : (Container.message ".draw.Line").form lineSchema 2 0 = 0 := by decide +kernel
  have hother : IsValue ((Container.message ".draw.Line").form lineSchema (16 / 8) (16 % 8)) 0
      [7] := by
    rw [hform]
    exact .plain (.varint (isNumber_singleton (b := 7) (by decide)).1)
  have hempty : IsNumber (([] : List Value).flatMap (lineSchema.bareBytes points.kind)).length
      [0] := isNumber_singleton (b := 0) (by decide)
  have hlength : IsNumber ([Value.scalar (.string "1"), .scalar (.string "-2")].flatMap
      (lineSchema.bareBytes points.kind)).length [2] := by
    rw [hpair]
    exact isNumber_singleton (b := 2) (by decide)
  have hall := Interleaved.block hblock hlength
    (.other (isNumber_singleton (b := 16) (by decide)) (by simp [hnumber]) hother
      (.block hblock hempty (.single (v := .scalar (.string "007")) hsingle .done)))
  simpa [hpair, hseven] using hall

/-- All points are there, in order and with their numbers spelled out, beside the width. -/
theorem decode_interleaved_line : ∃ (s : Schema) (points : FieldPlan),
    ofFiles [lineFile] { longs := .decimal } = .ok s ∧ s.Compiles ∧
    (s.members ".draw.Line")[0]? = some (.field points) ∧ points.isPacked = true ∧
    Interleaved s ".draw.Line" points [10, 2, 2, 3, 16, 7, 10, 0, 8, 14]
      [.scalar (.string "1"), .scalar (.string "-2"), .scalar (.string "007")] [16, 7] ∧
    s.decode ".draw.Line" [10, 2, 2, 3, 16, 7, 10, 0, 8, 14] =
      .ok [.repeated [.scalar (.string "1"), .scalar (.string "-2"), .scalar (.string "7")],
        .plain (.scalar (.int32 7))] := by
  obtain ⟨hs, hc⟩ := lineSchema_compiles
  obtain ⟨points, hp, hnumber, hkind, hpacked⟩ := exists_points
  have hinterleaved := interleaved_points hnumber hkind
  have hfits (v : Value)
      (hv : v ∈ [.scalar (.string "1"), .scalar (.string "-2"), .scalar (.string "007")]) :
      Fits lineSchema points.kind v := by
    rw [hkind]
    exact valuesFit_sound _ (by decide +kernel) v hv
  have hwidth : lineSchema.decode ".draw.Line" [16, 7] =
      .ok [.repeated [], .plain (.scalar (.int32 7))] := by decide +kernel
  have hvalues : lineSchema.normValues points.kind
      [.scalar (.string "1"), .scalar (.string "-2"), .scalar (.string "007")] =
        [.scalar (.string "1"), .scalar (.string "-2"), .scalar (.string "7")] := by
    rw [hkind]
    decide +kernel
  refine ⟨lineSchema, points, hs, hc, hp, hpacked, hinterleaved, ?_⟩
  refine (decode_interleaved hs hc hp hpacked hinterleaved hfits _).mpr ⟨_, hwidth, rfl, ?_⟩
  rw [hvalues]
  rfl

end Schema

end Protobuf.Codec
