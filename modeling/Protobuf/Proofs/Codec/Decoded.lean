import Protobuf.Proofs.Codec.RelatedReads
import Protobuf.Proofs.Codec.RoundTrip

/-!
# What a decoder makes

Whatever bytes it is given, a decoder makes messages of a special kind: numbers that
are held as text are numerals, the keys of a map are distinct, and messages are
nested no deeper than the reader goes. The value that a map entry lacks is filled in,
though, and if it is a message it may be one level deeper than the entry was.
-/

lemma Protobuf.Schema.Enum.has_unset (e : Enum) : e.has e.unset := by
  unfold unset
  split_ifs with hzero
  · exact hzero
  · split
    · rename_i v vs hvalues
      simp [has, hvalues]
    · rfl

open Protobuf.Wire.Reader Protobuf.Wire.Read

namespace Protobuf.Codec

open Plan Wire List

variable {s : Schema}

mutual

/-- The value is what one of a kind is read as, if messages can be nested `levels` deep in it. -/
inductive Made (s : Schema) : (levels : Nat) → ValueKind → Value → Prop
  | scalar {levels : Nat} {t : Scalar} {p : Primitive} : t.holds p = true →
      Made s levels (.scalar t) (.scalar (s.present t p))
  | choice {levels : Nat} {ref : Schema.TypeRef} {e : Schema.Enum} {c : Choice} :
      e.has c = true → Made s levels (.enum ref e) (.choice c)
  | wrapper {levels : Nat} {k : Wrapper} {p : Primitive} : k.scalar.holds p = true →
      Made s levels (.wrapper k) (.scalar p)
  | time {levels : Nat} (t : Time.Instant) : Made s (levels + 1) .timestamp (.time t)
  | message {levels : Nat} {ref : Schema.TypeRef} {m : Message} :
      (s.members ref.qualifiedName).length = m.length →
      (∀ x ∈ (s.members ref.qualifiedName).zip m, SlotMade s levels x.1 x.2) →
      Made s (levels + 1) (.message ref) (.message m)

/-- The entry is what one of a map is read as, if messages can be nested `levels` deep in it. A
value that it lacks is filled in. -/
inductive EntryMade (s : Schema) :
    (levels : Nat) → (key value : FieldPlan) → Primitive × Value → Prop
  | value {levels : Nat} {key value : FieldPlan} {t : Scalar} {k : Primitive} {v : Value} :
      key.kind = .scalar t → t.holds k = true → Made s levels value.kind v →
      EntryMade s levels key value (s.present t k, v)
  | missing {levels : Nat} {key value : FieldPlan} {t : Scalar} {k : Primitive} :
      key.kind = .scalar t → t.holds k = true → value.layout = .optional →
      EntryMade s levels key value (s.present t k, s.missingValue value.kind)

/-- The slot is what a member is read as, if messages can be nested `levels` deep in it. -/
inductive SlotMade (s : Schema) : (levels : Nat) → Member → Slot → Prop
  | plain {levels : Nat} {p : FieldPlan} {v : Value} : p.layout = .plain →
      Made s levels p.kind v → SlotMade s levels (.field p) (.plain v)
  | absent {levels : Nat} {p : FieldPlan} : p.layout = .optional →
      SlotMade s levels (.field p) (.optional none)
  | present {levels : Nat} {p : FieldPlan} {v : Value} : p.layout = .optional →
      Made s levels p.kind v → SlotMade s levels (.field p) (.optional (some v))
  | repeated {levels : Nat} {p : FieldPlan} {vs : List Value} : p.layout = .repeated →
      (∀ v ∈ vs, Made s levels p.kind v) → SlotMade s levels (.field p) (.repeated vs)
  | empty {levels : Nat} {p key value : FieldPlan} {entry : Schema.TypeRef} :
      p.layout = .map entry key value → SlotMade s levels (.field p) (.map [])
  | map {levels : Nat} {p key value : FieldPlan} {entry : Schema.TypeRef}
      {entries : List (Primitive × Value)} : p.layout = .map entry key value →
      (∀ e ∈ entries, EntryMade s levels key value e) → (entries.map Prod.fst).Nodup →
      SlotMade s (levels + 1) (.field p) (.map entries)
  | unset {levels : Nat} (u : UnionPlan) : SlotMade s levels (.union u) (.union none)
  | chosen {levels : Nat} {u : UnionPlan} {number : Nat} {kind : ValueKind} {v : Value} :
      (Member.union u).kind? number = some kind → Made s levels kind v →
      SlotMade s levels (.union u) (.union (some (number, v)))

end

/-- The message is what one of the type with a qualified name is read as, if messages can be nested
`levels` deep in it. -/
def MessageMade (s : Schema) (levels : Nat) (name : String) (m : Message) : Prop :=
  List.Forall₂ (SlotMade s levels) (s.members name) m

variable {levels : Nat}

lemma made_message {ref : Schema.TypeRef} {m : Message} :
    Made s (levels + 1) (.message ref) (.message m) ↔ MessageMade s levels ref.qualifiedName m := by
  rw [MessageMade, forall₂_iff_zip]
  constructor
  · intro h
    cases h with
    | message hlength hslots => exact ⟨hlength, fun hx => hslots _ hx⟩
  · rintro ⟨hlength, hslots⟩
    exact .message hlength fun _ hx => hslots hx

def Schema.AllWellPlanned (s : Schema) : Prop :=
  ∀ {name : String} {p : FieldPlan}, .field p ∈ s.members name → s.WellPlanned p

/-! ## What is there before the first record -/

section

variable (hplan : s.AllWellPlanned)

include hplan

lemma slotMade_zeroSlot {name : String} {member : Member} (hmember : member ∈ s.members name)
    (levels : Nat) : SlotMade s levels member (s.zeroSlot member) := by
  cases member with
  | union u => exact .unset u
  | field p =>
    simp only [Schema.zeroSlot]
    cases hlayout : p.layout with
    | plain =>
      refine .plain hlayout ?_
      rcases (hplan hmember).plain hlayout with ⟨t, ht⟩ | ⟨ref, e, he⟩
      · have hholds : t.holds t.zero := by cases t <;> rfl
        rw [ht, Schema.zeroSimple, ← s.present_zero]
        exact .scalar hholds
      · rw [he]
        exact .choice e.has_unset
    | optional => exact .absent hlayout
    | repeated => exact .repeated hlayout (by simp)
    | map entry key value => exact .empty hlayout

lemma messageMade_zero (levels : Nat) (name : String) :
    MessageMade s levels name (s.zero name) := by
  rw [MessageMade, Schema.zero, forall₂_map_right_iff]
  exact forall₂_same.mpr fun _ hmember => slotMade_zeroSlot hplan hmember levels

end

/-! ## What is read -/

lemma holds_of_read {t : Scalar} {p : Primitive} {r r' : Reader} (h : t.read r = .ok p r') :
    t.holds p := by
  rcases lockstep_read t r with ⟨e, _, herror, -⟩ | ⟨q, _, _, hok, -, -, hq⟩
  · rw [h] at herror
    cases herror
  · rw [h] at hok
    cases hok
    exact hq

lemma holds_of_wrapper {k : Wrapper} {p : Primitive} {r r' : Reader}
    (h : k.read r = .ok p r') : k.scalar.holds p := by
  obtain ⟨length, ⟨pos, rest, depth⟩, -, hframe⟩ := bind_eq_ok.mp h
  obtain ⟨taken, left, -, -, -, hrecords⟩ := recordsRead_of_frame k.field_determined hframe
  refine hrecords.keeps (P := fun p => k.scalar.holds p = true) ?_ ?_
  · intro number wireType q body p hq hbody
    have hrun := hbody 0 []
    by_cases hnumber : number = 1
    · rw [Wrapper.field, if_pos hnumber] at hrun
      exact holds_of_read hrun
    · rw [Wrapper.field, if_neg hnumber] at hrun
      obtain ⟨⟨⟩, r₁, -, hpure⟩ := bind_eq_ok.mp hrun
      cases hpure
      exact hq
  · cases k <;> rfl

/-- The reader of messages makes messages as deep as the limit lets it. -/
def Makes (s : Schema) (inner : MessageReader) : Prop :=
  ∀ {levels : Nat} {name : String} {n : Nat} {m : Message} {r r' : Reader},
    r.depth + levels = recursionLimit → inner name (some n) r = .ok m r' →
    MessageMade s levels name m

section

variable {fuel levels : Nat} (hinner : Makes s (s.readWithin fuel))

include hinner

variable {kind : ValueKind}

lemma made_of_readValue {v : Value} {r r' : Reader} (hdepth : r.depth + levels = recursionLimit)
    (h : s.readValue (s.readWithin fuel) kind r = .ok v r') : Made s levels kind v := by
  cases kind with
  | scalar t =>
    obtain ⟨p, r₁, hread, hpure⟩ := bind_eq_ok.mp h
    cases hpure
    rw [s.readScalar_eq] at hread
    obtain ⟨p, r₂, hread, hpure⟩ := bind_eq_ok.mp hread
    cases hpure
    exact .scalar (holds_of_read hread)
  | enum ref e =>
    obtain ⟨n, r₁, -, hpure⟩ := bind_eq_ok.mp h
    cases hpure
    refine .choice ?_
    unfold Protobuf.Schema.Enum.ofNumber
    split_ifs with hn
    · exact hn
    · rfl
  | wrapper k =>
    obtain ⟨p, r₁, hread, hpure⟩ := bind_eq_ok.mp h
    cases hpure
    exact .wrapper (holds_of_wrapper hread)
  | timestamp =>
    obtain ⟨t, r₁, hread, hpure⟩ := bind_eq_ok.mp h
    cases hpure
    obtain ⟨hlt, -⟩ := message_eq_ok hread
    obtain ⟨levels, rfl⟩ : ∃ k, levels = k + 1 := ⟨levels - 1, by omega⟩
    exact .time _
  | message ref =>
    obtain ⟨m, r₁, hread, hpure⟩ := bind_eq_ok.mp h
    cases hpure
    obtain ⟨hlt, n, r₂, r₃, hdepth₂, hm⟩ := message_eq_ok hread
    obtain ⟨levels, rfl⟩ : ∃ k, levels = k + 1 := ⟨levels - 1, by omega⟩
    exact made_message.mpr (hinner (by omega) hm)

lemma made_of_itemsRead {depth : Nat} {bytes : List UInt8} {vs : List Value}
    (hdepth : depth + levels = recursionLimit)
    (h : ItemsRead (s.readValue (s.readWithin fuel) kind) depth bytes vs) :
    ∀ v ∈ vs, Made s levels kind v := by
  induction h with
  | done => simp
  | item hread _ _ ih =>
    intro v hv
    rcases mem_cons.mp hv with rfl | hv
    · exact made_of_readValue hinner hdepth (hread 0 [])
    · exact ih v hv

lemma made_of_readPacked {vs : List Value} {r r' : Reader}
    (hdepth : r.depth + levels = recursionLimit)
    (h : s.readPacked (s.readWithin fuel) kind r = .ok vs r') : ∀ v ∈ vs, Made s levels kind v := by
  obtain ⟨stop, r₁, hend, h⟩ := bind_eq_ok.mp h
  obtain ⟨n, r₂, hlength, hend⟩ := bind_eq_ok.mp hend
  obtain ⟨taken, left, -, rfl, -⟩ := uint32_determined _ _ _ _ _ hlength
  obtain ⟨rfl, rfl⟩ := frameEnd_eq_ok hend
  rw [bind_ok (get_ok _)] at h
  obtain ⟨us, r₃, hitems, h⟩ := bind_eq_ok.mp h
  obtain ⟨⟨⟩, r₄, -, hpure⟩ := bind_eq_ok.mp h
  cases hpure
  obtain ⟨bytes, left, us, -, -, rfl, hitems⟩ := itemsRead_of_itemsUntil
    (s.readValue_determined (s.readWithin_determined fuel) kind) (s.not_readValue_nil _ kind)
    hitems
  exact made_of_itemsRead hinner hdepth hitems

end

/-! ## Map entries -/

/-- An entry that was read as a message has a key, and a value or none. -/
lemma entryMade_of_messageMade {entry : Schema.TypeRef} {key value : FieldPlan} {t : Scalar}
    {m : Message} {e : Primitive × Value}
    (hmembers : s.members entry.qualifiedName = [.field key, .field value])
    (hplain : key.layout = .plain) (hkind : key.kind = .scalar t)
    (hm : MessageMade s levels entry.qualifiedName m)
    (he : entryOf? (s.missingValue value.kind) m = some e) : EntryMade s levels key value e := by
  rw [MessageMade, hmembers] at hm
  obtain ⟨x, rest, hx, hrest, rfl⟩ := forall₂_cons_left_iff.mp hm
  obtain ⟨y, none, hy, hnone, rfl⟩ := forall₂_cons_left_iff.mp hrest
  obtain rfl := forall₂_nil_left_iff.mp hnone
  cases hx with
  | plain _ hk =>
    rw [hkind] at hk
    cases hk with
    | scalar hk =>
      cases hy with
      | plain _ hv =>
        cases he
        exact .value hkind hk hv
      | absent hoptional =>
        cases he
        exact .missing hkind hk hoptional
      | present _ hv =>
        cases he
        exact .value hkind hk hv
      | repeated _ _ | empty _ | map _ _ _ => cases he
  | absent hother | present hother _ | repeated hother _ | empty hother | map hother _ _ =>
    simp [hplain] at hother

/-! ## Records -/

/-- The entries of a slot, each made if there is a level left for them. -/
lemma SlotMade.entries {levels : Nat} {p key value : FieldPlan} {entry : Schema.TypeRef}
    {slot : Slot} (h : SlotMade s levels (.field p) slot)
    (hlayout : p.layout = .map entry key value) :
    ∃ entries, slot = .map entries ∧ (entries.map Prod.fst).Nodup ∧
      ∀ l, levels = l + 1 → ∀ e ∈ entries, EntryMade s l key value e := by
  cases h with
  | empty _ => exact ⟨[], rfl, by simp, by simp⟩
  | map hother hentries hnodup =>
    rw [hlayout] at hother
    cases hother
    refine ⟨_, rfl, hnodup, fun l hl => ?_⟩
    cases hl
    exact hentries
  | plain hother | absent hother | present hother | repeated hother => simp [hlayout] at hother

lemma SlotMade.values {p : FieldPlan} {slot : Slot} (h : SlotMade s levels (.field p) slot)
    (hlayout : p.layout = .repeated) :
    ∃ vs, slot = .repeated vs ∧ ∀ v ∈ vs, Made s levels p.kind v := by
  cases h with
  | repeated _ hvs => exact ⟨_, rfl, hvs⟩
  | plain hother | absent hother | present hother | empty hother | map hother =>
    simp [hlayout] at hother

section

variable (hs : s.Sound) (hplan : s.AllWellPlanned) {fuel levels : Nat}
  (hinner : Makes s (s.readWithin fuel))

include hs hplan hinner

variable {name : String} {number wireType : Nat} {r' : Reader}

/-- A record of a map puts one more entry in. -/
lemma slotMade_of_readEntry {p key value : FieldPlan} {entry : Schema.TypeRef} {slot slot' : Slot}
    {r : Reader} (hmember : .field p ∈ s.members name) (hlayout : p.layout = .map entry key value)
    (hslot : SlotMade s levels (.field p) slot) (hdepth : r.depth + levels = recursionLimit)
    (h : s.readMember (s.readWithin fuel) number wireType p.kind (.field p) slot r = .ok slot' r') :
    SlotMade s levels (.field p) slot' := by
  obtain ⟨t, ht⟩ := (hplan hmember).key hlayout
  obtain ⟨hmembers, hkey, -⟩ :=
    (hs.member name _ hmember).entry_members p entry key value rfl hlayout
  obtain ⟨entries, rfl, hnodup, hentries⟩ := hslot.entries hlayout
  simp only [Schema.readMember, hlayout] at h
  obtain ⟨m, r₁, hread, hrest⟩ := bind_eq_ok.mp h
  obtain ⟨hlt, n, r₂, r₃, hdepth₂, hm⟩ := message_eq_ok hread
  -- The entry is a message, so it takes up a level.
  obtain ⟨levels, rfl⟩ : ∃ l, levels = l + 1 := ⟨levels - 1, by omega⟩
  have hmade : MessageMade s levels entry.qualifiedName m := hinner (by omega) hm
  cases he : entryOf? (s.missingValue value.kind) m with
  | none =>
    rw [he] at hrest
    cases hrest
    exact .map hlayout (hentries levels rfl) hnodup
  | some e =>
    rw [he] at hrest
    cases hrest
    refine .map hlayout (fun d hd => ?_) (nodup_putEntry hnodup)
    rcases mem_putEntry hd with rfl | hd
    · exact entryMade_of_messageMade hmembers hkey ht hmade he
    · exact hentries levels rfl d hd

/-- A record of a member keeps what was made of the ones before it. -/
lemma slotMade_of_readMember {kind : ValueKind} {member : Member} {slot slot' : Slot} {r : Reader}
    (hmember : member ∈ s.members name) (hkind : member.kind? number = some kind)
    (hslot : SlotMade s levels member slot) (hdepth : r.depth + levels = recursionLimit)
    (h : s.readMember (s.readWithin fuel) number wireType kind member slot r = .ok slot' r') :
    SlotMade s levels member slot' := by
  have hvalue {v : Value} {r' : Reader}
      (h : s.readValue (s.readWithin fuel) kind r = .ok v r') : Made s levels kind v :=
    made_of_readValue hinner hdepth h
  cases member with
  | union u =>
    obtain ⟨v, r₁, hread, hpure⟩ := bind_eq_ok.mp h
    cases hpure
    exact .chosen hkind (hvalue hread)
  | field p =>
    obtain rfl : kind = p.kind := by
      simp only [Member.kind?] at hkind
      split_ifs at hkind
      exact (Option.some.inj hkind).symm
    cases hlayout : p.layout with
    | map entry key value =>
      exact slotMade_of_readEntry hs hplan hinner hmember hlayout hslot hdepth h
    | plain =>
      simp only [Schema.readMember, hlayout] at h
      obtain ⟨v, r₁, hread, hpure⟩ := bind_eq_ok.mp h
      cases hpure
      exact .plain hlayout (hvalue hread)
    | optional =>
      simp only [Schema.readMember, hlayout] at h
      obtain ⟨v, r₁, hread, hpure⟩ := bind_eq_ok.mp h
      cases hpure
      exact .present hlayout (hvalue hread)
    | repeated =>
      obtain ⟨vs, rfl, hvs⟩ := hslot.values hlayout
      simp only [Schema.readMember, hlayout] at h
      split_ifs at h
      · obtain ⟨us, r₁, hread, hpure⟩ := bind_eq_ok.mp h
        cases hpure
        refine .repeated hlayout fun v hv => ?_
        exact (mem_append.mp hv).elim (hvs v) (made_of_readPacked hinner hdepth hread v)
      · obtain ⟨u, r₁, hread, hpure⟩ := bind_eq_ok.mp h
        cases hpure
        refine .repeated hlayout fun v hv => ?_
        rcases mem_append.mp hv with hv | hv
        · exact hvs v hv
        · rw [mem_singleton.mp hv]
          exact hvalue hread

lemma slotsMade_of_readRecord {members : List Member} (hmembers : members ⊆ s.members name)
    {m m' : Message} {r : Reader} (hm : List.Forall₂ (SlotMade s levels) members m)
    (hdepth : r.depth + levels = recursionLimit)
    (h : s.readRecord (s.readWithin fuel) number wireType members m r = .ok m' r') :
    List.Forall₂ (SlotMade s levels) members m' := by
  induction hm generalizing m' r r' with
  | nil =>
    obtain ⟨⟨⟩, r₁, -, hpure⟩ := bind_eq_ok.mp h
    cases hpure
    exact .nil
  | @cons member slot members slots hslot hslots ih =>
    obtain ⟨hmember, hrest⟩ := cons_subset.mp hmembers
    unfold Schema.readRecord at h
    cases hkind : member.kind? number with
    | some kind =>
      rw [hkind] at h
      obtain ⟨slot', r₁, hread, hpure⟩ := bind_eq_ok.mp h
      cases hpure
      exact .cons (slotMade_of_readMember hs hplan hinner hmember hkind hslot hdepth hread)
        hslots
    | none =>
      rw [hkind] at h
      obtain ⟨slots', r₁, hread, hpure⟩ := bind_eq_ok.mp h
      cases hpure
      exact .cons hslot (ih hrest hdepth hread)

lemma messageMade_of_recordsRead {depth : Nat} {bytes : List UInt8} {m : Message}
    (hdepth : depth + levels = recursionLimit)
    (h : RecordsRead (fun number wireType =>
      s.readRecord (s.readWithin fuel) number wireType (s.members name)) depth bytes (s.zero name)
        m) :
    MessageMade s levels name m := by
  refine h.keeps (P := MessageMade s levels name) ?_ (messageMade_zero hplan levels name)
  intro number wireType m body m' hm hbody
  exact slotsMade_of_readRecord hs hplan hinner (List.Subset.refl _) hm hdepth (hbody 0 [])

omit hinner

lemma makes_readWithin (fuel : Nat) : Makes s (s.readWithin fuel) := by
  induction fuel with
  | zero =>
    intro levels name n m r r' _ h
    cases h
  | succ fuel ih =>
    rintro levels name n m ⟨pos, rest, depth⟩ r' hdepth h
    obtain ⟨taken, left, -, -, -, hrecords⟩ := recordsRead_of_frame
      (fun number wireType slots => s.readRecord_determined (s.readWithin_determined fuel) number
        wireType (s.members name) slots) h
    exact messageMade_of_recordsRead hs hplan ih hdepth hrecords

lemma messageMade_of_decode {bytes : List UInt8} {m : Message} (h : s.decode name bytes = .ok m) :
    MessageMade s recursionLimit name m :=
  messageMade_of_recordsRead hs hplan (makes_readWithin hs hplan recursionLimit)
    (Nat.zero_add _) (s.decode_eq_ok_iff.mp h)

end

end Protobuf.Codec
