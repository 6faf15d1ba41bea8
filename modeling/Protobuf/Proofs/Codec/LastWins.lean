import Protobuf.Proofs.Codec.Superseded

/-!
# Which member of a oneof is set

A decoder that keeps a log of the numbers of its records reads the same message. With
unions the member that is set is the one whose number comes last in the log; with
siblings every member is set whose number is in it.
-/

/-! ## Reading with a log -/

open List Protobuf.Plan.Member Protobuf.Codec.Schema

namespace Protobuf.Wire

variable {α β σ τ : Type}

lemma Lockstep.exists_reads {R : α → β → Prop} {x : Read α} {y : Read β} (h : Lockstep R x y)
    (hy : Determined y) {depth : Nat} {bytes : List UInt8} {a : α} (hx : Reads x depth bytes a) :
    ∃ b, Reads y depth bytes b ∧ R a b := by
  rcases h ⟨0, bytes ++ [], depth⟩ with ⟨e, r, herror, -⟩ | ⟨a', b, r, hok, hyok, hab⟩
  · rw [hx 0 []] at herror
    cases herror
  · rw [hx 0 []] at hok
    cases hok
    obtain ⟨taken, left, htaken, hleft, hreads⟩ := hy _ _ _ _ _ hyok
    obtain rfl : [] = left := congrArg Reader.rest hleft
    rw [append_nil, append_nil] at htaken
    rw [htaken]
    exact ⟨b, hreads, hab⟩

namespace RecordsRead

variable {field : (number wireType : Nat) → σ → Read σ}
  {field' : (number wireType : Nat) → τ → Read τ} {depth : Nat} {bytes : List UInt8} {s t : σ}

lemma exists_of_lockstep {R : σ → τ → Prop}
    (hstep : ∀ number wireType s s', R s s' →
      Lockstep R (field number wireType s) (field' number wireType s'))
    (hdetermined : ∀ number wireType s', Determined (field' number wireType s'))
    (h : RecordsRead field depth bytes s t) {s' : τ} (hs : R s s') :
    ∃ t', RecordsRead field' depth bytes s' t' ∧ R t t' := by
  induction h generalizing s' with
  | done s => exact ⟨s', .done s', hs⟩
  | record htag hbody _ ih =>
    obtain ⟨u, hreads, hu⟩ := (hstep _ _ _ _ hs).exists_reads (hdetermined _ _ _) hbody
    obtain ⟨t', hrest, ht⟩ := ih hu
    exact ⟨t', .record htag hreads hrest, ht⟩

end RecordsRead

def logged (field : (number wireType : Nat) → σ → Read σ) (number wireType : Nat)
    (state : σ × List Nat) : Read (σ × List Nat) := do
  return (← field number wireType state.1, state.2 ++ [number])

def LogsAgree (R : σ → τ → Prop) (state : σ × List Nat) (state' : τ × List Nat) : Prop :=
  R state.1 state'.1 ∧ state.2 = state'.2

lemma Lockstep.logged {R : σ → τ → Prop} {field : (number wireType : Nat) → σ → Read σ}
    {field' : (number wireType : Nat) → τ → Read τ}
    (h : ∀ number wireType s s', R s s' →
      Lockstep R (field number wireType s) (field' number wireType s'))
    (number wireType : Nat) (state : σ × List Nat) (state' : τ × List Nat)
    (hstates : LogsAgree R state state') :
    Lockstep (LogsAgree R) (logged field number wireType state)
      (logged field' number wireType state') :=
  (h number wireType _ _ hstates.1).map fun _ _ hab => ⟨hab, by rw [hstates.2]⟩

section

variable {field : (number wireType : Nat) → σ → Read σ} {depth : Nat} {bytes : List UInt8}
  (hfield : ∀ number wireType s, Determined (field number wireType s))

lemma RecordsRead.exists_logged {s t : σ} (h : RecordsRead field depth bytes s t)
    (log : List Nat) : ∃ log', RecordsRead (logged field) depth bytes (s, log) (t, log') := by
  induction h generalizing log with
  | done s => exact ⟨log, .done _⟩
  | @record _ _ _ tag _ _ _ htag hbody _ ih =>
    obtain ⟨log', hrest⟩ := ih (log ++ [tag.toNat / 8])
    exact ⟨log', .record htag (hbody.map fun t => (t, log ++ [tag.toNat / 8])) hrest⟩

include hfield

lemma logged_determined (number wireType : Nat) (state : σ × List Nat) :
    Determined (logged field number wireType state) :=
  (hfield number wireType state.1).map _

lemma RecordsRead.of_logged {state state' : σ × List Nat}
    (h : RecordsRead (logged field) depth bytes state state') :
    RecordsRead field depth bytes state.1 state'.1 := by
  induction h with
  | done state => exact .done _
  | record htag hbody _ ih =>
    obtain ⟨t, hreads, rfl⟩ := (hfield _ _ _).exists_of_reads_map hbody
    exact .record htag hreads ih

end

end Protobuf.Wire

namespace Protobuf.Codec

open Plan Wire

/-- The bytes consist of records with these numbers, in this order, and are the message. -/
def Schema.HasRecords (s : Schema) (name : String) (bytes : List UInt8) (numbers : List Nat)
    (m : Message) : Prop :=
  RecordsRead (logged ((Container.message name).field s recursionLimit)) 0 bytes (s.zero name, [])
    (m, numbers)

def lastAmong (members numbers : List Nat) : Option Nat :=
  (numbers.filter (· ∈ members)).getLast?

def Schema.oneofNumbers (s : Schema) (name : String) (group : Nat) : List Nat :=
  (((s.members name).flatMap Member.places).filter fun place =>
    place.field.oneof == some group).map fun place => place.field.number

variable {s s₁ s₂ : Schema} {name : String} {bytes : List UInt8}

variable {m : Message} {log : List Nat} {number : Nat}

lemma Schema.decode_eq_ok_iff_records :
    s.decode name bytes = .ok m ↔ ∃ numbers, s.HasRecords name bytes numbers m := by
  rw [decode_eq_ok_iff]
  constructor
  · intro h
    exact h.exists_logged []
  · rintro ⟨numbers, h⟩
    exact h.of_logged (Container.field_determined s recursionLimit (.message name))

/-! ## What the log says -/

/-- What a member that is set or not holds is told by the log: with siblings, whether its number
occurs, and with unions, the last number that does. -/
def Recorded (log : List Nat) : Member → Slot → Prop
  | .field p, slot => p.layout = .optional → (slot.isSet = true ↔ p.field.number ∈ log)
  | .union u, slot => ∃ choice, slot = .union choice ∧
      choice.map Prod.fst = lastAmong (Member.union u).numbers log

lemma lastAmong_concat (members : List Nat) : lastAmong members (log ++ [number]) =
    if number ∈ members then some number else lastAmong members log := by
  split_ifs with h <;> simp [lastAmong, filter_append, h]

lemma recorded_zeroSlot (member : Member) : Recorded [] member (s.zeroSlot member) := by
  cases member with
  | field p =>
    intro hoptional
    simp [zeroSlot_of_optional hoptional, Slot.isSet]
  | union u => exact ⟨none, rfl, rfl⟩

variable {member : Member} {inner : MessageReader} {wireType : Nat} {members : List Member}

lemma Recorded.skip {slot : Slot} (h : Recorded log member slot)
    (hnumber : number ∉ member.numbers) : Recorded (log ++ [number]) member slot := by
  cases member with
  | field p =>
    have hne : p.field.number ≠ number := by simpa [numbers, eq_comm] using hnumber
    intro hoptional
    simp [h hoptional, hne]
  | union u =>
    obtain ⟨choice, rfl, hchoice⟩ := h
    exact ⟨choice, rfl, by rw [hchoice, lastAmong_concat, if_neg hnumber]⟩

lemma recorded_of_readMember {kind : ValueKind} (hnumber : number ∈ member.numbers)
    {slot slot' : Slot} {r r' : Reader} (log : List Nat)
    (h : s.readMember inner number wireType kind member slot r = .ok slot' r') :
    Recorded (log ++ [number]) member slot' := by
  cases member with
  | field p =>
    have hp : number = p.field.number := mem_singleton.mp hnumber
    intro hoptional
    simp only [readMember, hoptional] at h
    obtain ⟨v, r, -, hpure⟩ := Read.bind_eq_ok.mp h
    cases hpure
    simp [Slot.isSet, hp]
  | union u =>
    obtain ⟨v, r, -, hpure⟩ := Read.bind_eq_ok.mp h
    cases hpure
    exact ⟨_, rfl, by rw [lastAmong_concat, if_pos hnumber]; rfl⟩

lemma Recorded.skip_all (h : List.Forall₂ (Recorded log) members m)
    (hnumber : number ∉ members.flatMap Member.numbers) :
    List.Forall₂ (Recorded (log ++ [number])) members m := by
  have hnone : ∀ member ∈ members, number ∉ member.numbers := fun member hmember hmem =>
    hnumber (mem_flatMap.mpr ⟨member, hmember, hmem⟩)
  exact ((forall₂_and_left _ _).mpr ⟨hnone, h⟩).imp fun _ _ hrecorded =>
    hrecorded.2.skip hrecorded.1

lemma recorded_of_readRecord (hnumbers : (members.flatMap Member.numbers).Nodup) {m' : Message}
    {r r' : Reader} (hm : List.Forall₂ (Recorded log) members m)
    (h : s.readRecord inner number wireType members m r = .ok m' r') :
    List.Forall₂ (Recorded (log ++ [number])) members m' := by
  induction hm generalizing m' r r' with
  | nil =>
    obtain ⟨⟨⟩, r₁, -, hpure⟩ := Read.bind_eq_ok.mp h
    cases hpure
    exact .nil
  | @cons member slot members slots hslot hslots ih =>
    rw [flatMap_cons, nodup_append] at hnumbers
    obtain ⟨-, hrest, hdisjoint⟩ := hnumbers
    unfold readRecord at h
    cases hkind : member.kind? number with
    | some kind =>
      rw [hkind] at h
      obtain ⟨slot', r₁, hread, hpure⟩ := Read.bind_eq_ok.mp h
      cases hpure
      have hmem := mem_numbers_of_kind? hkind
      refine .cons (recorded_of_readMember hmem log hread) (Recorded.skip_all hslots ?_)
      exact fun hother => hdisjoint number hmem number hother rfl
    | none =>
      rw [hkind] at h
      obtain ⟨slots', r₁, hread, hpure⟩ := Read.bind_eq_ok.mp h
      cases hpure
      refine .cons (hslot.skip ?_) (ih hrest hread)
      rw [numbers_eq_places]
      intro hmem
      obtain ⟨place, hplace, hnumber⟩ := mem_map.mp hmem
      exact number_ne_of_kind? hkind place hplace hnumber

lemma Schema.HasRecords.recorded (hnumbers : ((s.members name).flatMap Member.numbers).Nodup)
    {numbers : List Nat} (h : s.HasRecords name bytes numbers m) :
    List.Forall₂ (Recorded numbers) (s.members name) m := by
  refine RecordsRead.keeps (P := fun state => List.Forall₂ (Recorded state.2) (s.members name)
    state.1) ?_ h ?_
  · intro number wireType state body state' hstate hbody
    obtain ⟨m, r, hread, hpure⟩ := Read.bind_eq_ok.mp (hbody 0 [])
    cases hpure
    exact recorded_of_readRecord hnumbers hstate hread
  · rw [zero, forall₂_map_right_iff]
    exact forall₂_same.mpr fun member _ => recorded_zeroSlot member

/-! ## Both styles -/

namespace TwoStyles

variable {group : Nat} (hs : TwoStyles s₁ s₂)

include hs

lemma optional_of_oneof {p : FieldPlan} (hp : .field p ∈ s₁.members name)
    (hgroup : p.field.oneof = some group) : p.layout = .optional := by
  have hplace : p.place ∈ (s₂.members name).flatMap Member.places :=
    (hs.places name).mem_iff.mp (mem_flatMap.mpr ⟨_, hp, mem_singleton_self _⟩)
  obtain ⟨member, hmember, hplace⟩ := mem_flatMap.mp hplace
  cases member with
  | field q =>
    have hfield : p.field = q.field := congrArg Place.field (mem_singleton.mp hplace)
    rw [hfield, hs.outside hmember] at hgroup
    cases hgroup
  | union u =>
    obtain ⟨variant, -, heq⟩ := mem_map.mp hplace
    exact Layout.shape_eq_optional.mp (congrArg Place.shape heq.symm)

lemma mem_numbers_iff {u : UnionPlan} (hu : .union u ∈ s₂.members name) (number : Nat) :
    number ∈ (Member.union u).numbers ↔ number ∈ s₂.oneofNumbers name u.group := by
  simp only [numbers_eq_places, oneofNumbers, mem_map, mem_filter,
    beq_iff_eq]
  constructor
  · rintro ⟨place, hplace, hnumber⟩
    refine ⟨place, ⟨mem_flatMap.mpr ⟨_, hu, hplace⟩, ?_⟩, hnumber⟩
    obtain ⟨variant, hvariant, rfl⟩ := mem_map.mp hplace
    exact hs.oneof_of_union hu variant hvariant
  · rintro ⟨place, ⟨hplace, hgroup⟩, hnumber⟩
    obtain ⟨member, hmember, hplace⟩ := mem_flatMap.mp hplace
    cases member with
    | field q =>
      rw [mem_singleton.mp hplace] at hgroup
      exact absurd hgroup (by simp [FieldPlan.place, hs.outside hmember])
    | union w =>
      obtain ⟨variant, hvariant, rfl⟩ := mem_map.mp hplace
      have hgroups : w.group = u.group := by
        have hw := hs.oneof_of_union hmember variant hvariant
        exact Option.some.inj (hw.symm.trans hgroup)
      obtain ⟨variant', hvariant', hsame⟩ := hs.exists_variant_of_group hu hmember hgroups hvariant
      refine ⟨variant'.place, mem_map.mpr ⟨variant', hvariant', rfl⟩, ?_⟩
      rw [← hnumber]
      exact congrArg Schema.Field.number hsame

variable {numbers : List Nat}

lemma isSet_siblings {m : Message} (h : s₁.HasRecords name bytes numbers m) {f : FieldPlan × Slot}
    (hf : f ∈ spread (s₁.members name) m) (hgroup : f.1.field.oneof = some group) :
    f.2.isSet ↔ f.1.field.number ∈ numbers := by
  obtain ⟨⟨member, slot⟩, hzip, hmem⟩ := mem_flatMap.mp hf
  have hmember := (of_mem_zip hzip).1
  obtain ⟨p, rfl⟩ := hs.siblings hmember
  have hrecorded := (forall₂_iff_zip.mp (h.recorded (hs.numbers₁ name))).2 hzip
  rw [mem_singleton.mp hmem] at hgroup ⊢
  exact hrecorded (hs.optional_of_oneof hmember hgroup)

/-- With unions, the member is set whose record came last. -/
lemma isSet_union {m : Message} (h : s₂.HasRecords name bytes numbers m) {f : FieldPlan × Slot}
    (hf : f ∈ spread (s₂.members name) m) (hgroup : f.1.field.oneof = some group) :
    f.2.isSet ↔
      lastAmong (s₂.oneofNumbers name group) numbers = some f.1.field.number := by
  have hall := h.recorded (hs.numbers₂ name)
  obtain ⟨u, slot, hzip, rfl, hfu⟩ := hs.exists_union_of_mem hf hgroup
  obtain ⟨choice, rfl, hchoice⟩ := (forall₂_iff_zip.mp hall).2 hzip
  have hlast : lastAmong (union u).numbers numbers =
      lastAmong (s₂.oneofNumbers name u.group) numbers := by
    unfold lastAmong
    congr 1
    exact filter_congr fun n _ => by
      simp [hs.mem_numbers_iff (of_mem_zip hzip).1 n]
  rw [← hlast, ← hchoice]
  constructor
  · intro hset
    obtain ⟨variant, -, hfield, hslot | ⟨v, rfl, -⟩⟩ := mem_spreadUnion hfu
    · rw [hslot] at hset
      cases hset
    · rw [hfield]
      rfl
  · intro hnumber
    obtain ⟨⟨_, v⟩, rfl, rfl⟩ := Option.map_eq_some_iff.mp hnumber
    obtain ⟨variant, hvariant, hfield, -⟩ := mem_spreadUnion hfu
    have hfnumber : f.1.field.number = variant.field.number := by rw [hfield]; rfl
    obtain ⟨g, hg, hgnumber, hgslot⟩ := exists_set_spreadUnion hvariant v
    rw [← hfnumber] at hg hgnumber
    have hsame := eq_of_mem_spread (hs.numbers₂ name) hall.length_eq.symm
      (mem_spread_of_mem_zip hzip hg) hf hgnumber
    rw [← hsame, hgslot]
    rfl

/-- The bytes are refused in both styles, or they are records of which each style makes a message,
and these agree. -/
lemma decode_agrees (name : String) (bytes : List UInt8) :
    (∃ e, s₁.decode name bytes = .error e ∧ s₂.decode name bytes = .error e) ∨
      ∃ numbers m₁ m₂, s₁.HasRecords name bytes numbers m₁ ∧ s₂.HasRecords name bytes numbers m₂ ∧
        MessageAgrees s₁ s₂ name m₁ m₂ := by
  rcases hs.lockstep_readWithin (recursionLimit + 1) name none (Reader.ofBytes bytes) with
    ⟨e, r, he₁, he₂⟩ | ⟨m₁, -, r, hm₁, -, -⟩
  · refine .inl ⟨e, ?_, ?_⟩
    · rw [Schema.decode, Schema.read, he₁]
    · rw [Schema.decode, Schema.read, he₂]
  · have hok : s₁.decode name bytes = .ok m₁ := by rw [Schema.decode, Schema.read, hm₁]
    obtain ⟨numbers, h₁⟩ := decode_eq_ok_iff_records.mp hok
    have hstart : LogsAgree (MessageAgrees s₁ s₂ name) (s₁.zero name, []) (s₂.zero name, []) :=
      ⟨hs.zero_agrees name, rfl⟩
    have hrecord : ∀ number wireType m₁ m₂, MessageAgrees s₁ s₂ name m₁ m₂ →
        Lockstep (MessageAgrees s₁ s₂ name)
          ((Container.message name).field s₁ recursionLimit number wireType m₁)
          ((Container.message name).field s₂ recursionLimit number wireType m₂) :=
      fun number wireType _ _ hm =>
        hs.lockstep_readRecord (hs.lockstep_readWithin recursionLimit) hm number wireType
    -- Both decoders keep the same log.
    obtain ⟨⟨m₂, numbers₂⟩, h₂, hm, rfl⟩ := RecordsRead.exists_of_lockstep (Lockstep.logged hrecord)
      (logged_determined (Container.field_determined s₂ recursionLimit (.message name))) h₁ hstart
    exact .inr ⟨numbers, m₁, m₂, h₁, h₂, hm⟩

end TwoStyles

/-- Bytes are refused in both styles with the same error, or they are records of a message in both.
With unions the member of a oneof is set whose record comes last. With siblings all members are set
whose records come. The messages agree but for the members that were superseded, so they correspond
exactly if no two members of a oneof are set with siblings. -/
theorem oneof_members_of_records {files : List Descriptor.File} {o₁ o₂ : Options}
    (h₁ : Schema.ofFiles files o₁ = .ok s₁) (h₂ : Schema.ofFiles files o₂ = .ok s₂)
    (hc₁ : s₁.Compiles) (hc₂ : s₂.Compiles) (hsiblings : o₁.oneofs = .siblings)
    (hunion : o₂.oneofs = .union) (name : String) (bytes : List UInt8) :
    (∃ e, s₁.decode name bytes = .error e ∧ s₂.decode name bytes = .error e) ∨
      ∃ numbers m₁ m₂, s₁.decode name bytes = .ok m₁ ∧ s₂.decode name bytes = .ok m₂ ∧
        s₁.HasRecords name bytes numbers m₁ ∧ s₂.HasRecords name bytes numbers m₂ ∧
        (∀ f ∈ spread (s₂.members name) m₂, ∀ group, f.1.field.oneof = some group →
          (f.2.isSet = true ↔
            lastAmong (s₂.oneofNumbers name group) numbers = some f.1.field.number)) ∧
        (∀ f ∈ spread (s₁.members name) m₁, ∀ group, f.1.field.oneof = some group →
          (f.2.isSet = true ↔ f.1.field.number ∈ numbers)) ∧
        MessageAgrees s₁ s₂ name m₁ m₂ ∧
        (MessageCorresponds s₁ s₂ name m₁ m₂ ↔ ¬ Crowded s₁ name m₁) := by
  have hs := TwoStyles.of_files h₁ h₂ hc₁ hc₂ hsiblings hunion
  rcases hs.decode_agrees name bytes with herror | ⟨numbers, m₁, m₂, hm₁, hm₂, hm⟩
  · exact .inl herror
  · refine .inr ⟨numbers, m₁, m₂, Schema.decode_eq_ok_iff_records.mpr ⟨_, hm₁⟩,
      Schema.decode_eq_ok_iff_records.mpr ⟨_, hm₂⟩, hm₁, hm₂, ?_, ?_, hm, hm.corresponds_iff hs⟩
    · intro f hf group hgroup
      exact hs.isSet_union hm₂ hf hgroup
    · intro f hf group hgroup
      exact hs.isSet_siblings hm₁ hf hgroup

/-- A file with one message, a shape that is a circle or a square. -/
private def shapeFile : Descriptor.File :=
  { name := "shape.proto"
    package := "draw"
    dialect := "proto3"
    messages := [{
      name := "Shape"
      fields := [Sample.memberOf 0 (Sample.scalar .int32 "circle" 1),
        Sample.memberOf 0 (Sample.scalar .int32 "square" 2)]
      oneofs := ["kind"] }] }

private def siblingSchema : Schema := .planned [shapeFile] { oneofs := .siblings }

private def unionSchema : Schema := .planned [shapeFile] { oneofs := .union }

private lemma siblingSchema_compiles :
    Schema.ofFiles [shapeFile] { oneofs := .siblings } = .ok siblingSchema ∧
      siblingSchema.Compiles :=
  planned_compiles _ _ (by decide +kernel)

private lemma unionSchema_compiles :
    Schema.ofFiles [shapeFile] { oneofs := .union } = .ok unionSchema ∧ unionSchema.Compiles :=
  planned_compiles _ _ (by decide +kernel)

private def circleSquare : List UInt8 := [8, 1, 16, 2]

/-- With siblings, the circle stays beside the square. -/
private def siblingShape : Message :=
  [.optional (some (.scalar (.int32 1))), .optional (some (.scalar (.int32 2)))]

/-- With a union, the square has replaced the circle. -/
private def unionShape : Message :=
  [.union (some (2, .scalar (.int32 2)))]

/-- Both members of the oneof are set with siblings. -/
private lemma exists_circle_and_square :
    ∃ f ∈ spread (siblingSchema.members ".draw.Shape") siblingShape,
      ∃ g ∈ spread (siblingSchema.members ".draw.Shape") siblingShape,
        f.1.field.number = 1 ∧ g.1.field.number = 2 ∧ f.1.field.oneof = some 0 ∧
          g.1.field.oneof = some 0 ∧ f.2.isSet ∧ g.2.isSet := by
  decide +kernel

/-- After a circle and a square came, both are set with siblings. The message does not correspond
to the one with a union, which is the square only. -/
theorem superseded_member_stays_set : ∃ s₁ s₂ : Schema,
    Schema.ofFiles [shapeFile] { oneofs := .siblings } = .ok s₁ ∧ s₁.Compiles ∧
    Schema.ofFiles [shapeFile] { oneofs := .union } = .ok s₂ ∧ s₂.Compiles ∧
    s₁.decode ".draw.Shape" circleSquare = .ok siblingShape ∧
    s₂.decode ".draw.Shape" circleSquare = .ok unionShape ∧
    (∀ f ∈ spread (s₁.members ".draw.Shape") siblingShape,
      f.1.field.oneof = some 0 ∧ f.2.isSet = true) ∧
    (spread (s₁.members ".draw.Shape") siblingShape).length = 2 ∧
    ¬ MessageCorresponds s₁ s₂ ".draw.Shape" siblingShape unionShape := by
  obtain ⟨hs₁, hc₁⟩ := siblingSchema_compiles
  obtain ⟨hs₂, hc₂⟩ := unionSchema_compiles
  obtain ⟨f, hf, g, hg, hfnumber, hgnumber, hfoneof, hgoneof, hfset, hgset⟩ :=
    exists_circle_and_square
  have hne : f.1.field.number ≠ g.1.field.number := by simp [hfnumber, hgnumber]
  have hcrowded : Crowded siblingSchema ".draw.Shape" siblingShape :=
    .here hf hg hne hfoneof hgoneof hfset hgset
  exact ⟨siblingSchema, unionSchema, hs₁, hc₁, hs₂, hc₂, by decide +kernel, by decide +kernel,
    by decide +kernel, by decide +kernel,
    hcrowded.not_corresponds (TwoStyles.of_files hs₁ hs₂ hc₁ hc₂ rfl rfl) _⟩

/-- The circle and the square are both among the records, and with siblings that makes the shape
crowded. -/
theorem oneof_members_of_records_shape : ∃ s₁ s₂ : Schema,
    Schema.ofFiles [shapeFile] { oneofs := .siblings } = .ok s₁ ∧ s₁.Compiles ∧
    Schema.ofFiles [shapeFile] { oneofs := .union } = .ok s₂ ∧ s₂.Compiles ∧
    ∃ numbers, s₁.HasRecords ".draw.Shape" circleSquare numbers siblingShape ∧
      s₂.HasRecords ".draw.Shape" circleSquare numbers unionShape ∧
      1 ∈ numbers ∧ 2 ∈ numbers ∧
      MessageAgrees s₁ s₂ ".draw.Shape" siblingShape unionShape ∧
      (MessageCorresponds s₁ s₂ ".draw.Shape" siblingShape unionShape ↔
        ¬ Crowded s₁ ".draw.Shape" siblingShape) := by
  obtain ⟨hs₁, hc₁⟩ := siblingSchema_compiles
  obtain ⟨hs₂, hc₂⟩ := unionSchema_compiles
  have hdecode₁ : siblingSchema.decode ".draw.Shape" circleSquare = .ok siblingShape := by
    decide +kernel
  have hdecode₂ : unionSchema.decode ".draw.Shape" circleSquare = .ok unionShape := by
    decide +kernel
  refine ⟨siblingSchema, unionSchema, hs₁, hc₁, hs₂, hc₂, ?_⟩
  rcases oneof_members_of_records hs₁ hs₂ hc₁ hc₂ rfl rfl ".draw.Shape" circleSquare with
    ⟨e, herror, -⟩ | ⟨numbers, m₁, m₂, hok₁, hok₂, hm₁, hm₂, -, hset, hagrees, hiff⟩
  · rw [hdecode₁] at herror
    cases herror
  · obtain rfl := Except.ok.inj (hdecode₁.symm.trans hok₁)
    obtain rfl := Except.ok.inj (hdecode₂.symm.trans hok₂)
    obtain ⟨f, hf, g, hg, hfnumber, hgnumber, hfoneof, hgoneof, hfset, hgset⟩ :=
      exists_circle_and_square
    have hcircle := (hset f hf 0 hfoneof).mp hfset
    have hsquare := (hset g hg 0 hgoneof).mp hgset
    rw [hfnumber] at hcircle
    rw [hgnumber] at hsquare
    exact ⟨numbers, hm₁, hm₂, hcircle, hsquare, hagrees, hiff⟩

end Protobuf.Codec
