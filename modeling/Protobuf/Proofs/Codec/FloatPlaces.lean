import Protobuf.Proofs.Codec.RoundTrip
import Protobuf.Proofs.Numeric.Rounding

/-!
# Floating-point values on the wire

`valueAt?` follows a path from a message to a value in it and says how the value is
held there. A message that is written and read again has its floating-point values
at the same places, bit by bit. The one exception is the negative zero where zeros
are left out, in a plain field and in a wrapper: it comes back as the positive one.
-/

open Option

namespace Protobuf.Primitive

def isFloat : Primitive → Bool
  | .double _ | .float _ => true
  | _ => false

/-- Whether a value is the zero whose sign is set. -/
def isNegativeZero : Primitive → Bool
  | .double x => x == .ofMagnitude true 0
  | .float x => x == .ofMagnitude true 0
  | _ => false

lemma positive_eq_self_iff (p : Primitive) : p.positive = p ↔ p.isNegativeZero = false := by
  cases p with
  | double x | float x =>
    have hbits := x.ofMagnitude_magnitude
    by_cases hzero : x.isZero
    · rw [beq_iff_eq.mp hzero] at hbits
      cases hsign : x.negative <;> rw [hsign] at hbits <;> subst hbits <;> decide +kernel
    · have hother : x ≠ .ofMagnitude true 0 := by
        rintro rfl
        exact hzero (by decide +kernel)
      simp [positive, isNegativeZero, hzero, hother]
  | _ => simp [positive, isNegativeZero]

end Protobuf.Primitive

namespace Protobuf.Codec

open Plan Wire

/-! ## Places in a message -/

/-- How a value is held in a message. -/
inductive Position where
  /-- By a field that always has a value. -/
  | plain
  /-- By a field that has one value or none. -/
  | optional
  | repeated
  /-- Under a key of a map. -/
  | entry
  /-- As the active member of a union. -/
  | chosen
  deriving DecidableEq

/-- A value in a message, with how it is held and what it is. -/
structure Located where
  position : Position
  kind : ValueKind
  value : Value
  deriving DecidableEq

/-- Whether a zero is left out on the wire: in plain fields and in wrappers. -/
def leavesOutZero (position : Position) : ValueKind → Bool
  | .wrapper _ => true
  | _ => position == .plain

/-- Which of the values that a member holds. -/
inductive Spot where
  | only
  | item (index : Nat)
  /-- The one under a key, given as what the key stands for. -/
  | key (k : Primitive)

/-- A step from a message to a value in it. -/
structure Step where
  member : Nat
  spot : Spot

namespace Schema

def normKey (s : Schema) (kind : ValueKind) (key : Primitive) : Primitive :=
  match kind with
  | .scalar t => s.normScalar t key
  | _ => key

/-- The value that a member holds at a spot. -/
def inSlot? (s : Schema) (m : Member) (slot : Slot) (spot : Spot) : Option Located :=
  match m, slot, spot with
  | .field p, .plain v, .only => some ⟨.plain, p.kind, v⟩
  | .field p, .optional (some v), .only => some ⟨.optional, p.kind, v⟩
  | .field p, .repeated vs, .item i => vs[i]?.map (⟨.repeated, p.kind, ·⟩)
  | .field p, .map entries, .key k =>
    match p.layout with
    | .map _ key value =>
      (entries.find? fun e => s.normKey key.kind e.1 == k).map (⟨.entry, value.kind, ·.2⟩)
    | _ => none
  | .union u, .union (some (number, v)), .only =>
    ((Member.union u).kind? number).map (⟨.chosen, ·, v⟩)
  | _, _, _ => none

def stepTo? (s : Schema) (members : List Member) (slots : List Slot) (step : Step) :
    Option Located :=
  match members[step.member]?, slots[step.member]? with
  | some m, some slot => s.inSlot? m slot step.spot
  | _, _ => none

/-- The value at the end of a path, which goes through messages. -/
def valueAt? (s : Schema) : List Step → List Member → List Slot → Option Located
  | [], _, _ => none
  | [step], members, slots => s.stepTo? members slots step
  | step :: next :: path, members, slots =>
    match s.stepTo? members slots step with
    | some ⟨_, .message ref, .message inner⟩ =>
      s.valueAt? (next :: path) (s.members ref.qualifiedName) inner
    | _ => none

/-- What a value in a message comes back as. -/
def normLocated (s : Schema) (l : Located) : Located :=
  { l with value :=
      if l.position = .plain then (s.normValue l.kind l.value).positive
      else s.normValue l.kind l.value }

variable {s : Schema}

lemma normKey_normKey (kind : ValueKind) (key : Primitive) :
    s.normKey kind (s.normKey kind key) = s.normKey kind key := by
  cases kind with
  | scalar t =>
    simp only [normKey, normScalar]
    cases s.textWidth? t with
    | none => rfl
    | some width =>
      cases key with
      | string text => simp only [decimalValue_intText (holds_decimalValue width text)]
      | _ => rfl
  | _ => rfl

lemma getElem?_normValues (kind : ValueKind) (vs : List Value) (i : Nat) :
    (s.normValues kind vs)[i]? = vs[i]?.map (s.normValue kind) := by
  induction vs generalizing i with
  | nil => rfl
  | cons v vs ih =>
    cases i with
    | zero => rfl
    | succ i => simpa [normValues] using ih i

/-- An entry is found again by what its key stands for. -/
lemma find?_normEntries (key value : ValueKind) (entries : List (Primitive × Value))
    (k : Primitive) :
    ((s.normEntries key value entries).find? fun e => s.normKey key e.1 == k) =
      (entries.find? fun e => s.normKey key e.1 == k).map fun e =>
        (s.normKey key e.1, s.normValue value e.2) := by
  induction entries with
  | nil => rfl
  | cons e entries ih =>
    obtain ⟨d, v⟩ := e
    have hcons : s.normEntries key value ((d, v) :: entries) =
        (s.normKey key d, s.normValue value v) :: s.normEntries key value entries := rfl
    rw [hcons, List.find?_cons, List.find?_cons, normKey_normKey, ih]
    cases s.normKey key d == k <;> rfl

lemma inSlot?_normSlot {m : Member} {slot : Slot} (h : SlotFits s m slot) (spot : Spot) :
    s.inSlot? m (s.normSlot m slot) spot = (s.inSlot? m slot spot).map s.normLocated := by
  cases h with
  | plain _ _ | absent _ | present _ _ => cases spot <;> rfl
  | @repeated p vs _ _ =>
    cases spot with
    | item i =>
      simp only [normSlot, inSlot?, getElem?_normValues, map_map]
      rfl
    | _ => rfl
  | @map p key value entry t entries hlayout _ _ _ _ =>
    cases spot with
    | key k =>
      simp only [normSlot, inSlot?, hlayout, find?_normEntries, map_map]
      rfl
    | _ => simp only [normSlot, inSlot?, hlayout]; rfl
  | unset u => cases spot <;> rfl
  | @chosen u number kind v hkind _ =>
    simp only [normSlot, hkind]
    cases spot with
    | only => simp [inSlot?, hkind, normLocated]
    | _ => rfl

lemma fits_of_inSlot? {m : Member} {slot : Slot} {spot : Spot} {l : Located}
    (h : SlotFits s m slot) (hl : s.inSlot? m slot spot = some l) : Fits s l.kind l.value := by
  cases h with
  | plain _ hv =>
    cases spot <;> cases hl
    exact hv
  | absent _ => cases spot <;> cases hl
  | present _ hv =>
    cases spot <;> cases hl
    exact hv
  | @repeated p vs _ hvs =>
    cases spot with
    | item i =>
      obtain ⟨v, hv, rfl⟩ := map_eq_some_iff.mp hl
      exact hvs v (List.mem_of_getElem? hv)
    | _ => cases hl
  | @map p key value entry t entries hlayout _ _ hvalues _ =>
    cases spot with
    | key k =>
      simp only [inSlot?, hlayout] at hl
      obtain ⟨e, he, rfl⟩ := map_eq_some_iff.mp hl
      exact hvalues e (List.mem_of_find?_eq_some he)
    | _ => cases hl
  | unset u => cases spot <;> cases hl
  | @chosen u number kind v hkind hv =>
    cases spot with
    | only =>
      simp only [inSlot?, hkind, map_some, some.injEq] at hl
      subst hl
      exact hv
    | _ => cases hl

variable {members : List Member} {slots : List Slot}

lemma stepTo?_normSlots (h : SlotsFit s members slots) (step : Step) :
    s.stepTo? members (s.normSlots members slots) step =
      (s.stepTo? members slots step).map s.normLocated := by
  obtain ⟨i, spot⟩ := step
  induction members generalizing slots i with
  | nil =>
    cases h
    rfl
  | cons m members ih =>
    cases h with
    | cons hslot hslots =>
      cases i with
      | zero => exact inSlot?_normSlot hslot spot
      | succ i => simpa [stepTo?, normSlots] using ih hslots i

lemma fits_of_stepTo? {step : Step} {l : Located} (h : SlotsFit s members slots)
    (hl : s.stepTo? members slots step = some l) : Fits s l.kind l.value := by
  obtain ⟨i, spot⟩ := step
  induction members generalizing slots i with
  | nil =>
    cases h
    cases hl
  | cons m members ih =>
    cases h with
    | cons hslot hslots =>
      cases i with
      | zero => exact fits_of_inSlot? hslot hl
      | succ i => exact ih hslots i (by simpa [stepTo?] using hl)

lemma valueAt?_normSlots (h : SlotsFit s members slots) (path : List Step) :
    s.valueAt? path members (s.normSlots members slots) =
      (s.valueAt? path members slots).map s.normLocated := by
  induction path generalizing members slots with
  | nil => rfl
  | cons step path ih =>
    cases path with
    | nil => exact stepTo?_normSlots h step
    | cons next path =>
      rw [valueAt?, valueAt?, stepTo?_normSlots h]
      cases hl : s.stepTo? members slots step with
      | none => rfl
      | some l =>
        obtain ⟨position, kind, value⟩ := l
        cases fits_of_stepTo? h hl with
        | @message ref inner hinner =>
          have hnorm : s.normLocated ⟨position, .message ref, .message inner⟩ =
              ⟨position, .message ref,
                .message (s.normSlots (s.members ref.qualifiedName) inner)⟩ := by
            simp [normLocated, normValue, Value.positive]
          rw [map_some, hnorm]
          exact ih hinner
        | _ => rfl

lemma fits_of_valueAt? {path : List Step} {l : Located} (h : SlotsFit s members slots)
    (hl : s.valueAt? path members slots = some l) : Fits s l.kind l.value := by
  induction path generalizing members slots with
  | nil => cases hl
  | cons step path ih =>
    cases path with
    | nil => exact fits_of_stepTo? h hl
    | cons next path =>
      rw [valueAt?] at hl
      cases hfirst : s.stepTo? members slots step with
      | none =>
        rw [hfirst] at hl
        cases hl
      | some first =>
        obtain ⟨position, kind, value⟩ := first
        rw [hfirst] at hl
        cases fits_of_stepTo? h hfirst with
        | message hinner => exact ih hinner hl
        | _ => cases hl

/-! ## Floating-point values -/

/-- A floating-point value comes back as it was, or as the positive zero where zeros are left
out. -/
lemma normLocated_of_isFloat {position : Position} {kind : ValueKind} {p : Primitive}
    (hfits : Fits s kind (.scalar p)) (hp : p.isFloat) :
    s.normLocated ⟨position, kind, .scalar p⟩ =
      ⟨position, kind, .scalar (if leavesOutZero position kind then p.positive else p)⟩ := by
  cases hfits with
  | @scalar t _ _ =>
    have hnorm : s.normScalar t p = p := by
      unfold normScalar
      cases p with
      | double x | float x => cases s.textWidth? t <;> rfl
      | _ => cases hp
    by_cases hplain : position = .plain <;>
      simp [normLocated, normValue, hnorm, leavesOutZero, hplain, Value.positive]
  | wrapper _ =>
    by_cases hplain : position = .plain <;>
      simp [normLocated, normValue, leavesOutZero, hplain, Value.positive,
        Primitive.positive_positive]

variable {files : List Descriptor.File} {options : Options}

/-- A floating-point value of a message that is written and read again is where it was, with all its
bits, unless it is the negative zero and zeros are left out there; then it is the positive zero.
A message that is nested too deeply is not read at all. -/
theorem decode_encode_float (hs : ofFiles files options = .ok s) (hc : s.Compiles) {name : String}
    {m : Message} (hm : SlotsFit s (s.members name) m) (hshort : Piece.Short (s.pieces name m)) :
    (slotsNesting m ≤ recursionLimit → ∃ m', s.decode name (s.encode name m) = .ok m' ∧
      ∀ (path : List Step) (position : Position) (kind : ValueKind) (p : Primitive),
        p.isFloat = true →
        s.valueAt? path (s.members name) m = some ⟨position, kind, .scalar p⟩ →
        ∃ q, s.valueAt? path (s.members name) m' = some ⟨position, kind, .scalar q⟩ ∧
          (q = p ↔ ¬ (leavesOutZero position kind = true ∧ p.isNegativeZero = true)) ∧
          (q ≠ p → q = p.positive)) ∧
      (recursionLimit < slotsNesting m → ∃ offset,
        s.decode name (s.encode name m) = .error (.recursionLimit offset recursionLimit)) := by
  obtain ⟨hread, hrefuse⟩ := (hc.sound hs).reads_back hm hshort
  refine ⟨fun hnesting => ⟨s.norm name m, hread hnesting, ?_⟩, hrefuse⟩
  intro path position kind p hp hat
  have hfits := fits_of_valueAt? hm hat
  have hnorm := valueAt?_normSlots hm path
  rw [hat, Option.map_some, normLocated_of_isFloat hfits hp] at hnorm
  refine ⟨_, hnorm, ?_, ?_⟩
  · cases hleaves : leavesOutZero position kind with
    | false => simp
    | true => simpa using p.positive_eq_self_iff
  · intro hne
    cases hleaves : leavesOutZero position kind with
    | false => exact absurd (by simp [hleaves]) hne
    | true => simp

/-! ## A gauge -/

/-- A file with one message, which holds a plain double, one in a wrapper and many floats. -/
private def gaugeFile : Descriptor.File :=
  { name := "gauge.proto"
    package := "gauge"
    dialect := "proto3"
    messages := [{
      name := "Gauge"
      fields := [Sample.scalar .double "level" 1,
        Sample.message Wrapper.double.typeName "drift" 2,
        Sample.many (Sample.scalar .float "readings" 3)] }] }

private def gaugeFiles : List Descriptor.File :=
  [Sample.wrapperFile [.double], gaugeFile]

private def gaugeSchema : Schema := planned gaugeFiles {}

private lemma gaugeSchema_compiles :
    ofFiles gaugeFiles {} = .ok gaugeSchema ∧ gaugeSchema.Compiles :=
  planned_compiles _ _ (by decide +kernel)

/-- A gauge on which everything is the negative zero. -/
private def stillGauge : Message :=
  [.plain (.scalar (.double ⟨0x8000000000000000⟩)),
    .optional (some (.scalar (.double ⟨0x8000000000000000⟩))),
    .repeated [.scalar (.float ⟨0x80000000⟩)]]

private lemma stillGauge_fits :
    SlotsFit gaugeSchema (gaugeSchema.members ".gauge.Gauge") stillGauge :=
  slotsFit_sound _ (by decide +kernel)

/-- The negative zeros of a plain field and of a wrapper come back as positive ones. -/
theorem negative_zeros_come_back_positive : ∃ (s : Schema) (m m' : Message),
    ofFiles gaugeFiles {} = .ok s ∧ s.Compiles ∧ SlotsFit s (s.members ".gauge.Gauge") m ∧
    s.decode ".gauge.Gauge" (s.encode ".gauge.Gauge" m) = .ok m' ∧
    s.valueAt? [⟨0, .only⟩] (s.members ".gauge.Gauge") m =
      some ⟨.plain, .scalar .double, .scalar (.double ⟨0x8000000000000000⟩)⟩ ∧
    s.valueAt? [⟨0, .only⟩] (s.members ".gauge.Gauge") m' =
      some ⟨.plain, .scalar .double, .scalar (.double ⟨0⟩)⟩ ∧
    s.valueAt? [⟨1, .only⟩] (s.members ".gauge.Gauge") m =
      some ⟨.optional, .wrapper .double, .scalar (.double ⟨0x8000000000000000⟩)⟩ ∧
    s.valueAt? [⟨1, .only⟩] (s.members ".gauge.Gauge") m' =
      some ⟨.optional, .wrapper .double, .scalar (.double ⟨0⟩)⟩ := by
  obtain ⟨hs, hc⟩ := gaugeSchema_compiles
  refine ⟨gaugeSchema, stillGauge, [.plain (.scalar (.double ⟨0⟩)),
    .optional (some (.scalar (.double ⟨0⟩))), .repeated [.scalar (.float ⟨0x80000000⟩)]], hs, hc,
    stillGauge_fits, ?_⟩
  decide +kernel

/-- The negative zero among many floats comes back as it was. -/
theorem decode_encode_float_gauge : ∃ (s : Schema) (m' : Message),
    ofFiles gaugeFiles {} = .ok s ∧ s.Compiles ∧
    SlotsFit s (s.members ".gauge.Gauge") stillGauge ∧
    Piece.Short (s.pieces ".gauge.Gauge" stillGauge) ∧ slotsNesting stillGauge ≤ recursionLimit ∧
    s.decode ".gauge.Gauge" (s.encode ".gauge.Gauge" stillGauge) = .ok m' ∧
    s.valueAt? [⟨2, .item 0⟩] (s.members ".gauge.Gauge") m' =
      some ⟨.repeated, .scalar .float, .scalar (.float ⟨0x80000000⟩)⟩ := by
  obtain ⟨hs, hc⟩ := gaugeSchema_compiles
  have hshort : Piece.Short (gaugeSchema.pieces ".gauge.Gauge" stillGauge) := by decide +kernel
  have hnesting : slotsNesting stillGauge ≤ recursionLimit := by decide
  have hlocated : gaugeSchema.valueAt? [⟨2, .item 0⟩] (gaugeSchema.members ".gauge.Gauge")
      stillGauge = some ⟨.repeated, .scalar .float, .scalar (.float ⟨0x80000000⟩)⟩ := by
    decide +kernel
  obtain ⟨m', hread, hfloat⟩ := (decode_encode_float hs hc stillGauge_fits hshort).1 hnesting
  obtain ⟨q, hq, hsame, -⟩ := hfloat _ _ _ _ rfl hlocated
  obtain rfl := hsame.mpr (by simp [leavesOutZero])
  exact ⟨gaugeSchema, m', hs, hc, stillGauge_fits, hshort, hnesting, hread, hq⟩

end Schema

end Protobuf.Codec
