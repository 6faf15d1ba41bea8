import Protobuf.Proofs.Codec.WireForm
import Protobuf.Proofs.Plan.Places

/-!
# Computing with schemas and messages

Equality of messages can be decided, and so can whether a message is one of a type.
The schema of given files is a value, so that what it reads and writes can be computed.
-/

namespace Protobuf.Codec

open Plan

/-! ## Equality -/

mutual

def Value.equals : Value → Value → Bool
  | .scalar p, .scalar q => p == q
  | .choice c, .choice d => c == d
  | .time t, .time u => t == u
  | .message slots, .message slots' => slotsEqual slots slots'
  | _, _ => false

def Slot.equals : Slot → Slot → Bool
  | .plain v, .plain w => v.equals w
  | .optional none, .optional none => true
  | .optional (some v), .optional (some w) => v.equals w
  | .repeated vs, .repeated ws => valuesEqual vs ws
  | .map entries, .map entries' => entriesEqual entries entries'
  | .union none, .union none => true
  | .union (some (n, v)), .union (some (n', w)) => n == n' && v.equals w
  | _, _ => false

def slotsEqual : List Slot → List Slot → Bool
  | [], [] => true
  | slot :: slots, slot' :: slots' => slot.equals slot' && slotsEqual slots slots'
  | _, _ => false

def valuesEqual : List Value → List Value → Bool
  | [], [] => true
  | v :: vs, w :: ws => v.equals w && valuesEqual vs ws
  | _, _ => false

def entriesEqual : List (Primitive × Value) → List (Primitive × Value) → Bool
  | [], [] => true
  | (k, v) :: entries, (k', w) :: entries' => k == k' && v.equals w && entriesEqual entries entries'
  | _, _ => false

end

mutual

theorem Value.equals_iff : (v w : Value) → (v.equals w ↔ v = w)
  | .scalar _, w | .choice _, w | .time _, w => by cases w <;> simp [Value.equals]
  | .message slots, w => by cases w <;> simp [Value.equals, slotsEqual_iff slots]

theorem Slot.equals_iff : (x y : Slot) → (x.equals y ↔ x = y)
  | .plain v, y => by cases y <;> simp [Slot.equals, v.equals_iff]
  | .optional none, y => by rcases y with _ | (_ | _) | _ | _ | _ <;> simp [Slot.equals]
  | .optional (some v), y => by
    rcases y with _ | (_ | _) | _ | _ | _ <;> simp [Slot.equals, v.equals_iff]
  | .repeated vs, y => by cases y <;> simp [Slot.equals, valuesEqual_iff vs]
  | .map entries, y => by cases y <;> simp [Slot.equals, entriesEqual_iff entries]
  | .union none, y => by rcases y with _ | _ | _ | _ | (_ | _) <;> simp [Slot.equals]
  | .union (some (n, v)), y => by
    rcases y with _ | _ | _ | _ | (_ | ⟨_, _⟩) <;> simp [Slot.equals, v.equals_iff]

theorem slotsEqual_iff : (xs ys : List Slot) → (slotsEqual xs ys ↔ xs = ys)
  | [], ys => by cases ys <;> simp [slotsEqual]
  | x :: xs, ys => by cases ys <;> simp [slotsEqual, x.equals_iff, slotsEqual_iff xs]

theorem valuesEqual_iff : (vs ws : List Value) → (valuesEqual vs ws ↔ vs = ws)
  | [], ws => by cases ws <;> simp [valuesEqual]
  | v :: vs, ws => by cases ws <;> simp [valuesEqual, v.equals_iff, valuesEqual_iff vs]

theorem entriesEqual_iff : (es fs : List (Primitive × Value)) →
    (entriesEqual es fs ↔ es = fs)
  | [], fs => by cases fs <;> simp [entriesEqual]
  | (k, v) :: es, fs => by
    rcases fs with _ | ⟨⟨_, _⟩, _⟩ <;> simp [entriesEqual, v.equals_iff, entriesEqual_iff es]

end

instance : DecidableEq Value := fun v w => decidable_of_iff _ (v.equals_iff w)

instance : DecidableEq Slot := fun x y => decidable_of_iff _ (x.equals_iff y)

/-! ## Messages of a type -/

instance (pieces : List Wire.Piece) : Decidable (Wire.Piece.Short pieces) :=
  inferInstanceAs (Decidable (∀ n ∈ _, n < _))

namespace Schema

mutual

def fits (s : Schema) : ValueKind → Value → Bool
  | .scalar t, .scalar p => s.holdsScalar t p
  | .enum _ e, .choice c => e.has c
  | .wrapper k, .scalar p => k.scalar.holds p
  | .timestamp, .time _ => true
  | .message ref, .message slots => slotsFit s (s.members ref.qualifiedName) slots
  | _, _ => false

def slotFits (s : Schema) : Member → Slot → Bool
  | .field p, .plain v => p.layout.shape == .plain && fits s p.kind v
  | .field p, .optional none => p.layout.shape == .optional
  | .field p, .optional (some v) => p.layout.shape == .optional && fits s p.kind v
  | .field p, .repeated vs => p.layout.shape == .repeated && valuesFit s p.kind vs
  | .field p, .map entries =>
    match p.layout with
    | .map _ key value =>
      match key.kind with
      | .scalar t => entriesFit s t value.kind entries &&
          decide (entries.map fun e => s.normScalar t e.1).Nodup
      | _ => false
    | _ => false
  | .union _, .union none => true
  | .union u, .union (some (number, v)) =>
    match (Member.union u).kind? number with
    | some kind => fits s kind v
    | none => false
  | _, _ => false

def slotsFit (s : Schema) : List Member → List Slot → Bool
  | [], [] => true
  | m :: members, slot :: slots => slotFits s m slot && slotsFit s members slots
  | _, _ => false

def valuesFit (s : Schema) (kind : ValueKind) : List Value → Bool
  | [] => true
  | v :: vs => fits s kind v && valuesFit s kind vs

def entriesFit (s : Schema) (t : Scalar) (kind : ValueKind) : List (Primitive × Value) → Bool
  | [] => true
  | (k, v) :: entries => s.holdsScalar t k && fits s kind v && entriesFit s t kind entries

end

variable {s : Schema}

mutual

theorem fits_sound {kind : ValueKind} : (v : Value) → s.fits kind v → Fits s kind v
  | .scalar p, h => by
    cases kind with
    | scalar t => exact .scalar (by simpa [fits] using h)
    | wrapper k => exact .wrapper (by simpa [fits] using h)
    | _ => simp [fits] at h
  | .choice c, h => by
    cases kind with
    | enum ref e => exact .choice (by simpa [fits] using h)
    | _ => simp [fits] at h
  | .time t, h => by
    cases kind with
    | timestamp => exact .time t
    | _ => simp [fits] at h
  | .message slots, h => by
    cases kind with
    | message ref => exact .message (slotsFit_sound slots (by simpa [fits] using h))
    | _ => simp [fits] at h

theorem slotFits_sound {m : Member} : (slot : Slot) → s.slotFits m slot → SlotFits s m slot
  | .plain v, h => by
    cases m with
    | field p =>
      simp only [slotFits, Bool.and_eq_true, beq_iff_eq, Layout.shape_eq_plain] at h
      exact .plain h.1 (fits_sound v h.2)
    | union u => simp [slotFits] at h
  | .optional none, h => by
    cases m with
    | field p =>
      simp only [slotFits, beq_iff_eq, Layout.shape_eq_optional] at h
      exact .absent h
    | union u => simp [slotFits] at h
  | .optional (some v), h => by
    cases m with
    | field p =>
      simp only [slotFits, Bool.and_eq_true, beq_iff_eq, Layout.shape_eq_optional] at h
      exact .present h.1 (fits_sound v h.2)
    | union u => simp [slotFits] at h
  | .repeated vs, h => by
    cases m with
    | field p =>
      simp only [slotFits, Bool.and_eq_true, beq_iff_eq, Layout.shape_eq_repeated] at h
      exact .repeated h.1 (valuesFit_sound vs h.2)
    | union u => simp [slotFits] at h
  | .map entries, h => by
    cases m with
    | field p =>
      cases hp : p.layout with
      | map entry key value =>
        cases hkey : key.kind <;> simp only [slotFits, hp, hkey, Bool.and_eq_true,
          decide_eq_true_eq, Bool.false_eq_true] at h
        obtain ⟨hkeys, hvalues⟩ := entriesFit_sound entries h.1
        exact .map hp hkey hkeys hvalues h.2
      | _ => simp [slotFits, hp] at h
    | union u => simp [slotFits] at h
  | .union none, h => by
    cases m with
    | field p => simp [slotFits] at h
    | union u => exact .unset u
  | .union (some (number, v)), h => by
    cases m with
    | field p => simp [slotFits] at h
    | union u =>
      cases hkind : (Member.union u).kind? number <;> simp [slotFits, hkind] at h
      exact .chosen hkind (fits_sound v h)

theorem slotsFit_sound {members : List Member} :
    (slots : List Slot) → s.slotsFit members slots → SlotsFit s members slots
  | [], h => by
    cases members with
    | nil => exact .nil
    | cons m members => simp [slotsFit] at h
  | slot :: slots, h => by
    cases members with
    | nil => simp [slotsFit] at h
    | cons m members =>
      rw [slotsFit, Bool.and_eq_true] at h
      exact .cons (slotFits_sound slot h.1) (slotsFit_sound slots h.2)

theorem valuesFit_sound {kind : ValueKind} :
    (vs : List Value) → s.valuesFit kind vs → ∀ v ∈ vs, Fits s kind v
  | [], _ => by simp
  | v :: vs, h => by
    rw [valuesFit, Bool.and_eq_true] at h
    exact List.forall_mem_cons.mpr ⟨fits_sound v h.1, valuesFit_sound vs h.2⟩

theorem entriesFit_sound {t : Scalar} {kind : ValueKind} :
    (entries : List (Primitive × Value)) → s.entriesFit t kind entries →
      (∀ e ∈ entries, s.holdsScalar t e.1) ∧ ∀ e ∈ entries, Fits s kind e.2
  | [], _ => by simp
  | (k, v) :: entries, h => by
    simp only [entriesFit, Bool.and_eq_true] at h
    obtain ⟨hkeys, hvalues⟩ := entriesFit_sound entries h.2
    exact ⟨List.forall_mem_cons.mpr ⟨h.1.1, hkeys⟩,
      List.forall_mem_cons.mpr ⟨fits_sound v h.1.2, hvalues⟩⟩

end

/-! ## Schemas of files -/

def fieldOf? : Member → Option FieldPlan
  | .field p => some p
  | .union _ => none

lemma exists_field {members : List Member} {i : Nat} (P : FieldPlan → Prop) [DecidablePred P]
    (h : (members[i]?.bind fieldOf?).any (fun p => decide (P p))) :
    ∃ p, members[i]? = some (.field p) ∧ P p := by
  obtain ⟨p, hp, hcheck⟩ := (Option.any_eq_true ..).mp h
  obtain ⟨m, hm, hfield⟩ := Option.bind_eq_some_iff.mp hp
  cases m with
  | field q =>
    cases hfield
    exact ⟨_, hm, of_decide_eq_true hcheck⟩
  | union u => cases hfield

/-- The members of all messages that files declare, if they can be planned. -/
def plans? (files : List Descriptor.File) (options : Options) :
    Option (List (String × List Member)) := do
  let files ← (files.mapM Schema.File.check).toOption
  (planAll ⟨(Schema.Registry.ofFiles files).value, options, [], .empty⟩).toOption

/-- The schema of files, without any members if they cannot be planned. -/
def planned (files : List Descriptor.File) (options : Options) : Schema :=
  ⟨options, fun name => (((plans? files options).getD []).lookup name).getD []⟩

variable {files : List Descriptor.File} {options : Options}

lemma ofFiles_eq_planned (h : (plans? files options).isSome) :
    ofFiles files options = .ok (planned files options) := by
  obtain ⟨plans, hplans⟩ := Option.isSome_iff_exists.mp h
  have hok {ε α : Type} {x : Except ε α} {a : α} (hx : x.toOption = some a) : x = .ok a := by
    cases x with
    | ok b => exact congrArg Except.ok (Option.some.inj hx)
    | error e => cases hx
  rw [planned, hplans]
  obtain ⟨checked, hchecked, hplan⟩ := Option.bind_eq_some_iff.mp hplans
  unfold ofFiles
  rw [hok hchecked]
  change (planAll _ >>= _) = _
  rw [hok hplan]
  rfl

/-- What holds of no members and of the members of all messages declared holds of the members
under every name. -/
lemma forall_planned_members {motive : List Member → Prop} (hnil : motive [])
    (h : ∀ plan ∈ (plans? files options).getD [], motive plan.2) (name : String) :
    motive ((planned files options).members name) := by
  change motive ((List.lookup name _).getD [])
  cases hlookup : ((plans? files options).getD []).lookup name with
  | none => exact hnil
  | some members =>
    obtain ⟨before, after, heq, -⟩ := List.lookup_eq_some_iff.mp hlookup
    exact h (name, members) (by simp [heq])

end Schema

end Protobuf.Codec
