import Protobuf.Codec.OfJson
import Protobuf.Codec.ToJson
import Protobuf.Proofs.Codec.WireForm
import Protobuf.Proofs.Json.Values

/-!
# Values without parts as JSON

A scalar, a key of a map and a value of an enum, written as JSON, are read as what
they were, in every style of long integers. A number that is held as text has to be
its canonical numeral, in range of its type. What `Alike` leaves open is the
payload of a not-a-number.
-/

open List Protobuf.Json

namespace Protobuf

/-- The same value, bit by bit, except that one not-a-number is as good as another. -/
def Primitive.Alike : Primitive → Primitive → Prop
  | .double x, .double y => x = y ∨ x.isNaN = true ∧ y.isNaN = true
  | .float x, .float y => x = y ∨ x.isNaN = true ∧ y.isNaN = true
  | p, q => p = q

lemma Primitive.Alike.refl (p : Primitive) : p.Alike p := by
  cases p <;> simp [Alike]

end Protobuf

namespace Protobuf.Codec

open Plan

/-! ## Scalars -/

variable {width : Numeric.Width}

lemma toInteger_scalarToJson {p : Primitive} {n : Int} (hp : p.toInt? = some n)
    (hn : width.holds n) (style : LongStyle) :
    Json.toInteger width (scalarToJson style p) = .ok n := by
  have hlong : toInteger width (longToJson style n) = .ok n := by
    cases style with
    | wide => exact toInteger_intText hn
    | number | decimal => exact toInteger_ofInt hn
  cases p <;> cases hp
  case int32 => exact toInteger_ofInt hn
  case uint32 => exact toInteger_ofInt hn
  case int64 => exact hlong
  case uint64 => exact hlong

lemma scalarOfJson_of_width? {t : Scalar} (hwidth : t.width? = some width) (value : Json) :
    scalarOfJson none t value = (Json.toInteger width value).map (.ofInt width) := by
  cases t <;> cases hwidth <;> rfl

lemma exists_toDouble_ofDouble (x : Numeric.Double) :
    ∃ y, Json.toDouble (Json.ofDouble x) = .ok y ∧ (x = y ∨ x.isNaN ∧ y.isNaN) := by
  cases hx : x.isNaN with
  | false => exact ⟨x, toDouble_ofDouble hx, .inl rfl⟩
  | true => exact ⟨.nan false, toDouble_of_isNaN hx, .inr ⟨rfl, by decide⟩⟩

lemma exists_toSingle_ofSingle (x : Numeric.Single) :
    ∃ y, Json.toSingle (Json.ofSingle x) = .ok y ∧ (x = y ∨ x.isNaN ∧ y.isNaN) := by
  cases hx : x.isNaN with
  | false => exact ⟨x, toSingle_ofSingle hx, .inl rfl⟩
  | true =>
    refine ⟨(Numeric.Double.nan false).toSingle, ?_, .inr ⟨rfl, by decide⟩⟩
    rw [toSingle, ofSingle, toDouble_of_isNaN (by rw [x.isNaN_toDouble, hx])]
    rfl

lemma exists_scalarOfJson {t : Scalar} {p : Primitive} (hp : t.holds p)
    (style : LongStyle) :
    ∃ q, scalarOfJson none t (scalarToJson style p) = .ok q ∧ p.Alike q := by
  cases hwidth : t.width? with
  | some width =>
    obtain ⟨n, hn, hholds, hvalue⟩ := Scalar.toInt?_of_holds hwidth hp
    refine ⟨p, ?_, .refl p⟩
    rw [scalarOfJson_of_width? hwidth, toInteger_scalarToJson hn hholds, ← hvalue]
    rfl
  | none =>
    cases p with
    | double x =>
      cases t <;> cases hp
      obtain ⟨y, hread, hy⟩ := exists_toDouble_ofDouble x
      exact ⟨.double y, congrArg (Except.map Primitive.double) hread, hy⟩
    | float x =>
      cases t <;> cases hp
      obtain ⟨y, hread, hy⟩ := exists_toSingle_ofSingle x
      exact ⟨.float y, congrArg (Except.map Primitive.float) hread, hy⟩
    | bool b =>
      cases t <;> cases hp
      exact ⟨.bool b, rfl, rfl⟩
    | string text =>
      cases t <;> cases hp
      exact ⟨.string text, rfl, rfl⟩
    | bytes bs =>
      cases t <;> cases hp
      exact ⟨.bytes bs, congrArg (Except.map Primitive.bytes) (toBytes_encode bs), rfl⟩
    | _ => cases t <;> cases hp <;> cases hwidth

namespace Schema

/-- A number that is held as text is its canonical numeral, in range of its type. -/
def Canonical (s : Schema) (t : Scalar) (p : Primitive) : Prop :=
  ∀ width, s.textWidth? t = some width →
    ∃ n, width.holds n = true ∧ p = .string (Text.intText n)

variable {s : Schema} {t : Scalar} {p : Primitive}

variable {width : Numeric.Width}

lemma scalarOfJson_of_textWidth? (ht : s.textWidth? t = some width) (value : Json) :
    scalarOfJson (some width) t value = (Json.toIntegerText width value).map .string := by
  have hwidth := width?_of_textWidth? ht
  cases t <;> cases hwidth <;> rfl

lemma exists_scalarOfJson_longs (hp : s.holdsScalar t p) (hc : s.Canonical t p) :
    ∃ q, scalarOfJson (s.textWidth? t) t (scalarToJson s.options.longs p) = .ok q ∧
      p.Alike q := by
  cases htext : s.textWidth? t with
  | none =>
    simp only [holdsScalar, htext] at hp
    exact exists_scalarOfJson hp s.options.longs
  | some width =>
    obtain ⟨n, hn, rfl⟩ := hc width htext
    refine ⟨_, ?_, .refl _⟩
    rw [scalarOfJson_of_textWidth? htext, scalarToJson, toIntegerText,
      toInteger_intText hn]
    rfl

lemma keyOfJson_of_textWidth? (ht : s.textWidth? t = some width) (key : String) :
    s.keyOfJson t key = (Json.decimalKey width key).map .string := by
  have hwidth := width?_of_textWidth? ht
  unfold keyOfJson
  rw [ht]
  cases t <;> cases hwidth <;> rfl

lemma keyOfJson_of_width? (htext : s.textWidth? t = none) (hwidth : t.width? = some width)
    (key : String) : s.keyOfJson t key = (Json.integerKey width key).map (.ofInt width) := by
  unfold keyOfJson
  rw [htext]
  cases t <;> cases hwidth <;> rfl

lemma keyText_of_toInt? {n : Int} (hn : p.toInt? = some n) : keyText p = Text.intText n := by
  cases p <;> cases hn <;> rfl

lemma keyOfJson_keyText (hkind : Scope.isKeyKind (.scalar t))
    (hp : s.holdsScalar t p) (hc : s.Canonical t p) : s.keyOfJson t (keyText p) = .ok p := by
  cases htext : s.textWidth? t with
  | some width =>
    obtain ⟨n, hn, rfl⟩ := hc width htext
    rw [keyOfJson_of_textWidth? htext, keyText, decimalKey_intText hn]
    rfl
  | none =>
    simp only [holdsScalar, htext] at hp
    cases hwidth : t.width? with
    | some width =>
      obtain ⟨n, hn, hholds, hvalue⟩ := Scalar.toInt?_of_holds hwidth hp
      rw [keyOfJson_of_width? htext hwidth, keyText_of_toInt? hn, integerKey_intText hholds,
        ← hvalue]
      rfl
    | none =>
      cases p with
      | bool b =>
        cases t <;> cases hp
        cases b <;> rfl
      | string text =>
        cases t <;> cases hp
        unfold keyOfJson
        rw [htext]
        rfl
      | double | float | bytes =>
        cases t <;> cases hp
        cases hkind
      | _ => cases t <;> cases hp <;> cases hwidth

end Schema

end Protobuf.Codec

namespace Protobuf.Schema.Enum

open Protobuf.Codec

/-- If no name is declared twice, a name stands for the number it is declared with. -/
lemma ofName_name {e : Enum} (hnames : (e.values.map EnumValue.name).Nodup) {v : EnumValue}
    (hv : v ∈ e.values) : e.ofName v.name = .declared v.number := by
  have hfound : ∃ n ∈ e.values.map EnumValue.number,
      (e.values.any fun w => w.number == n && w.name == v.name) = true :=
    ⟨v.number, mem_map_of_mem hv, any_eq_true.mpr ⟨v, hv, by simp⟩⟩
  obtain ⟨n, hn⟩ := Option.isSome_iff_exists.mp (find?_isSome.mpr hfound)
  -- Only one value has the name, so only one number is found by it.
  have hhit := find?_some hn
  obtain ⟨w, hw, heq⟩ := any_eq_true.mp hhit
  rw [Bool.and_eq_true, beq_iff_eq, beq_iff_eq] at heq
  have hsame : w = v := inj_on_of_nodup_map hnames hw hv heq.2
  rw [ofName, hn, ← heq.1, hsame]

/-- If no name is declared twice, a declared value is read back from its name. -/
lemma ofName_jsonText {e : Enum} {c : Choice} (hnames : (e.values.map EnumValue.name).Nodup)
    (hc : e.has c) (hknown : c ≠ .unrecognized) : e.ofName (e.jsonText c) = c := by
  cases c with
  | unrecognized => exact absurd rfl hknown
  | declared n =>
    obtain ⟨v, hv⟩ := Option.isSome_iff_exists.mp (find?_isSome.mpr (any_eq_true.mp hc))
    have hnumber : v.number = n := by simpa using find?_some hv
    have htext : e.jsonText (.declared n) = v.name := by
      rw [jsonText, nameOf?, hv]
      rfl
    rw [htext, ofName_name hnames (mem_of_find?_eq_some hv), hnumber]

end Protobuf.Schema.Enum
