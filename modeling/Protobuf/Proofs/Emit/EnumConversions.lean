import Protobuf.Proofs.Codec.JsonForm
import Protobuf.Proofs.Codec.NormalForm
import Protobuf.Proofs.Emit.EnumVariants

/-!
# Conversions of enums

The variants of an enum are converted to and from numbers and JSON by tables of the
plan, read as a `match` is: the first arm that takes a value decides, and the
sentinel is left for the rest. If the variants differ in their identifiers and no
name is declared twice, the conversions undo one another, and the values that the
codec has for the enum are the variants.
-/

namespace Protobuf.Plan

open Protobuf.Schema List
open Source (Ident)
open Protobuf.Codec (Choice)

section

variable {α β : Type} {arms : List (α × β)} {takes : α → Bool} {rest b : β}

def firstArm (arms : List (α × β)) (takes : α → Bool) (rest : β) : β :=
  ((arms.find? fun arm => takes arm.1).map Prod.snd).getD rest

lemma firstArm_eq {a : α} (hmem : (a, b) ∈ arms) (htakes : takes a)
    (hall : ∀ arm ∈ arms, takes arm.1 → arm.2 = b) : firstArm arms takes rest = b := by
  unfold firstArm
  cases harm : arms.find? fun arm => takes arm.1 with
  | none => exact absurd htakes (find?_eq_none.mp harm _ hmem)
  | some arm =>
    have htaken : takes arm.1 := by simpa using find?_some harm
    exact hall arm (mem_of_find?_eq_some harm) htaken

lemma firstArm_eq_rest (hall : ∀ arm ∈ arms, takes arm.1 = false) :
    firstArm arms takes rest = rest := by
  unfold firstArm
  rw [find?_eq_none.mpr fun arm harm => by simp [hall arm harm]]
  rfl

end

namespace EnumPlan

def ofNumber (plan : EnumPlan) (n : Int32) : Ident :=
  firstArm plan.numberArms (· == n) plan.sentinel

def number (plan : EnumPlan) (i : Ident) : Int32 :=
  firstArm (plan.variants.map fun v => (v.ident, v.value.number)) (· == i) plan.sentinelNumber

def ofName (plan : EnumPlan) (name : String) : Ident :=
  firstArm plan.nameArms (·.contains name) plan.sentinel

def ofJson (plan : EnumPlan) : Json → Ident
  | .number (.integer n) =>
    if Numeric.Width.int32.holds n then plan.ofNumber (Int32.ofInt n) else plan.sentinel
  | .string name => plan.ofName name
  | _ => plan.sentinel

def jsonText (plan : EnumPlan) (i : Ident) : String :=
  firstArm plan.textArms (· == i) "UNKNOWN"

/-- The variant that a value of the codec stands for. -/
def ofChoice (plan : EnumPlan) : Choice → Ident
  | .declared n => plan.ofNumber n
  | .unrecognized => plan.sentinel

section

variable {e : Enum} {plan : EnumPlan} {u v : EnumVariant}

/-! ## The tables -/

lemma Follows.eq_of_number_eq (h : plan.Follows e) (hu : u ∈ plan.variants)
    (hv : v ∈ plan.variants) (hnumber : u.value.number = v.value.number) : u = v :=
  inj_on_of_nodup_map h.numbers_nodup hu hv hnumber

variable {value : EnumValue} {name : String}

lemma Follows.exists_variant (h : plan.Follows e) (hvalue : value ∈ e.values) :
    ∃ v ∈ plan.variants, v.value.number = value.number :=
  mem_map.mp ((h.mem_numbers _).mpr (mem_map_of_mem hvalue))

lemma Follows.ofNumber_eq (h : plan.Follows e) (hv : v ∈ plan.variants) :
    plan.ofNumber v.value.number = v.ident := by
  refine firstArm_eq (mem_map_of_mem hv) (beq_self_eq_true _) fun arm harm htakes => ?_
  obtain ⟨w, hw, rfl⟩ := mem_map.mp harm
  rw [h.eq_of_number_eq hw hv (beq_iff_eq.mp htakes)]

lemma Follows.ofNumber_eq_sentinel (h : plan.Follows e) {n : Int32}
    (hn : n ∉ e.values.map EnumValue.number) : plan.ofNumber n = plan.sentinel := by
  refine firstArm_eq_rest fun arm harm => ?_
  obtain ⟨w, hw, rfl⟩ := mem_map.mp harm
  rw [beq_eq_false_iff_ne]
  rintro rfl
  exact hn ((h.mem_numbers _).mp (mem_map_of_mem hw))

lemma Follows.mem_names (h : plan.Follows e) {i : Ident} :
    (name, i) ∈ plan.names ↔ ∃ value ∈ e.values, value.name = name ∧
      ∃ v ∈ plan.variants, v.value.number = value.number ∧ v.ident = i := by
  constructor
  · intro hmem
    obtain ⟨value, hvalue, hname, hvariant⟩ := exists_of_forall₂ h.names hmem
    exact ⟨value, hvalue, hname.symm, hvariant⟩
  · rintro ⟨value, hvalue, rfl, v, hv, hnumber, rfl⟩
    obtain ⟨entry, hentry, hname, w, hw, hnumber', hident⟩ := exists_of_forall₂ h.names.flip hvalue
    cases h.eq_of_number_eq hw hv (hnumber'.trans hnumber.symm)
    rw [hident, ← hname]
    exact hentry

lemma contains_nameArm {i : Ident} :
    (((plan.names.filter fun n => n.2 == i).map Prod.fst).contains name) ↔
      (name, i) ∈ plan.names := by
  simp

lemma Follows.ofName_eq (h : plan.Follows e) (hnames : (e.values.map EnumValue.name).Nodup)
    (hvalue : value ∈ e.values) (hv : v ∈ plan.variants) (hnumber : v.value.number = value.number) :
    plan.ofName value.name = v.ident := by
  refine firstArm_eq (mem_map_of_mem hv) (contains_nameArm.mpr ?_) fun arm harm htakes => ?_
  · exact h.mem_names.mpr ⟨value, hvalue, rfl, v, hv, hnumber, rfl⟩
  · obtain ⟨w, -, rfl⟩ := mem_map.mp harm
    obtain ⟨value', hvalue', hname, u, hu, hnumber', hident⟩ :=
      h.mem_names.mp (contains_nameArm.mp htakes)
    cases inj_on_of_nodup_map hnames hvalue' hvalue hname
    rw [← hident, h.eq_of_number_eq hu hv (hnumber'.trans hnumber.symm)]

lemma Follows.ofName_eq_sentinel (h : plan.Follows e)
    (hname : name ∉ e.values.map EnumValue.name) : plan.ofName name = plan.sentinel := by
  refine firstArm_eq_rest fun arm harm => ?_
  obtain ⟨w, -, rfl⟩ := mem_map.mp harm
  rw [Bool.eq_false_iff, Ne, contains_nameArm, h.mem_names]
  rintro ⟨value, hvalue, rfl, -⟩
  exact hname (mem_map_of_mem hvalue)

lemma ofJson_number (plan : EnumPlan) (n : Int32) :
    plan.ofJson (.number (.integer n.toInt)) = plan.ofNumber n := by
  have hholds : Numeric.Width.int32.holds n.toInt := by
    have hleast := n.le_toInt
    have hgreatest := n.toInt_lt
    rw [Numeric.Width.holds_iff, Numeric.Width.least, Numeric.Width.greatest]
    omega
  rw [ofJson, if_pos hholds, n.ofInt_toInt]

section

variable {β : Type} (f : EnumVariant → β) (rest : β)

lemma variantArm_eq (hidents : (plan.variants.map EnumVariant.ident).Nodup)
    (hv : v ∈ plan.variants) :
    firstArm (plan.variants.map fun v => (v.ident, f v)) (· == v.ident) rest = f v := by
  refine firstArm_eq (mem_map_of_mem hv) (beq_self_eq_true _) fun arm harm htakes => ?_
  obtain ⟨w, hw, rfl⟩ := mem_map.mp harm
  rw [inj_on_of_nodup_map hidents hw hv (beq_iff_eq.mp htakes)]

lemma variantArm_sentinel (hsentinel : plan.sentinel ∉ plan.variants.map EnumVariant.ident) :
    firstArm (plan.variants.map fun v => (v.ident, f v)) (· == plan.sentinel) rest = rest := by
  refine firstArm_eq_rest fun arm harm => ?_
  obtain ⟨w, hw, rfl⟩ := mem_map.mp harm
  rw [beq_eq_false_iff_ne]
  exact fun hident => hsentinel (hident ▸ mem_map_of_mem hw)

end

/-! ## The values of the codec -/

/-- The values that the codec has for an enum are the variants, with their numbers and texts. -/
structure Presents (plan : EnumPlan) (e : Enum) : Prop where
  ofNumber : ∀ n, plan.ofChoice (e.ofNumber n) = plan.ofNumber n
  ofJson : ∀ value, plan.ofChoice (e.ofJson value) = plan.ofJson value
  number : ∀ c, e.has c = true → plan.number (plan.ofChoice c) = e.number c
  jsonText : ∀ c, e.has c = true → plan.jsonText (plan.ofChoice c) = e.jsonText c
  exists_unique : ∀ i ∈ plan.sentinel :: plan.variants.map EnumVariant.ident,
    ∃! c, e.has c = true ∧ plan.ofChoice c = i

section

variable (h : plan.Follows e)

include h

lemma Follows.ofChoice_ofNumber (n : Int32) : plan.ofChoice (e.ofNumber n) = plan.ofNumber n := by
  unfold Enum.ofNumber
  split_ifs with hn
  · rfl
  · refine (h.ofNumber_eq_sentinel ?_).symm
    simpa using hn

lemma Follows.ofChoice_ofName (hnames : (e.values.map EnumValue.name).Nodup) (name : String) :
    plan.ofChoice (e.ofName name) = plan.ofName name := by
  by_cases hname : name ∈ e.values.map EnumValue.name
  · obtain ⟨value, hvalue, rfl⟩ := mem_map.mp hname
    obtain ⟨v, hv, hnumber⟩ := h.exists_variant hvalue
    rw [Enum.ofName_name hnames hvalue, h.ofName_eq hnames hvalue hv hnumber, ← hnumber]
    exact h.ofNumber_eq hv
  · rw [h.ofName_eq_sentinel hname]
    have hnone : (e.values.map EnumValue.number).find?
        (fun n => e.values.any fun v => v.number == n && v.name == name) = none := by
      rw [find?_eq_none]
      intro n _ hany
      obtain ⟨v, hv, heq⟩ := any_eq_true.mp hany
      rw [Bool.and_eq_true, beq_iff_eq, beq_iff_eq] at heq
      exact hname (heq.2 ▸ mem_map_of_mem hv)
    rw [Enum.ofName, hnone]
    rfl

lemma Follows.ofChoice_ofJson (hnames : (e.values.map EnumValue.name).Nodup) (value : Json) :
    plan.ofChoice (e.ofJson value) = plan.ofJson value := by
  cases value with
  | number n =>
    cases n with
    | integer n =>
      rw [Enum.ofJson, ofJson]
      split_ifs
      · exact h.ofChoice_ofNumber _
      · rfl
    | double x => rfl
  | string name => exact h.ofChoice_ofName hnames name
  | null | bool b | array items | object members => rfl

lemma Follows.ofChoice_cases {c : Choice} (hc : e.has c) :
    (∃ v ∈ plan.variants, c = .declared v.value.number ∧ plan.ofChoice c = v.ident) ∨
      c = .unrecognized := by
  cases c with
  | declared n =>
    obtain ⟨value, hvalue, hn⟩ := any_eq_true.mp hc
    obtain ⟨v, hv, hnumber⟩ := h.exists_variant hvalue
    obtain rfl : value.number = n := beq_iff_eq.mp hn
    rw [← hnumber]
    exact .inl ⟨v, hv, rfl, h.ofNumber_eq hv⟩
  | unrecognized => exact .inr rfl

lemma Follows.jsonText_declared (hv : v ∈ plan.variants) :
    e.jsonText (.declared v.value.number) = v.value.name := by
  rw [Enum.jsonText, Enum.nameOf?, h.first v hv]
  rfl

end

lemma presents (h : EnumPlan.ofEnum e = .ok plan)
    (hnames : (e.values.map EnumValue.name).Nodup)
    (hfree : ¬ (-1 ∈ e.values.map EnumValue.number ∧
      Int32.minValue ∈ e.values.map EnumValue.number))
    (hidents : (plan.variants.map EnumVariant.ident).Nodup) : plan.Presents e := by
  have hfollows := follows h
  have hsentinel := sentinel_not_mem h
  obtain ⟨-, -, -, -, -, hsentinelNumber⟩ := exists_draft h
  have hnumber : ∀ c, e.has c → plan.number (plan.ofChoice c) = e.number c := by
    intro c hc
    rcases hfollows.ofChoice_cases hc with ⟨v, hv, rfl, hident⟩ | rfl
    · rw [hident]
      exact variantArm_eq _ _ hidents hv
    · exact (variantArm_sentinel _ _ hsentinel).trans hsentinelNumber
  refine ⟨hfollows.ofChoice_ofNumber, hfollows.ofChoice_ofJson hnames, hnumber, fun c hc => ?_,
    fun i hi => ?_⟩
  · rcases hfollows.ofChoice_cases hc with ⟨v, hv, rfl, hident⟩ | rfl
    · rw [hident, hfollows.jsonText_declared hv]
      exact variantArm_eq _ _ hidents hv
    · exact variantArm_sentinel _ _ hsentinel
  · obtain ⟨c, hc, rfl⟩ : ∃ c, e.has c = true ∧ plan.ofChoice c = i := by
      rcases mem_cons.mp hi with rfl | hi
      · exact ⟨.unrecognized, rfl, rfl⟩
      · obtain ⟨v, hv, rfl⟩ := mem_map.mp hi
        have hvalue := mem_of_find?_eq_some (hfollows.first v hv)
        refine ⟨.declared v.value.number, any_eq_true.mpr ⟨_, hvalue, ?_⟩, ?_⟩
        · exact beq_self_eq_true _
        · exact hfollows.ofNumber_eq hv
    -- Values that differ have different numbers.
    refine ⟨c, ⟨hc, rfl⟩, ?_⟩
    rintro c' ⟨hc', heq⟩
    have hunused : unusedNumber (e.values.map EnumValue.number) ∉
        e.values.map EnumValue.number := by
      rwa [unusedNumber_mem_iff]
    have hsame : e.number c' = e.number c := by
      rw [← hnumber c' hc', ← hnumber c hc, heq]
    rw [← Enum.ofNumber_number hc' hunused, hsame, Enum.ofNumber_number hc hunused]

/-- The conversions of an enum undo one another. -/
theorem conversions_inverse (h : EnumPlan.ofEnum e = .ok plan)
    (hnames : (e.values.map EnumValue.name).Nodup)
    (hfree : ¬ (-1 ∈ e.values.map EnumValue.number ∧
      Int32.minValue ∈ e.values.map EnumValue.number))
    (hidents : (plan.variants.map EnumVariant.ident).Nodup) :
    (∀ i ∈ plan.sentinel :: plan.variants.map EnumVariant.ident,
      plan.ofNumber (plan.number i) = i) ∧
    (∀ n, (∃ v ∈ plan.variants, v.value.number = n ∧ plan.ofNumber n = v.ident) ∨
      n ∉ e.values.map EnumValue.number ∧ plan.ofNumber n = plan.sentinel) ∧
    (∀ value ∈ e.values, ∃ v ∈ plan.variants, v.value.number = value.number ∧
      plan.ofJson (.string value.name) = v.ident ∧
      plan.ofJson (.number (.integer value.number.toInt)) = v.ident) ∧
    (∀ v ∈ plan.variants, plan.ofJson (.string (plan.jsonText v.ident)) = v.ident) ∧
    plan.Presents e := by
  have hfollows := follows h
  refine ⟨fun i hi => ?_, fun n => ?_, fun value hvalue => ?_, fun v hv => ?_,
    presents h hnames hfree hidents⟩
  · rcases List.mem_cons.mp hi with rfl | hi
    · rw [number, variantArm_sentinel _ _ (sentinel_not_mem h)]
      refine hfollows.ofNumber_eq_sentinel ?_
      rwa [← hfollows.mem_numbers, sentinelNumber_mem_iff h]
    · obtain ⟨v, hv, rfl⟩ := List.mem_map.mp hi
      rw [number, variantArm_eq _ _ hidents hv]
      exact hfollows.ofNumber_eq hv
  · by_cases hn : n ∈ e.values.map EnumValue.number
    · obtain ⟨v, hv, rfl⟩ := List.mem_map.mp ((hfollows.mem_numbers n).mpr hn)
      exact .inl ⟨v, hv, rfl, hfollows.ofNumber_eq hv⟩
    · exact .inr ⟨hn, hfollows.ofNumber_eq_sentinel hn⟩
  · obtain ⟨v, hv, hnumber⟩ := hfollows.exists_variant hvalue
    refine ⟨v, hv, hnumber, hfollows.ofName_eq hnames hvalue hv hnumber, ?_⟩
    rw [ofJson_number, ← hnumber]
    exact hfollows.ofNumber_eq hv
  · rw [jsonText, textArms, variantArm_eq _ _ hidents hv]
    exact hfollows.ofName_eq hnames (List.mem_of_find?_eq_some (hfollows.first v hv)) hv rfl

end

/-- Levels of a lamp: a gap, two names of one number, a negative number, and names that the
sentinel has in texts. -/
private def lampLevels : Enum where
  name := "Level"
  values := [⟨"OFF", 0, []⟩, ⟨"LOW", 2, []⟩, ⟨"DIM", 2, []⟩, ⟨"UNRECOGNIZED", -1, []⟩,
    ⟨"UNKNOWN", 7, []⟩]
  path := []

theorem conversions_inverse_lamp : ∃ plan, EnumPlan.ofEnum lampLevels = .ok plan ∧
    plan.variants.map (fun v => v.ident.name) = ["Off", "Low", "Unrecognized", "Unknown"] ∧
    plan.ofNumber (plan.number plan.sentinel) = plan.sentinel ∧
    (∀ v ∈ plan.variants, plan.ofJson (.string (plan.jsonText v.ident)) = v.ident) ∧
    plan.Presents lampLevels := by
  have hplan : EnumPlan.ofEnum lampLevels = .ok {
      variants := [⟨⟨false, "Off"⟩, ⟨"OFF", 0, []⟩⟩, ⟨⟨false, "Low"⟩, ⟨"LOW", 2, []⟩⟩,
        ⟨⟨false, "Unrecognized"⟩, ⟨"UNRECOGNIZED", -1, []⟩⟩,
        ⟨⟨false, "Unknown"⟩, ⟨"UNKNOWN", 7, []⟩⟩]
      names := [("OFF", ⟨false, "Off"⟩), ("LOW", ⟨false, "Low"⟩), ("DIM", ⟨false, "Low"⟩),
        ("UNRECOGNIZED", ⟨false, "Unrecognized"⟩), ("UNKNOWN", ⟨false, "Unknown"⟩)]
      sentinel := ⟨false, "Unrecognized_"⟩
      sentinelNumber := Int32.minValue
      default := ⟨false, "Off"⟩ } := by
    decide +kernel
  obtain ⟨hinverse, -, -, htexts, hpresents⟩ :=
    conversions_inverse hplan (by decide) (by decide) (by decide)
  exact ⟨_, hplan, rfl, hinverse _ (List.mem_cons_self ..), htexts, hpresents⟩

end EnumPlan

end Protobuf.Plan
