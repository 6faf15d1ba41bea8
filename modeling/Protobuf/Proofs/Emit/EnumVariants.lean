import Protobuf.Proofs.Emit.VariantNames

/-!
# The variants of an enum

Every number of an enum has one variant, which carries the first value declared with
the number, and every name stands for the variant of its number. A variant is called
after its name, or, if that identifier is in use, after its name and the size of its
number. Two variants are called alike if and only if both identifiers of one are in
use before it.
-/

open List Except Protobuf.Naming

namespace Protobuf.Plan

open Protobuf.Schema
open Source

/-! ## One value after the other -/

/-- The identifier of a variant, given its identifier without a number and those in use. -/
def assignedIdent (inUse : List Ident) (base : Ident) (number : Int32) : Ident :=
  if base ∈ inUse then numberedIdent base number else base

/-- Each variant has the identifier that those before it leave to it. -/
def Assigned (variants : List EnumVariant) : Prop :=
  ∀ (earlier : List EnumVariant) (v : EnumVariant) (later : List EnumVariant),
    variants = earlier ++ v :: later →
    ∃ base, Naming.variantIdent? v.value.name = some base ∧
      v.ident = assignedIdent (earlier.map EnumVariant.ident) base v.value.number

lemma Assigned.raw {variants : List EnumVariant} (h : Assigned variants) {v : EnumVariant}
    (hv : v ∈ variants) : v.ident.raw = false := by
  obtain ⟨earlier, later, hsplit⟩ := append_of_mem hv
  obtain ⟨base, hbase, hident⟩ := h earlier v later hsplit
  rw [hident, assignedIdent]
  split_ifs
  · rfl
  · exact (variantIdent?_eq_some hbase).1

lemma Assigned.concat {variants : List EnumVariant} (h : Assigned variants) {v : EnumVariant}
    {base : Ident} (hbase : Naming.variantIdent? v.value.name = some base)
    (hv : v.ident = assignedIdent (variants.map EnumVariant.ident) base v.value.number) :
    Assigned (variants ++ [v]) := by
  intro earlier w later hsplit
  rcases eq_nil_or_concat later with rfl | ⟨later, u, rfl⟩
  · obtain ⟨rfl, heq⟩ := append_inj' hsplit rfl
    cases heq
    exact ⟨base, hbase, hv⟩
  · rw [concat_eq_append, ← cons_append, ← append_assoc] at hsplit
    exact h earlier w later (append_inj' hsplit rfl).1

/-- What is known of the draft after some values of an enum. -/
structure Drafted (values : List EnumValue) (d : EnumDraft) : Prop where
  used : ∀ text, text ∈ d.used ↔ ∃ v ∈ d.variants, v.ident.name = text
  numbers_nodup : (d.variants.map fun v => v.value.number).Nodup
  mem_numbers : ∀ n, n ∈ d.variants.map (fun v => v.value.number) ↔
    n ∈ values.map EnumValue.number
  first : ∀ v ∈ d.variants, values.find? (fun w => w.number == v.value.number) = some v.value
  names : List.Forall₂ (fun value entry => entry.1 = value.name ∧
    ∃ v ∈ d.variants, v.value.number = value.number ∧ v.ident = entry.2) values d.names
  assigned : Assigned d.variants

lemma drafted_empty : Drafted [] ⟨[], [], []⟩ where
  used := by simp
  numbers_nodup := nodup_nil
  mem_numbers := by simp
  first := by simp
  names := .nil
  assigned := by simp [Assigned]

section

variable {values : List EnumValue} {d d' : EnumDraft} {value : EnumValue}

section

variable (h : Drafted values d)

include h

lemma Drafted.text_mem_used {base : Ident} (hbase : base.raw = false) :
    base.text ∈ d.used ↔ base ∈ d.variants.map EnumVariant.ident := by
  rw [Ident.text, hbase, if_neg Bool.false_ne_true, h.used, mem_map]
  refine exists_congr fun v => and_congr_right fun hv => ?_
  have hraw := h.assigned.raw hv
  constructor
  · intro hname
    cases hident : v.ident
    cases base
    simp_all
  · rintro rfl
    rfl

/-- A variant is called after its name, with a number if need be; that fails only for a name that
gives no identifier. -/
lemma Drafted.variantIdent_eq :
    variantIdent d.used value = (ident value.name (Naming.variantIdent? value.name)).map fun base =>
      assignedIdent (d.variants.map EnumVariant.ident) base value.number := by
  unfold variantIdent
  cases hbase : variantIdent? value.name with
  | none => rfl
  | some base =>
    obtain ⟨hraw, hident, -⟩ := variantIdent?_eq_some hbase
    have hused := h.text_mem_used hraw
    have hnumbered := Ident.ofText?_of_isIdentifier (isIdentifier_numberedIdent hident value.number)
    change (if d.used.contains base.text = true then _ else _) =
      ok (assignedIdent (d.variants.map EnumVariant.ident) base value.number)
    by_cases hmem : base ∈ d.variants.map EnumVariant.ident
    · rw [if_pos (contains_iff_mem.mpr (hused.mpr hmem)), assignedIdent, if_pos hmem]
      exact congrArg (ident _) hnumbered
    · rw [if_neg (by rw [contains_iff_mem, hused]; exact hmem), assignedIdent, if_neg hmem]
      rfl

lemma Drafted.find?_eq_none :
    d.variants.find? (fun v => v.value.number == value.number) = none ↔
      value.number ∉ values.map EnumValue.number := by
  rw [← h.mem_numbers, List.find?_eq_none]
  simp

/-- A value whose number is declared is one more name of the variant. -/
lemma Drafted.add_alias {v : EnumVariant}
    (hv : d.variants.find? (fun v => v.value.number == value.number) = some v) :
    Drafted (values ++ [value]) { d with names := d.names ++ [(value.name, v.ident)] } := by
  have hmem := mem_of_find?_eq_some hv
  have hnumber : v.value.number = value.number := by simpa using find?_some hv
  refine ⟨h.used, h.numbers_nodup, fun n => ?_, fun w hw => ?_, ?_, h.assigned⟩
  · have hdeclared : value.number ∈ values.map EnumValue.number :=
      (h.mem_numbers _).mp (hnumber ▸ mem_map_of_mem hmem)
    rw [h.mem_numbers, map_append, mem_append]
    constructor
    · exact .inl
    · rintro (hn | hn)
      · exact hn
      · rwa [mem_singleton.mp hn]
  · rw [find?_append, h.first w hw]
    rfl
  · exact rel_append h.names (.cons ⟨rfl, v, hmem, hnumber, rfl⟩ .nil)

/-- A value with a new number gets a variant. -/
lemma Drafted.add_variant {base : Ident} (hnew : value.number ∉ values.map EnumValue.number)
    (hbase : Naming.variantIdent? value.name = some base) {i : Ident}
    (hi : i = assignedIdent (d.variants.map EnumVariant.ident) base value.number) :
    Drafted (values ++ [value])
      { variants := d.variants ++ [⟨i, value⟩]
        names := d.names ++ [(value.name, i)]
        used := i.text :: d.used } := by
  have hassigned : Assigned (d.variants ++ [⟨i, value⟩]) := h.assigned.concat hbase hi
  have hraw : i.raw = false := hassigned.raw (v := ⟨i, value⟩) (by simp)
  have hnone : ∀ w ∈ values, w.number ≠ value.number := fun w hw heq =>
    hnew (heq ▸ mem_map_of_mem hw)
  refine ⟨fun text => ?_, ?_, fun n => ?_, fun w hw => ?_, ?_, hassigned⟩
  · have htext : i.text = i.name := by rw [Ident.text, hraw, if_neg Bool.false_ne_true]
    rw [mem_cons, h.used, htext]
    constructor
    · rintro (rfl | ⟨v, hv, hname⟩)
      · exact ⟨⟨i, value⟩, by simp, rfl⟩
      · exact ⟨v, by simp [hv], hname⟩
    · rintro ⟨v, hv, rfl⟩
      rcases mem_append.mp hv with hv | hv
      · exact .inr ⟨v, hv, rfl⟩
      · rw [mem_singleton.mp hv]
        exact .inl rfl
  · rw [map_append, nodup_append]
    refine ⟨h.numbers_nodup, nodup_singleton _, fun a ha b hb => ?_⟩
    rw [mem_singleton.mp hb]
    rintro rfl
    exact hnew ((h.mem_numbers _).mp ha)
  · rw [map_append, map_append, mem_append, mem_append, h.mem_numbers]
    rfl
  · rw [find?_append]
    rcases mem_append.mp hw with hw | hw
    · rw [h.first w hw]
      rfl
    · rw [mem_singleton.mp hw]
      have hnot : values.find? (fun w => w.number == value.number) = none := by
        simpa [find?_eq_none] using hnone
      simp [hnot]
  · refine rel_append (h.names.imp ?_) (.cons ⟨rfl, ⟨i, value⟩, by simp, rfl, rfl⟩ .nil)
    rintro w entry ⟨hname, v, hv, hnumber, hident⟩
    exact ⟨hname, v, by simp [hv], hnumber, hident⟩

lemma Drafted.add (hadd : d.add value = .ok d') : Drafted (values ++ [value]) d' := by
  unfold EnumDraft.add at hadd
  split at hadd
  · rename_i v hv
    cases hadd
    exact h.add_alias hv
  · rename_i hnone
    obtain ⟨i, hi, hadd⟩ := ok_of_bind hadd
    cases hadd
    rw [h.variantIdent_eq] at hi
    cases hbase : variantIdent? value.name with
    | none =>
      rw [hbase] at hi
      cases hi
    | some base =>
      rw [hbase] at hi
      exact h.add_variant (h.find?_eq_none.mp hnone) hbase (ok.inj hi).symm

lemma Drafted.foldlM {rest : List EnumValue} (hrest : rest.foldlM EnumDraft.add d = .ok d') :
    Drafted (values ++ rest) d' := by
  induction rest generalizing values d with
  | nil =>
    cases hrest
    rwa [append_nil]
  | cons value rest ih =>
    rw [foldlM_cons] at hrest
    obtain ⟨d₁, hd₁, hrest⟩ := ok_of_bind hrest
    rw [append_cons]
    exact ih (h.add hd₁) hrest

/-- A value can be added unless its number is new and its name gives no identifier. -/
lemma Drafted.exists_add :
    (∃ d', d.add value = .ok d') ↔ (value.number ∉ values.map EnumValue.number →
      (Naming.variantIdent? value.name).isSome) := by
  rw [← h.find?_eq_none]
  unfold EnumDraft.add
  cases d.variants.find? fun v => v.value.number == value.number with
  | some v => simp
  | none =>
    dsimp only
    rw [h.variantIdent_eq]
    cases variantIdent? value.name with
    | none => simp [ident, Except.map, bind, Except.bind]
    | some base => simp [ident, Except.map, bind, Except.bind, pure, Except.pure]

/-- There is a draft unless a value with a new number has a name that gives no identifier. -/
lemma Drafted.exists_foldlM (rest : List EnumValue) :
    (∃ d', rest.foldlM EnumDraft.add d = .ok d') ↔
      ∀ (before : List EnumValue) (value : EnumValue) (after : List EnumValue),
        rest = before ++ value :: after →
        value.number ∉ (values ++ before).map EnumValue.number →
        (Naming.variantIdent? value.name).isSome := by
  induction rest generalizing values d with
  | nil => simp [pure, Except.pure]
  | cons value rest ih =>
    constructor
    · rintro ⟨d', hd'⟩ before v after hsplit hnew
      rw [foldlM_cons] at hd'
      obtain ⟨d₁, hd₁, hrest⟩ := ok_of_bind hd'
      cases before with
      | nil =>
        obtain ⟨rfl, rfl⟩ := cons.inj hsplit
        exact h.exists_add.mp ⟨d₁, hd₁⟩ (by simpa using hnew)
      | cons w before =>
        obtain ⟨rfl, rfl⟩ := cons.inj hsplit
        exact (ih (h.add hd₁)).mp ⟨d', hrest⟩ before v after rfl (by simpa using hnew)
    · intro hnames
      obtain ⟨d₁, hd₁⟩ := h.exists_add.mpr fun hnew =>
        hnames [] value rest rfl (by simpa using hnew)
      obtain ⟨d', hd'⟩ := (ih (h.add hd₁)).mpr fun before v after hsplit hnew =>
        hnames (value :: before) v after (by rw [hsplit]; rfl) (by simpa using hnew)
      refine ⟨d', ?_⟩
      rw [foldlM_cons, hd₁]
      exact hd'

end

end

/-! ## Variants that are called alike -/

section

variable {variants : List EnumVariant}

lemma nodup_idents_iff : (variants.map EnumVariant.ident).Nodup ↔
    ∀ (earlier : List EnumVariant) (v : EnumVariant) (later : List EnumVariant),
      variants = earlier ++ v :: later →
      v.ident ∉ earlier.map EnumVariant.ident := by
  constructor
  · rintro h earlier v later rfl
    rw [map_append, map_cons] at h
    exact fun hmem => (nodup_append.mp h).2.2 _ hmem _ (mem_cons_self ..) rfl
  · induction variants using reverseRecOn with
    | nil => simp
    | append_singleton variants v ih =>
      intro h
      rw [map_append, nodup_append]
      refine ⟨ih fun earlier w later hsplit => ?_, nodup_singleton _, fun a ha b hb => ?_⟩
      · exact h earlier w (later ++ [v]) (by rw [hsplit]; simp)
      · rw [mem_singleton.mp hb]
        rintro rfl
        exact h variants v [] rfl ha

/-- Two variants are called alike if and only if both identifiers of one are in use before it. -/
lemma Assigned.nodup_iff (h : Assigned variants) : (variants.map EnumVariant.ident).Nodup ↔
    ∀ (earlier : List EnumVariant) (v : EnumVariant) (later : List EnumVariant) base,
      variants = earlier ++ v :: later →
      Naming.variantIdent? v.value.name = some base → base ∈ earlier.map EnumVariant.ident →
      numberedIdent base v.value.number ∉ earlier.map EnumVariant.ident := by
  rw [nodup_idents_iff]
  constructor
  · intro hnodup earlier v later base hsplit hbase hused
    obtain ⟨base', hbase', hident⟩ := h earlier v later hsplit
    cases hbase.symm.trans hbase'
    have hnew := hnodup earlier v later hsplit
    rwa [hident, assignedIdent, if_pos hused] at hnew
  · intro hfree earlier v later hsplit
    obtain ⟨base, hbase, hident⟩ := h earlier v later hsplit
    rw [hident, assignedIdent]
    split_ifs with hused
    · exact hfree earlier v later base hsplit hbase hused
    · exact hused

/-- Three variants, in the order of declaration, have names that give one identifier, and the
numbers of the last two are opposite. -/
def HasOpposites (variants : List EnumVariant) : Prop :=
  ∃ u v w, [u, v, w].Sublist variants ∧
    Naming.variantIdent? u.value.name = Naming.variantIdent? v.value.name ∧
    Naming.variantIdent? v.value.name = Naming.variantIdent? w.value.name ∧
    w.value.number.toInt = -v.value.number.toInt

/-- The identifier that a name gives is in use after a variant with the name. -/
lemma Assigned.mem_of_mem (h : Assigned variants) {earlier later : List EnumVariant}
    (hsplit : variants = earlier ++ later) {u : EnumVariant} (hu : u ∈ earlier) {base : Ident}
    (hbase : Naming.variantIdent? u.value.name = some base) :
    base ∈ earlier.map EnumVariant.ident := by
  obtain ⟨before, after, rfl⟩ := append_of_mem hu
  obtain ⟨base', hbase', hident⟩ := h before u (after ++ later) (by simpa using hsplit)
  cases hbase.symm.trans hbase'
  unfold assignedIdent at hident
  split_ifs at hident with hused
  · rw [map_append]
    exact mem_append_left _ hused
  · rw [← hident]
    simp

lemma Assigned.not_nodup_of_hasOpposites (h : Assigned variants)
    (hopposites : HasOpposites variants) : ¬ (variants.map EnumVariant.ident).Nodup := by
  obtain ⟨u, v, w, hsublist, huv, hvw, hnumbers⟩ := hopposites
  obtain ⟨r₁, r₂, hsplit₁, hu, hvw'⟩ := cons_sublist_iff.mp hsublist
  obtain ⟨r₃, r₄, rfl, hv, hw⟩ := cons_sublist_iff.mp hvw'
  obtain ⟨a, b, rfl⟩ := append_of_mem hv
  obtain ⟨c, d, rfl⟩ := append_of_mem (singleton_sublist.mp hw)
  have hsplit₂ : variants = (r₁ ++ a) ++ v :: (b ++ (c ++ w :: d)) := by simpa using hsplit₁
  have hsplit₃ : variants = (r₁ ++ a ++ v :: b ++ c) ++ w :: d := by simpa using hsplit₁
  obtain ⟨base, hbase, hident⟩ := h _ v _ hsplit₂
  obtain ⟨base', hbase', hident'⟩ := h _ w _ hsplit₃
  cases (hbase.symm.trans hvw).trans hbase'
  have hused := h.mem_of_mem hsplit₂ (mem_append_left a hu) (huv.trans hbase)
  have hused' := h.mem_of_mem hsplit₃ (u := v) (by simp) hbase
  have hsame : numberedIdent base w.value.number = numberedIdent base v.value.number := by
    rw [numberedIdent, numberedIdent, hnumbers, Int.natAbs_neg]
  rw [assignedIdent, if_pos hused] at hident
  rw [assignedIdent, if_pos hused', hsame, ← hident] at hident'
  intro hnodup
  refine nodup_idents_iff.mp hnodup _ w _ hsplit₃ ?_
  rw [hident']
  simp

/-- Without characters of the class Prepend in the names, there is no other way to be called
alike. -/
lemma Assigned.hasOpposites (h : Assigned variants)
    (hnumbers : (variants.map fun v => v.value.number).Nodup)
    (hnames : ∀ v ∈ variants, ∀ c ∈ v.value.name.toList, Text.breakOf c ≠ .prepend)
    (hclash : ¬ (variants.map EnumVariant.ident).Nodup) : HasOpposites variants := by
  -- A variant in front that is called like a number of `base` got its number for the same `base`.
  have hplain {u : EnumVariant} {base : Ident} (hu : u ∈ variants)
      (hbase : variantIdent? u.value.name = some base) {other : EnumVariant} {j : Ident}
      (hj : variantIdent? other.value.name = some j) (n : Int32) :
      base ≠ numberedIdent j n :=
    variantIdent?_ne_numberedIdent hbase (hnames u hu) (variantIdent?_eq_some hj).2.1 n
  rw [h.nodup_iff] at hclash
  push Not at hclash
  obtain ⟨earlier, w, later, base, rfl, hbase, -, hnumbered⟩ := hclash
  obtain ⟨v, hv, hvident⟩ := mem_map.mp hnumbered
  obtain ⟨a, b, rfl⟩ := append_of_mem hv
  have hsplit : a ++ v :: b ++ w :: later = a ++ v :: (b ++ w :: later) := by simp
  obtain ⟨base', hbase', hident⟩ := h a v _ hsplit
  unfold assignedIdent at hident
  split_ifs at hident with hused
  · obtain ⟨hname, habs⟩ := numberedIdent_inj (hident.symm.trans hvident)
    have hsame : base' = base := by
      have hraw := (variantIdent?_eq_some hbase).1
      have hraw' := (variantIdent?_eq_some hbase').1
      cases base
      cases base'
      simp_all
    subst hsame
    obtain ⟨u, hu, huident⟩ := mem_map.mp hused
    obtain ⟨a₁, a₂, rfl⟩ := append_of_mem hu
    obtain ⟨base'', hbase'', hident'⟩ := h a₁ u (a₂ ++ v :: (b ++ w :: later)) (by simp)
    have huname : variantIdent? u.value.name = some base' := by
      unfold assignedIdent at hident'
      split_ifs at hident' with hused'
      · exact absurd (huident.symm.trans hident') (hplain (by simp) hbase' hbase'' _)
      · rw [hbase'', ← hident', huident]
    refine ⟨u, v, w, ?_, huname.trans hbase'.symm, hbase'.trans hbase.symm, ?_⟩
    · simp only [append_assoc, cons_append]
      refine .trans ?_ (sublist_append_right ..)
      refine .cons_cons _ (.trans (.cons_cons _ ?_) (sublist_append_right ..))
      exact singleton_sublist.mpr (by simp)
    · rcases Int.natAbs_eq_natAbs_iff.mp habs with heq | heq
      · rw [map_append, nodup_append] at hnumbers
        refine absurd (Int32.toInt_inj.mp heq) (hnumbers.2.2 _ ?_ _ ?_) <;> simp
      · omega
  · exact absurd (hident.symm.trans hvident) (hplain (by simp) hbase' hbase _)

lemma Assigned.ne_unrecognized (h : Assigned variants) {v : EnumVariant} (hv : v ∈ variants) :
    v.ident.name ≠ "Unrecognized_" := by
  obtain ⟨earlier, later, hsplit⟩ := append_of_mem hv
  obtain ⟨base, hbase, hident⟩ := h earlier v later hsplit
  rw [hident, assignedIdent]
  split_ifs
  · exact numberedIdent_ne_unrecognized base _
  · exact variantIdent?_ne_unrecognized hbase

end

/-! ## Plans -/

lemma unusedNumber_mem_iff (numbers : List Int32) :
    unusedNumber numbers ∈ numbers ↔ -1 ∈ numbers ∧ Int32.minValue ∈ numbers := by
  unfold unusedNumber
  split_ifs with h
  · simp [contains_iff_mem.mp h]
  · rw [contains_iff_mem] at h
    simp [h]

/-- What a plan says of the values of an enum, whatever the variants are called: one variant for
each number, with the first value declared, and every name with the variant of its number. -/
structure EnumPlan.Follows (plan : EnumPlan) (e : Enum) : Prop where
  numbers_nodup : (plan.variants.map fun v => v.value.number).Nodup
  mem_numbers : ∀ n, n ∈ plan.variants.map (fun v => v.value.number) ↔
    n ∈ e.values.map EnumValue.number
  first : ∀ v ∈ plan.variants,
    e.values.find? (fun w => w.number == v.value.number) = some v.value
  names : List.Forall₂ (fun value entry => entry.1 = value.name ∧
    ∃ v ∈ plan.variants, v.value.number = value.number ∧ v.ident = entry.2) e.values plan.names

variable {e : Enum} {plan : EnumPlan}

section

variable (h : EnumPlan.ofEnum e = .ok plan)

include h

lemma EnumPlan.exists_draft :
    ∃ d, Drafted e.values d ∧ plan.variants = d.variants ∧ plan.names = d.names ∧
      plan.sentinel = sentinelIdent d.used ∧
      plan.sentinelNumber = unusedNumber (e.values.map EnumValue.number) := by
  obtain ⟨d, hd, hplan⟩ := ok_of_bind h
  cases hplan
  exact ⟨d, drafted_empty.foldlM hd, rfl, rfl, rfl, rfl⟩

lemma EnumPlan.follows : plan.Follows e := by
  obtain ⟨d, hd, hvariants, hnames, -⟩ := exists_draft h
  constructor
  · rw [hvariants]
    exact hd.numbers_nodup
  · rw [hvariants]
    exact hd.mem_numbers
  · rw [hvariants]
    exact hd.first
  · rw [hvariants, hnames]
    exact hd.names

lemma EnumPlan.assigned : Assigned plan.variants := by
  obtain ⟨d, hd, hvariants, -⟩ := exists_draft h
  rw [hvariants]
  exact hd.assigned

lemma EnumPlan.sentinel_not_mem : plan.sentinel ∉ plan.variants.map EnumVariant.ident := by
  obtain ⟨d, hd, hvariants, -, hsentinel, -⟩ := exists_draft h
  rw [hvariants, hsentinel, mem_map]
  rintro ⟨v, hv, hident⟩
  unfold sentinelIdent at hident
  split_ifs at hident with hused
  · exact hd.assigned.ne_unrecognized hv (congrArg Ident.name hident)
  · rw [contains_iff_mem, hd.used] at hused
    exact hused ⟨v, hv, congrArg Ident.name hident⟩

lemma EnumPlan.sentinelNumber_mem_iff :
    plan.sentinelNumber ∈ plan.variants.map (fun v => v.value.number) ↔
      -1 ∈ e.values.map EnumValue.number ∧ Int32.minValue ∈ e.values.map EnumValue.number := by
  obtain ⟨-, -, -, -, -, hnumber⟩ := exists_draft h
  rw [(follows h).mem_numbers, hnumber, unusedNumber_mem_iff]

end

/-- Planning fails only for a name, first with its number, that gives no identifier. -/
lemma EnumPlan.exists_ofEnum : (∃ plan, EnumPlan.ofEnum e = .ok plan) ↔
    ∀ (before : List EnumValue) (value : EnumValue) (after : List EnumValue),
      e.values = before ++ value :: after →
      value.number ∉ before.map EnumValue.number →
      (Naming.variantIdent? value.name).isSome := by
  refine .trans ?_ (drafted_empty.exists_foldlM e.values)
  constructor
  · rintro ⟨plan, hplan⟩
    obtain ⟨d, hd, -⟩ := ok_of_bind hplan
    exact ⟨d, hd⟩
  · rintro ⟨d, hd⟩
    unfold EnumPlan.ofEnum
    rw [hd]
    exact ⟨_, rfl⟩

/-- When the variants of a plan, the sentinel among them, differ in their numbers and in their
identifiers. -/
theorem EnumPlan.ofEnum_distinct (e : Enum) :
    ((∃ plan, EnumPlan.ofEnum e = .ok plan) ↔
      ∀ (before : List EnumValue) (value : EnumValue) (after : List EnumValue),
        e.values = before ++ value :: after →
        value.number ∉ before.map EnumValue.number →
        (Naming.variantIdent? value.name).isSome = true) ∧
    ∀ plan, EnumPlan.ofEnum e = .ok plan →
      plan.Follows e ∧
      ((plan.sentinelNumber :: plan.variants.map fun v => v.value.number).Nodup ↔
        ¬ (-1 ∈ e.values.map EnumValue.number ∧
          Int32.minValue ∈ e.values.map EnumValue.number)) ∧
      ((plan.sentinel :: plan.variants.map EnumVariant.ident).Nodup ↔
        ∀ (earlier : List EnumVariant) (v : EnumVariant) (later : List EnumVariant) base,
          plan.variants = earlier ++ v :: later →
          Naming.variantIdent? v.value.name = some base →
          base ∈ earlier.map EnumVariant.ident →
          numberedIdent base v.value.number ∉ earlier.map EnumVariant.ident) ∧
      ((∀ value ∈ e.values, ∀ c ∈ value.name.toList, Text.breakOf c ≠ .prepend) →
        ((plan.sentinel :: plan.variants.map EnumVariant.ident).Nodup ↔
          ¬ HasOpposites plan.variants)) := by
  refine ⟨exists_ofEnum, fun plan h => ⟨follows h, ?_, ?_, fun hnames => ?_⟩⟩
  · rw [List.nodup_cons, sentinelNumber_mem_iff h]
    exact and_iff_left (follows h).numbers_nodup
  · rw [List.nodup_cons, (assigned h).nodup_iff]
    exact and_iff_right (sentinel_not_mem h)
  · rw [List.nodup_cons, and_iff_right (sentinel_not_mem h)]
    constructor
    · exact fun hnodup hopposites => (assigned h).not_nodup_of_hasOpposites hopposites hnodup
    · intro hnone
      by_contra hclash
      refine hnone ((assigned h).hasOpposites (follows h).numbers_nodup (fun v hv => ?_) hclash)
      exact hnames _ (List.mem_of_find?_eq_some ((follows h).first v hv))

private def moves (values : List (String × Int32)) : Enum :=
  ⟨"Move", values.map fun value => ⟨value.1, value.2, []⟩, []⟩

/-- Two names that give one identifier, two names of one number, and the name and the number that
the sentinel would have. -/
theorem EnumPlan.ofEnum_distinct_moves : ∃ plan,
    EnumPlan.ofEnum (moves [("UP", 0), ("Up", 1), ("RISE", 1), ("UNRECOGNIZED", -1)]) = .ok plan ∧
    plan.names.map (fun entry => entry.2.name) = ["Up", "Up_1", "Up_1", "Unrecognized"] ∧
    (plan.sentinelNumber :: plan.variants.map fun v => v.value.number).Nodup ∧
    (plan.sentinel :: plan.variants.map EnumVariant.ident).Nodup := by
  have hplan : EnumPlan.ofEnum (moves [("UP", 0), ("Up", 1), ("RISE", 1), ("UNRECOGNIZED", -1)]) =
      .ok {
        variants := [⟨⟨false, "Up"⟩, ⟨"UP", 0, []⟩⟩, ⟨⟨false, "Up_1"⟩, ⟨"Up", 1, []⟩⟩,
          ⟨⟨false, "Unrecognized"⟩, ⟨"UNRECOGNIZED", -1, []⟩⟩]
        names := [("UP", ⟨false, "Up"⟩), ("Up", ⟨false, "Up_1"⟩), ("RISE", ⟨false, "Up_1"⟩),
          ("UNRECOGNIZED", ⟨false, "Unrecognized"⟩)]
        sentinel := ⟨false, "Unrecognized_"⟩
        sentinelNumber := Int32.minValue
        default := ⟨false, "Up"⟩ } := by
    decide +kernel
  have hascii : ∀ value ∈ (moves [("UP", 0), ("Up", 1), ("RISE", 1), ("UNRECOGNIZED", -1)]).values,
      ∀ c ∈ value.name.toList, c.toNat < 128 := by
    simp [moves]
  have hnames : ∀ value ∈ (moves [("UP", 0), ("Up", 1), ("RISE", 1), ("UNRECOGNIZED", -1)]).values,
      ∀ c ∈ value.name.toList, Text.breakOf c ≠ .prepend := by
    intro value hvalue c hc hprepend
    have hclass := Text.breakOf_of_lt (hascii value hvalue c hc)
    simp [hprepend] at hclass
  obtain ⟨-, hnumbers, -, hidents⟩ := (EnumPlan.ofEnum_distinct _).2 _ hplan
  refine ⟨_, hplan, rfl, hnumbers.mpr (by decide +kernel), (hidents hnames).mpr ?_⟩
  rintro ⟨u, v, w, hsublist, -, hvw, -⟩
  cases hsublist.eq_of_length rfl
  exact absurd hvw (by decide +kernel)

/-- The size of a number says nothing of its sign, and the least number may be declared: `up` is
called like `Up`, and the sentinel has the number of `ABYSS`. -/
theorem EnumPlan.ofEnum_clash : ∃ plan,
    EnumPlan.ofEnum (moves [("UP", 0), ("Up", 1), ("up", -1), ("ABYSS", -2147483648)]) = .ok plan ∧
    plan.names.map (fun entry => entry.2.name) = ["Up", "Up_1", "Up_1", "Abyss"] ∧
    ¬ (plan.sentinel :: plan.variants.map EnumVariant.ident).Nodup ∧
    ¬ (plan.sentinelNumber :: plan.variants.map fun v => v.value.number).Nodup := by
  refine ⟨{
    variants := [⟨⟨false, "Up"⟩, ⟨"UP", 0, []⟩⟩, ⟨⟨false, "Up_1"⟩, ⟨"Up", 1, []⟩⟩,
      ⟨⟨false, "Up_1"⟩, ⟨"up", -1, []⟩⟩, ⟨⟨false, "Abyss"⟩, ⟨"ABYSS", -2147483648, []⟩⟩]
    names := [("UP", ⟨false, "Up"⟩), ("Up", ⟨false, "Up_1"⟩), ("up", ⟨false, "Up_1"⟩),
      ("ABYSS", ⟨false, "Abyss"⟩)]
    sentinel := ⟨false, "Unrecognized"⟩
    sentinelNumber := Int32.minValue
    default := ⟨false, "Up"⟩ }, ?_⟩
  decide +kernel

end Protobuf.Plan
