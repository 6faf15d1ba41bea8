import Protobuf.Proofs.Codec.NumeralReads
import Protobuf.Proofs.Plan.Alike

/-!
# JSON and the styles of 64-bit integers

A message that is read from JSON with 64-bit integers as numbers is also read with
them as texts, and then holds their canonical numerals. The other way round, blanks
around the keys of maps are in the way, and nothing else is.
-/

namespace Protobuf.Codec

open Plan

variable {s : Schema}

/-! ## Numbers that stay numbers -/

lemma ShownAs.eq (htext : ∀ t, s.textWidth? t = none) {t : Scalar} {p q : Primitive}
    (h : ShownAs s t p q) : p = q := by
  simpa only [ShownAs, htext] using h

mutual

theorem Shown.eq (htext : ∀ t, s.textWidth? t = none) {kind : ValueKind} {v v' : Value} :
    Shown s kind v v' → v = v'
  | .scalar h => by rw [h.eq htext]
  | .choice _ _ _ => rfl
  | .wrapper _ _ => rfl
  | .time _ => rfl
  | .message h => by rw [h.eq htext]

theorem ValuesShown.eq (htext : ∀ t, s.textWidth? t = none) {kind : ValueKind}
    {vs vs' : List Value} : ValuesShown s kind vs vs' → vs = vs'
  | .nil => rfl
  | .cons hv hvs => by rw [hv.eq htext, hvs.eq htext]

theorem EntriesShown.eq (htext : ∀ t, s.textWidth? t = none) {t : Scalar} {kind : ValueKind}
    {es es' : List (Primitive × Value)} : EntriesShown s t kind es es' → es = es'
  | .nil => rfl
  | .cons hk hv hes => by rw [hk.eq htext, hv.eq htext, hes.eq htext]

theorem SlotShown.eq (htext : ∀ t, s.textWidth? t = none) {m : Member} {slot slot' : Slot} :
    SlotShown s m slot slot' → slot = slot'
  | .plain _ h => by rw [h.eq htext]
  | .absent _ => rfl
  | .present _ h => by rw [h.eq htext]
  | .repeated _ h => by rw [h.eq htext]
  | .map _ _ h => by rw [h.eq htext]
  | .unset _ => rfl
  | .chosen _ h => by rw [h.eq htext]

theorem SlotsShown.eq (htext : ∀ t, s.textWidth? t = none) {members : List Member}
    {slots slots' : List Slot} : SlotsShown s members slots slots' → slots = slots'
  | .nil => rfl
  | .cons h hs => by rw [h.eq htext, hs.eq htext]

end

namespace Schema

lemma not_readsKey (htext : ∀ t, s.textWidth? t = none) {name key : String}
    {members : List (String × Json)} : ¬ s.ReadsKey name members key := by
  intro h
  induction h with
  | own hm hfound hkey =>
    obtain ⟨_, _, _, _, t, -, -, -, hsome, -⟩ := mem_numeralKeys.mp hkey
    rw [htext] at hsome
    cases hsome
  | inside _ _ _ _ ih => exact ih

variable {files : List Descriptor.File} {options : Options}

lemma ofFiles_withLongs (hs : ofFiles files options = .ok s) (style : LongStyle) :
    ofFiles files { options with longs := style } = .ok (s.withLongs style) := by
  have hplans (registry : Schema.Registry) :
      planAll ⟨registry, { options with longs := style }, [], .empty⟩ =
        planAll ⟨registry, options, [], .empty⟩ := by
    have halike : Scope.Alike ⟨registry, { options with longs := style }, [], .empty⟩
        ⟨registry, options, [], .empty⟩ := ⟨.refl registry, rfl, rfl, rfl⟩
    simp only [planAll, halike.members_eq]
  unfold ofFiles at hs ⊢
  obtain ⟨checked, hchecked, hs⟩ := ok_of_bind hs
  obtain ⟨plans, hplanned, hs⟩ := ok_of_bind hs
  cases hs
  rw [hchecked]
  change (planAll _ >>= _) = _
  rw [hplans, hplanned]
  rfl

/-- What is read with numbers is read with numerals, and then it holds the numerals of the numbers.
What is read with numerals is read with numbers if and only if no key of a map that was read as a
numeral has blanks around it. The two styles that hold numbers read alike. -/
theorem ofJson_longStyles (hs : ofFiles files options = .ok s) (name : String) (value : Json) :
    (∀ style, ofFiles files { options with longs := style } = .ok (s.withLongs style)) ∧
    (s.withLongs .wide).ofJson name value = (s.withLongs .number).ofJson name value ∧
    (∀ m, (s.withLongs .number).ofJson name value = .ok m →
      ∃ m', (s.withLongs .decimal).ofJson name value = .ok m' ∧
        SlotsShown (s.withLongs .decimal) (s.members name) m m') ∧
    ∀ m', (s.withLongs .decimal).ofJson name value = .ok m' →
      ((∃ m, (s.withLongs .number).ofJson name value = .ok m) ↔
        ∀ members key, value = .object members →
          (s.withLongs .decimal).ReadsKey name members key → Text.trim key = key) := by
  have hstyles := ofFiles_withLongs hs
  have houtcome (style : LongStyle) := ofJson_outcome (s := s.withLongs style)
    (ofFiles_wellPlanned (hstyles style)) name value
  have htext := s.textWidth?_wide
  refine ⟨hstyles, ?_, ?_, ?_⟩
  · refine ((houtcome .wide).eq (fun _ _ h => h.eq htext) ?_).symm
    rintro key ⟨members, -, hkey⟩
    exact not_readsKey htext hkey
  · intro m hm
    have hdecimal := houtcome .decimal
    rw [withLongs_withLongs, hm] at hdecimal
    exact hdecimal.of_ok_left
  · intro m' hm'
    have hdecimal := houtcome .decimal
    rw [withLongs_withLongs, hm'] at hdecimal
    constructor
    · rintro ⟨m, hm⟩ members key rfl hkey
      obtain ⟨t, k, hsome, hk⟩ := hkey.exists_keyOfJson (s.withLongs .number) rfl hm
      obtain ⟨width, hwidth⟩ := Option.isSome_iff_exists.mp hsome
      rw [keyOfJson_of_width? (s.textWidth?_number t) (width?_of_textWidth? hwidth)] at hk
      obtain ⟨n, hn⟩ := exists_of_map_eq_ok hk
      exact (Json.integerKey_eq_ok hn).2
    · intro hkeys
      rcases hdecimal.of_ok_right with ⟨m, hm, -⟩ | ⟨key, -, ⟨members, hmembers, hkey⟩, htrim⟩
      · exact ⟨m, hm⟩
      · exact absurd (hkeys members key hmembers hkey) htrim

/-! ## A ledger -/

/-- A file with one message, which holds totals by account number. -/
private def ledgerFile : Descriptor.File :=
  { name := "ledger.proto"
    package := "books"
    dialect := "proto3"
    messages := [{
      name := "Ledger"
      fields := [Sample.many (Sample.message ".books.Ledger.TotalsEntry" "totals" 1)]
      messages := [
        Sample.mapEntry "TotalsEntry" (Sample.scalar .int64) (Sample.scalar .int64)] }] }

private def ledgerSchema : Schema := planned [ledgerFile] {}

private lemma ofFiles_ledger : ofFiles [ledgerFile] {} = .ok ledgerSchema :=
  ofFiles_eq_planned (by decide +kernel)

private def isLedger : List Member → Bool
  | [.field totals] => decide (jsonNames totals.jsonName totals.field.name = ["totals"]) &&
      match totals.layout with
      | .map _ account total => account.kind == .scalar .int64 && total.kind == .scalar .int64
      | _ => false
  | _ => false

private def ledgerJson (account : String) (total : Int) : Json :=
  .object [("totals", .object [(account, .number (.integer total))])]

private lemma ofJson_ledgerJson (style : LongStyle) (key : String) (n : Int) :
    (ledgerSchema.withLongs style).ofJson ".books.Ledger" (ledgerJson key n) =
      ((ledgerSchema.withLongs style).keyOfJson .int64 key).bind fun k =>
        ((ledgerSchema.withLongs style).valueOfJson (.scalar .int64) (.number (.integer n))).map
          fun v => [.map [(k, v)]] := by
  have hledger : isLedger ((ledgerSchema.withLongs style).members ".books.Ledger") :=
    show isLedger (ledgerSchema.members ".books.Ledger") = true by decide +kernel
  generalize ledgerSchema.withLongs style = s at hledger ⊢
  unfold isLedger at hledger
  split at hledger
  · rename_i totals hmembers
    rw [Bool.and_eq_true, decide_eq_true_eq] at hledger
    obtain ⟨hnames, hkinds⟩ := hledger
    split at hkinds
    · rename_i entry account total hlayout
      rw [Bool.and_eq_true, beq_iff_eq, beq_iff_eq] at hkinds
      have hfield : Json.field? [("totals", .object [(key, .number (.integer n))])]
          (jsonNames totals.jsonName totals.field.name) =
            some (.object [(key, .number (.integer n))]) := by
        rw [hnames]
        rfl
      change s.slotsOfJson _ (s.members ".books.Ledger") = _
      rw [hmembers, slotsOfJson, slotOfJson_of_some hfield, fieldOfJson_of_map hlayout, hkinds.1,
        hkinds.2]
      change ((s.entriesOfJson _ _ [(key, .number (.integer n))] []).map Slot.map).bind _ = _
      rw [entriesOfJson_of_scalar rfl]
      simp only [entriesOfJson, slotsOfJson]
      cases s.keyOfJson .int64 key with
      | error e => rfl
      | ok k => cases s.valueOfJson (.scalar .int64) (.number (.integer n)) <;> rfl
    · cases hkinds
  · cases hledger

/-- A blank before an account number is dropped from the numeral and refused for the number. -/
theorem ofJson_padded_account : ∃ s₁ s₂ : Schema, ofFiles [ledgerFile] {} = .ok s₁ ∧
    ofFiles [ledgerFile] { longs := .decimal } = .ok s₂ ∧
    s₁.ofJson ".books.Ledger" (ledgerJson " 5" 7) = .error (.mapKey " 5") ∧
    s₂.ofJson ".books.Ledger" (ledgerJson " 5" 7) =
      .ok [.map [(.string "5", .scalar (.string "7"))]] := by
  refine ⟨ledgerSchema.withLongs .number, ledgerSchema.withLongs .decimal,
    ofFiles_withLongs ofFiles_ledger .number, ofFiles_withLongs ofFiles_ledger .decimal, ?_, ?_⟩
  · rw [ofJson_ledgerJson, keyOfJson_of_width? (ledgerSchema.textWidth?_number _) rfl]
    rfl
  · rw [ofJson_ledgerJson, keyOfJson_of_textWidth? (ledgerSchema.textWidth?_decimal rfl),
      valueOfJson, ledgerSchema.textWidth?_decimal rfl]
    rfl

/-- Without the blank the number and the numeral are read. -/
theorem ofJson_longStyles_ledger : ∃ s : Schema, ofFiles [ledgerFile] {} = .ok s ∧
    (s.withLongs .number).ofJson ".books.Ledger" (ledgerJson "005" 7) =
      .ok [.map [(.int64 5, .scalar (.int64 7))]] ∧
    ∃ m', (s.withLongs .decimal).ofJson ".books.Ledger" (ledgerJson "005" 7) = .ok m' ∧
      SlotsShown (s.withLongs .decimal) (s.members ".books.Ledger")
        [.map [(.int64 5, .scalar (.int64 7))]] m' := by
  have hnumber : (ledgerSchema.withLongs .number).ofJson ".books.Ledger" (ledgerJson "005" 7) =
      .ok [.map [(.int64 5, .scalar (.int64 7))]] := by
    rw [ofJson_ledgerJson, keyOfJson_of_width? (ledgerSchema.textWidth?_number _) rfl,
      valueOfJson, ledgerSchema.textWidth?_number]
    rfl
  obtain ⟨-, -, hdecimal, -⟩ :=
    ofJson_longStyles ofFiles_ledger ".books.Ledger" (ledgerJson "005" 7)
  exact ⟨ledgerSchema, ofFiles_ledger, hnumber, hdecimal _ hnumber⟩

end Schema

end Protobuf.Codec
