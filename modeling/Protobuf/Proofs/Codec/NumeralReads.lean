import Protobuf.Proofs.Codec.JsonReads

/-!
# Reading numerals for numbers

The same JSON is read twice, with 64-bit integers as numbers and with some of them
as texts. `Shown` says how what is held differs then: numerals stand for numbers.
`Outcome` says how reading differs: not at all, unless the first reader stops at the
key of a map that has blanks around it. Blanks are dropped from a key that is held
as text, and no number is read from a key with blanks around it.
-/

open Option Protobuf.Json

namespace Protobuf

open Plan List

/-! ## Numerals have no blanks -/

namespace Text

lemma not_isBlank_of_natural? {cs : List Char} {n : Nat} (h : natural? cs = some n) :
    ∀ c ∈ cs, isBlank c = false := by
  cases cs with
  | nil => simp
  | cons c cs => exact fun d hd => not_isBlank_of_isDigit (isDigit_of_appendDigits? h d hd)

lemma not_isBlank_of_integer? {signed : Bool} {cs : List Char} {n : Int}
    (h : integer? signed cs = some n) : ∀ c ∈ cs, isBlank c = false := by
  unfold integer? at h
  split at h
  · obtain ⟨k, hk, -⟩ := map_eq_some_iff.mp h
    simpa using ⟨by decide, not_isBlank_of_natural? hk⟩
  · split_ifs at h
    obtain ⟨k, hk, -⟩ := map_eq_some_iff.mp h
    obtain ⟨j, hj, -⟩ := bind_eq_some_iff.mp hk
    simpa using ⟨by decide, not_isBlank_of_natural? hj⟩
  · obtain ⟨k, hk, -⟩ := map_eq_some_iff.mp h
    exact not_isBlank_of_natural? hk

end Text

lemma Json.integerKey_eq_ok {width : Numeric.Width} {key : String} {n : Int}
    (h : integerKey width key = .ok n) : width.holds n ∧ Text.trim key = key := by
  unfold integerKey at h
  split at h
  · rename_i k hk
    cases h
    obtain ⟨hinteger, hholds⟩ := filter_eq_some_iff.mp hk
    refine ⟨hholds, ?_⟩
    rw [Text.trim, Text.trimChars_eq_self (Text.not_isBlank_of_integer? hinteger),
      String.ofList_toList]
  · cases h

lemma Json.integerKey_eq_error {width : Numeric.Width} {key : String} {e : Json.Error}
    (h : integerKey width key = .error e) : e = .mapKey key := by
  unfold integerKey at h
  split at h
  · cases h
  · exact (Except.error.inj h).symm

namespace Codec

/-! ## Outcomes -/

/-- What comes of reading with numbers and of reading with numerals: results that are related, or
the same error, unless the first one stops at a key with blanks around it. -/
inductive Outcome {α β : Type} (R : α → β → Prop) (K : String → Prop) :
    Except Json.Error α → Except Json.Error β → Prop
  | ok {a : α} {b : β} : R a b → Outcome R K (.ok a) (.ok b)
  | error (e : Json.Error) : Outcome R K (.error e) (.error e)
  | padded {key : String} (r : Except Json.Error β) : K key → Text.trim key ≠ key →
      Outcome R K (.error (.mapKey key)) r

namespace Outcome

variable {α β γ δ : Type} {R : α → β → Prop} {S : γ → δ → Prop} {K L : String → Prop}
  {x : Except Json.Error α} {y : Except Json.Error β}

lemma mono (h : Outcome R K x y) (hK : ∀ key, K key → L key) : Outcome R L x y := by
  cases h with
  | ok hab => exact .ok hab
  | error e => exact .error e
  | padded _ hkey htrim => exact .padded _ (hK _ hkey) htrim

lemma bind (h : Outcome R K x y) {f : α → Except Json.Error γ} {g : β → Except Json.Error δ}
    (hf : ∀ a b, R a b → Outcome S K (f a) (g b)) : Outcome S K (x.bind f) (y.bind g) := by
  cases h with
  | ok hab => exact hf _ _ hab
  | error e => exact .error e
  | padded _ hkey htrim => exact .padded _ hkey htrim

lemma map (h : Outcome R K x y) {f : α → γ} {g : β → δ} (hf : ∀ a b, R a b → S (f a) (g b)) :
    Outcome S K (x.map f) (y.map g) := by
  cases h with
  | ok hab => exact .ok (hf _ _ hab)
  | error e => exact .error e
  | padded _ hkey htrim => exact .padded _ hkey htrim

lemma of_ok_left {a : α} (h : Outcome R K (.ok a) y) : ∃ b, y = .ok b ∧ R a b := by
  cases h with
  | ok hab => exact ⟨_, rfl, hab⟩

lemma of_ok_right {b : β} (h : Outcome R K x (.ok b)) :
    (∃ a, x = .ok a ∧ R a b) ∨
      ∃ key, x = .error (.mapKey key) ∧ K key ∧ Text.trim key ≠ key := by
  cases h with
  | ok hab => exact .inl ⟨_, rfl, hab⟩
  | padded _ hkey htrim => exact .inr ⟨_, rfl, hkey, htrim⟩

lemma eq {R : α → α → Prop} {x y : Except Json.Error α} (h : Outcome R K x y)
    (hR : ∀ a b, R a b → a = b) (hK : ∀ key, ¬ K key) : x = y := by
  cases h with
  | ok hab => rw [hR _ _ hab]
  | error e => rfl
  | padded _ hkey _ => exact absurd hkey (hK _)

lemma refl {R : α → α → Prop} (x : Except Json.Error α) (hR : ∀ a, R a a) : Outcome R K x x := by
  cases x with
  | ok a => exact .ok (hR a)
  | error e => exact .error e

end Outcome

/-! ## Numbers and numerals -/

/-- The second scalar is the numeral of the first one, if the schema holds it as text, and else the
same. -/
def ShownAs (s : Schema) (t : Scalar) (p q : Primitive) : Prop :=
  match s.textWidth? t with
  | some width => ∃ n, width.holds n = true ∧ p = .ofInt width n ∧ q = .string (Text.intText n)
  | none => p = q

mutual

/-- The second value is the first one with numerals for the numbers that the schema holds as
texts. -/
inductive Shown (s : Schema) : ValueKind → Value → Value → Prop
  | scalar {t : Scalar} {p q : Primitive} : ShownAs s t p q →
      Shown s (.scalar t) (.scalar p) (.scalar q)
  | choice (ref : Schema.TypeRef) (e : Schema.Enum) (c : Choice) :
      Shown s (.enum ref e) (.choice c) (.choice c)
  | wrapper (k : Wrapper) (p : Primitive) : Shown s (.wrapper k) (.scalar p) (.scalar p)
  | time (t : Time.Instant) : Shown s .timestamp (.time t) (.time t)
  | message {ref : Schema.TypeRef} {m m' : Message} :
      SlotsShown s (s.members ref.qualifiedName) m m' →
      Shown s (.message ref) (.message m) (.message m')

inductive ValuesShown (s : Schema) : ValueKind → List Value → List Value → Prop
  | nil {kind : ValueKind} : ValuesShown s kind [] []
  | cons {kind : ValueKind} {v v' : Value} {vs vs' : List Value} : Shown s kind v v' →
      ValuesShown s kind vs vs' → ValuesShown s kind (v :: vs) (v' :: vs')

/-- Entries of a map with numerals for numbers, also for keys. -/
inductive EntriesShown (s : Schema) :
    Scalar → ValueKind → List (Primitive × Value) → List (Primitive × Value) → Prop
  | nil {t : Scalar} {kind : ValueKind} : EntriesShown s t kind [] []
  | cons {t : Scalar} {kind : ValueKind} {k k' : Primitive} {v v' : Value}
      {entries entries' : List (Primitive × Value)} : ShownAs s t k k' → Shown s kind v v' →
      EntriesShown s t kind entries entries' →
      EntriesShown s t kind ((k, v) :: entries) ((k', v') :: entries')

/-- What a member holds with numerals for numbers. -/
inductive SlotShown (s : Schema) : Member → Slot → Slot → Prop
  | plain {p : FieldPlan} {v v' : Value} : p.layout = .plain → Shown s p.kind v v' →
      SlotShown s (.field p) (.plain v) (.plain v')
  | absent {p : FieldPlan} : p.layout = .optional →
      SlotShown s (.field p) (.optional none) (.optional none)
  | present {p : FieldPlan} {v v' : Value} : p.layout = .optional → Shown s p.kind v v' →
      SlotShown s (.field p) (.optional (some v)) (.optional (some v'))
  | repeated {p : FieldPlan} {vs vs' : List Value} : p.layout = .repeated →
      ValuesShown s p.kind vs vs' → SlotShown s (.field p) (.repeated vs) (.repeated vs')
  | map {p key value : FieldPlan} {entry : Schema.TypeRef} {t : Scalar}
      {entries entries' : List (Primitive × Value)} : p.layout = .map entry key value →
      key.kind = .scalar t → EntriesShown s t value.kind entries entries' →
      SlotShown s (.field p) (.map entries) (.map entries')
  | unset (u : UnionPlan) : SlotShown s (.union u) (.union none) (.union none)
  | chosen {u : UnionPlan} {variant : VariantPlan} {v v' : Value} : variant ∈ u.variants →
      Shown s variant.kind v v' →
      SlotShown s (.union u) (.union (some (variant.field.number, v)))
        (.union (some (variant.field.number, v')))

/-- What members hold with numerals for numbers. -/
inductive SlotsShown (s : Schema) : List Member → List Slot → List Slot → Prop
  | nil : SlotsShown s [] [] []
  | cons {m : Member} {members : List Member} {slot slot' : Slot} {slots slots' : List Slot} :
      SlotShown s m slot slot' → SlotsShown s members slots slots' →
      SlotsShown s (m :: members) (slot :: slots) (slot' :: slots')

end

variable {s : Schema}

lemma shownAs_of_textWidth?_none {t : Scalar} (ht : s.textWidth? t = none) (p : Primitive) :
    ShownAs s t p p := by
  simp only [ShownAs, ht]

lemma shownAs_of_textWidth? {t : Scalar} {width : Numeric.Width}
    (ht : s.textWidth? t = some width) {n : Int} (hn : width.holds n) :
    ShownAs s t (.ofInt width n) (.string (Text.intText n)) := by
  simp only [ShownAs, ht]
  exact ⟨n, hn, rfl, rfl⟩

lemma ShownAs.eq_iff {t : Scalar} {p p' q q' : Primitive} (h : ShownAs s t p q)
    (h' : ShownAs s t p' q') : p = p' ↔ q = q' := by
  unfold ShownAs at h h'
  cases ht : s.textWidth? t with
  | none =>
    simp only [ht] at h h'
    rw [h, h']
  | some width =>
    simp only [ht] at h h'
    obtain ⟨n, hn, rfl, rfl⟩ := h
    obtain ⟨n', hn', rfl, rfl⟩ := h'
    constructor
    · intro heq
      have hints := congrArg Primitive.toInt? heq
      rw [Primitive.toInt?_ofInt hn, Primitive.toInt?_ofInt hn', some.injEq] at hints
      rw [hints]
    · intro heq
      have hvalues := congrArg (Wire.decimalValue width) (Primitive.string.inj heq)
      rw [Wire.decimalValue_intText hn, Wire.decimalValue_intText hn'] at hvalues
      rw [hvalues]

lemma EntriesShown.putEntry {t : Scalar} {kind : ValueKind} {k k' : Primitive} {v v' : Value}
    {entries entries' : List (Primitive × Value)} (h : EntriesShown s t kind entries entries')
    (hk : ShownAs s t k k') (hv : Shown s kind v v') :
    EntriesShown s t kind (putEntry k v entries) (putEntry k' v' entries') := by
  induction entries generalizing entries' with
  | nil =>
    cases h
    exact .cons hk hv .nil
  | cons e entries ih =>
    cases h with
    | @cons _ _ d d' w w' _ rest' hd hw hrest =>
      rw [Codec.putEntry, Codec.putEntry]
      by_cases heq : d = k
      · rw [if_pos heq, if_pos ((hd.eq_iff hk).mp heq)]
        exact .cons hk hv hrest
      · rw [if_neg heq, if_neg fun h => heq ((hd.eq_iff hk).mpr h)]
        exact .cons hd hw (ih hrest)

namespace Schema

/-- The schema with 64-bit integers in a style. -/
def withLongs (s : Schema) (style : LongStyle) : Schema :=
  { s with options := { s.options with longs := style } }

variable {members : List (String × Json)} {p : FieldPlan} {value : Json}

@[simp]
lemma withLongs_withLongs (s : Schema) (style style' : LongStyle) :
    (s.withLongs style).withLongs style' = s.withLongs style' :=
  rfl

lemma textWidth?_number (s : Schema) (t : Scalar) : (s.withLongs .number).textWidth? t = none := by
  simp [textWidth?, withLongs, Options.decimalLongs]

lemma textWidth?_wide (s : Schema) (t : Scalar) : (s.withLongs .wide).textWidth? t = none := by
  simp [textWidth?, withLongs, Options.decimalLongs]

lemma textWidth?_decimal (s : Schema) {t : Scalar} (ht : t.isLong) :
    (s.withLongs .decimal).textWidth? t = t.width? := by
  simp [textWidth?, withLongs, Options.decimalLongs, ht]

/-! ## Scalars and keys -/

lemma scalarOfJson_outcome (s : Schema) (t : Scalar) (value : Json) {K : String → Prop} :
    Outcome (ShownAs s t) K (scalarOfJson none t value)
      (scalarOfJson (s.textWidth? t) t value) := by
  cases ht : s.textWidth? t with
  | none => exact .refl _ (shownAs_of_textWidth?_none ht)
  | some width =>
    rw [scalarOfJson_of_textWidth? ht, scalarOfJson_of_width? (width?_of_textWidth? ht),
      toIntegerText]
    cases hn : toInteger width value with
    | error e => exact .error e
    | ok n =>
      have hholds : width.holds n := by
        obtain ⟨k, -, hk⟩ := ok_of_bind hn
        split_ifs at hk with hholds
        cases hk
        exact hholds
      exact .ok (shownAs_of_textWidth? ht hholds)

lemma keyOfJson_outcome (s : Schema) (t : Scalar) (key : String) :
    Outcome (ShownAs s t) (fun k => (s.textWidth? t).isSome ∧ k = key)
      ((s.withLongs .number).keyOfJson t key) (s.keyOfJson t key) := by
  cases ht : s.textWidth? t with
  | none =>
    have hsame : (s.withLongs .number).keyOfJson t key = s.keyOfJson t key := by
      unfold keyOfJson
      rw [s.textWidth?_number, ht]
    rw [hsame]
    exact .refl _ (shownAs_of_textWidth?_none ht)
  | some width =>
    rw [keyOfJson_of_width? (s.textWidth?_number t) (width?_of_textWidth? ht),
      keyOfJson_of_textWidth? ht, decimalKey]
    cases hkey : integerKey width key with
    | ok n =>
      obtain ⟨hholds, htrim⟩ := integerKey_eq_ok hkey
      rw [htrim, hkey]
      exact .ok (shownAs_of_textWidth? ht hholds)
    | error e =>
      obtain rfl := integerKey_eq_error hkey
      by_cases htrim : Text.trim key = key
      · rw [htrim, hkey]
        exact .error _
      · exact .padded _ ⟨rfl, rfl⟩ htrim

/-! ## Values and members -/

def ValueReadsKey (s : Schema) (kind : ValueKind) (value : Json) (key : String) : Prop :=
  ∃ ref members, kind = .message ref ∧ value = .object members ∧
    s.ReadsKey ref.qualifiedName members key

def FieldReadsKey (s : Schema) (p : FieldPlan) (value : Json) (key : String) : Prop :=
  key ∈ s.numeralKeys p value ∨ ∃ part ∈ parts p value, s.ValueReadsKey part.1 part.2 key

/-- Whatever it is to be, the value is read with numerals as it is with numbers, but for keys with
blanks around them. -/
def Agrees (s : Schema) (value : Json) : Prop :=
  ∀ kind, Outcome (Shown s kind) (s.ValueReadsKey kind value)
    ((s.withLongs .number).valueOfJson kind value) (s.valueOfJson kind value)

lemma valuesOfJson_outcome {kind : ValueKind} {items : List Json}
    (h : ∀ item ∈ items, s.Agrees item) :
    Outcome (ValuesShown s kind) (fun key => ∃ item ∈ items, s.ValueReadsKey kind item key)
      ((s.withLongs .number).valuesOfJson kind items) (s.valuesOfJson kind items) := by
  induction items with
  | nil =>
    rw [valuesOfJson, valuesOfJson]
    exact .ok .nil
  | cons item items ih =>
    rw [valuesOfJson, valuesOfJson]
    have hitem := (h item (by simp) kind).mono (L := fun key =>
      ∃ item' ∈ item :: items, s.ValueReadsKey kind item' key) fun key hkey => ⟨item, by simp, hkey⟩
    refine hitem.bind fun v v' hv => ?_
    have hitems := ih fun other hother => h other (by simp [hother])
    refine Outcome.bind (hitems.mono ?_) fun vs vs' hvs => .ok (.cons hv hvs)
    rintro key ⟨other, hother, hkey⟩
    exact ⟨other, by simp [hother], hkey⟩

def EntriesReadKey (s : Schema) (t : Scalar) (kind : ValueKind) (members : List (String × Json))
    (key : String) : Prop :=
  (s.textWidth? t).isSome = true ∧ key ∈ (entered members).map Prod.fst ∨
    ∃ e ∈ entered members, s.ValueReadsKey kind e.2 key

lemma entriesOfJson_outcome {t : Scalar} {kind : ValueKind}
    (h : ∀ e ∈ entered members, s.Agrees e.2) {entries entries' : List (Primitive × Value)}
    (hentries : EntriesShown s t kind entries entries') :
    Outcome (EntriesShown s t kind) (s.EntriesReadKey t kind members)
      ((s.withLongs .number).entriesOfJson (.scalar t) kind members entries)
      (s.entriesOfJson (.scalar t) kind members entries') := by
  induction members generalizing entries entries' with
  | nil =>
    rw [entriesOfJson, entriesOfJson]
    exact .ok hentries
  | cons e members ih =>
    obtain ⟨name, item⟩ := e
    by_cases hitem : item.isNull
    · have hentered : entered ((name, item) :: members) = entered members := by
        rw [entered_cons, if_pos hitem]
      rw [hentered] at h
      rw [entriesOfJson_of_null hitem, entriesOfJson_of_null hitem]
      refine (ih h hentries).mono fun key hkey => ?_
      simpa only [EntriesReadKey, hentered] using hkey
    · have hentered : entered ((name, item) :: members) = (name, item) :: entered members := by
        simp [entered, hitem]
      rw [Bool.not_eq_true] at hitem
      rw [hentered] at h
      rw [entriesOfJson_of_scalar hitem, entriesOfJson_of_scalar hitem]
      have hkey := (s.keyOfJson_outcome t name).mono
        (L := s.EntriesReadKey t kind ((name, item) :: members)) (by
          rintro key ⟨htext, rfl⟩
          exact .inl ⟨htext, by simp [hentered]⟩)
      refine hkey.bind fun k k' hk => ?_
      have hvalue := (h (name, item) (by simp) kind).mono
        (L := s.EntriesReadKey t kind ((name, item) :: members)) (by
          intro key hread
          exact .inr ⟨(name, item), by simp [hentered], hread⟩)
      refine hvalue.bind fun v v' hv => ?_
      refine (ih (fun e he => h e (by simp [he])) (hentries.putEntry hk hv)).mono ?_
      rintro key (⟨htext, hmem⟩ | ⟨e, he, hread⟩)
      · exact .inl ⟨htext, by simp [hentered, hmem]⟩
      · exact .inr ⟨e, by simp [hentered, he], hread⟩

lemma fieldOfJson_outcome
    (hkey : ∀ {entry key content}, p.layout = .map entry key content → ∃ t, key.kind = .scalar t)
    (h : ∀ part ∈ parts p value, s.Agrees part.2) :
    Outcome (SlotShown s (.field p)) (s.FieldReadsKey p value)
      ((s.withLongs .number).fieldOfJson p value) (s.fieldOfJson p value) := by
  cases hlayout : p.layout with
  | plain =>
    have hpart : (p.kind, value) ∈ parts p value := by simp [parts, hlayout]
    rw [fieldOfJson_of_plain hlayout, fieldOfJson_of_plain hlayout]
    refine ((h _ hpart p.kind).mono fun key hkey => ?_).map fun v v' hv => .plain hlayout hv
    exact .inr ⟨_, hpart, hkey⟩
  | optional =>
    have hpart : (p.kind, value) ∈ parts p value := by simp [parts, hlayout]
    rw [fieldOfJson_of_optional hlayout, fieldOfJson_of_optional hlayout]
    refine ((h _ hpart p.kind).mono fun key hkey => ?_).map fun v v' hv => .present hlayout hv
    exact .inr ⟨_, hpart, hkey⟩
  | repeated =>
    rw [fieldOfJson_of_repeated hlayout, fieldOfJson_of_repeated hlayout]
    cases value with
    | array items =>
      have hparts : parts p (.array items) = items.map (p.kind, ·) := by simp [parts, hlayout]
      have hitems : ∀ item ∈ items, s.Agrees item := fun item hitem =>
        h (p.kind, item) (by simpa [hparts] using hitem)
      refine ((valuesOfJson_outcome hitems).mono ?_).map fun vs vs' hvs => .repeated hlayout hvs
      rintro key ⟨item, hitem, hkey⟩
      exact .inr ⟨(p.kind, item), by simpa [hparts] using hitem, hkey⟩
    | _ => exact .error _
  | map entry key content =>
    rw [fieldOfJson_of_map hlayout, fieldOfJson_of_map hlayout]
    cases value with
    | object members =>
      have hparts : parts p (.object members) =
          (entered members).map fun e => (content.kind, e.2) := by simp [parts, hlayout]
      have hentered : ∀ e ∈ entered members, s.Agrees e.2 := fun e he =>
        h (content.kind, e.2) (by rw [hparts]; exact mem_map_of_mem he)
      obtain ⟨t, hkind⟩ := hkey hlayout
      rw [hkind]
      refine ((entriesOfJson_outcome hentered .nil).mono ?_).map fun es es' hes =>
        .map hlayout hkind hes
      rintro name (⟨htext, hname⟩ | ⟨e, he, hname⟩)
      · exact .inl (mem_numeralKeys.mpr
          ⟨entry, key, content, members, t, hlayout, rfl, hkind, htext, hname⟩)
      · exact .inr ⟨(content.kind, e.2), by rw [hparts]; exact mem_map_of_mem he, hname⟩
    | _ => exact .error _

/-- A scalar that was not set is zero, of which the text is the numeral. -/
lemma zeroScalar_shown (s : Schema) (t : Scalar) :
    ShownAs s t ((s.withLongs .number).zeroScalar t) (s.zeroScalar t) := by
  have hnumber : (s.withLongs .number).zeroScalar t = t.zero := by
    simp only [zeroScalar, s.textWidth?_number, isSome_none, Bool.false_eq_true, if_false]
  rw [hnumber]
  cases ht : s.textWidth? t with
  | none =>
    simp only [zeroScalar, ht, isSome_none, Bool.false_eq_true, if_false]
    exact shownAs_of_textWidth?_none ht _
  | some width =>
    have hwidth := width?_of_textWidth? ht
    have hzero : t.zero = .ofInt width 0 := by
      cases t <;> cases hwidth <;> rfl
    have htext : s.zeroScalar t = .string (Text.intText 0) := by
      simp only [zeroScalar, ht, isSome_some, if_true]
      rfl
    rw [hzero, htext]
    exact shownAs_of_textWidth? ht (by cases width <;> rfl)

lemma zeroSlot_shown (hp : s.WellPlanned p) :
    SlotShown s (.field p) ((s.withLongs .number).zeroSlot (.field p)) (s.zeroSlot (.field p)) := by
  cases hlayout : p.layout with
  | plain =>
    simp only [zeroSlot, hlayout]
    refine .plain hlayout ?_
    rcases hp.plain hlayout with ⟨t, ht⟩ | ⟨ref, e, he⟩
    · rw [ht]
      exact .scalar (s.zeroScalar_shown t)
    · rw [he]
      exact .choice ref e _
  | optional =>
    simp only [zeroSlot, hlayout]
    exact .absent hlayout
  | repeated =>
    simp only [zeroSlot, hlayout]
    exact .repeated hlayout .nil
  | map entry key value =>
    simp only [zeroSlot, hlayout]
    obtain ⟨t, ht⟩ := hp.key hlayout
    exact .map hlayout ht .nil

lemma slotOfJson_outcome {m : Member} (hm : ∀ p, m = .field p → s.WellPlanned p)
    (h : ∀ p value, found? members m = some (p, value) → ∀ part ∈ parts p value, s.Agrees part.2) :
    Outcome (SlotShown s m) (fun key => ∃ p value, found? members m = some (p, value) ∧
        s.FieldReadsKey p value key)
      ((s.withLongs .number).slotOfJson members m) (s.slotOfJson members m) := by
  cases m with
  | field p =>
    have hp := hm p rfl
    cases hfield : field? members (jsonNames p.jsonName p.field.name) with
    | none =>
      rw [slotOfJson_of_none hfield, slotOfJson_of_none hfield]
      exact .ok (zeroSlot_shown hp)
    | some value =>
      have hfound : found? members (.field p) = some (p, value) := by simp [found?, hfield]
      rw [slotOfJson_of_some hfield, slotOfJson_of_some hfield]
      refine (fieldOfJson_outcome hp.key (h p value hfound)).mono fun key hkey => ?_
      exact ⟨p, value, hfound, hkey⟩
  | union u =>
    cases hfound : found? members (.union u) with
    | none =>
      rw [slotOfJson_union_of_none hfound, slotOfJson_union_of_none hfound]
      exact .ok (.unset u)
    | some f =>
      obtain ⟨p, value⟩ := f
      obtain ⟨⟨variant, hvariant, rfl⟩, hslot⟩ := slotOfJson_union_of_some hfound
      have hpart : (variant.kind, value) ∈ parts variant.toField value := mem_singleton_self _
      rw [hslot, hslot]
      refine ((h _ _ hfound _ hpart variant.kind).mono fun key hkey => ?_).map fun x x' hx =>
        .chosen hvariant hx
      exact ⟨variant.toField, value, rfl, .inr ⟨_, hpart, hkey⟩⟩

lemma slotsOfJson_outcome {plans : List Member}
    (hplans : ∀ p, .field p ∈ plans → s.WellPlanned p)
    (h : ∀ m ∈ plans, ∀ p value, found? members m = some (p, value) →
      ∀ part ∈ parts p value, s.Agrees part.2) :
    Outcome (SlotsShown s plans) (fun key => ∃ m ∈ plans, ∃ p value,
        found? members m = some (p, value) ∧ s.FieldReadsKey p value key)
      ((s.withLongs .number).slotsOfJson members plans) (s.slotsOfJson members plans) := by
  induction plans with
  | nil =>
    rw [slotsOfJson, slotsOfJson]
    exact .ok .nil
  | cons m plans ih =>
    rw [slotsOfJson, slotsOfJson]
    have hslot := slotOfJson_outcome (fun p hp => hplans p (by simp [hp])) (h m (by simp))
    refine Outcome.bind (hslot.mono fun key hkey => ⟨m, by simp, hkey⟩) fun slot slot' hshown => ?_
    have hslots := ih (fun p hp => hplans p (by simp [hp])) fun m hm => h m (by simp [hm])
    refine Outcome.bind (hslots.mono ?_) fun slots slots' hrest => .ok (.cons hshown hrest)
    rintro key ⟨m, hm, hkey⟩
    exact ⟨m, by simp [hm], hkey⟩

lemma readsKey_of_found? {name key : String} {m : Member} (hm : m ∈ s.members name)
    (hfound : found? members m = some (p, value)) (h : s.FieldReadsKey p value key) :
    s.ReadsKey name members key := by
  rcases h with hown | ⟨part, hpart, ref, inner, hkind, hvalue, hkey⟩
  · exact .own hm hfound hown
  · obtain ⟨kind, item⟩ := part
    cases hkind
    cases hvalue
    exact .inside hm hfound hpart hkey

lemma sizeOf_parts_le : ∀ part ∈ parts p value, sizeOf part.2 ≤ sizeOf value := by
  unfold parts
  split
  · simp
  · simp
  · rename_i items
    intro part hpart
    obtain ⟨item, hitem, rfl⟩ := mem_map.mp hpart
    have := sizeOf_lt_of_mem hitem
    simp
    omega
  · rename_i members
    intro part hpart
    obtain ⟨⟨name, item⟩, he, rfl⟩ := mem_map.mp hpart
    have := sizeOf_lt_of_mem (mem_of_mem_filter he)
    simp at this ⊢
    omega
  · simp

lemma sizeOf_found?_lt {m : Member} (h : found? members m = some (p, value)) :
    sizeOf value < sizeOf members := by
  cases m with
  | field q =>
    obtain ⟨value', hvalue, heq⟩ := map_eq_some_iff.mp h
    cases heq
    exact sizeOf_field?_lt hvalue
  | union u =>
    obtain ⟨v, -, hv⟩ := exists_of_findSome?_eq_some h
    obtain ⟨value', hvalue, heq⟩ := map_eq_some_iff.mp hv
    cases heq
    exact sizeOf_field?_lt hvalue

lemma agrees (hplan : ∀ {name p}, .field p ∈ s.members name → s.WellPlanned p) (value : Json) :
    s.Agrees value := by
  intro kind
  cases kind with
  | scalar t =>
    rw [valueOfJson, valueOfJson, s.textWidth?_number]
    exact (s.scalarOfJson_outcome t value).map fun p q hpq => .scalar hpq
  | enum ref e =>
    rw [valueOfJson, valueOfJson]
    exact .ok (.choice ref e _)
  | wrapper k =>
    rw [valueOfJson, valueOfJson]
    cases scalarOfJson none k.scalar value with
    | ok p => exact .ok (.wrapper k p)
    | error e => exact .error e
  | timestamp =>
    rw [valueOfJson, valueOfJson]
    cases toInstant value with
    | ok t => exact .ok (.time t)
    | error e => exact .error e
  | message ref =>
    rw [valueOfJson_of_message, valueOfJson_of_message]
    cases value with
    | object members =>
      have hinner : ∀ m ∈ s.members ref.qualifiedName, ∀ p value,
          found? members m = some (p, value) → ∀ part ∈ parts p value, s.Agrees part.2 := by
        intro m hm p value hfound part hpart
        have hvalue := sizeOf_found?_lt hfound
        have hle := sizeOf_parts_le part hpart
        exact agrees hplan part.2
      have hslots := slotsOfJson_outcome (fun p hp => hplan hp) hinner
      refine (hslots.mono ?_).map fun m m' hm => .message hm
      rintro key ⟨m, hm, p, value, hfound, hkey⟩
      exact ⟨ref, members, rfl, rfl, readsKey_of_found? hm hfound hkey⟩
    | _ => exact .error _
termination_by sizeOf value

lemma ofJson_outcome (hplan : ∀ {name p}, .field p ∈ s.members name → s.WellPlanned p)
    (name : String) (value : Json) :
    Outcome (SlotsShown s (s.members name))
      (fun key => ∃ members, value = .object members ∧ s.ReadsKey name members key)
      ((s.withLongs .number).ofJson name value) (s.ofJson name value) := by
  cases value with
  | object members =>
    change Outcome _ _ ((s.withLongs .number).slotsOfJson members (s.members name))
      (s.slotsOfJson members (s.members name))
    refine (slotsOfJson_outcome (fun p hp => hplan hp) ?_).mono ?_
    · intro m hm p value hfound part hpart
      exact agrees hplan part.2
    · rintro key ⟨m, hm, p, value, hfound, hkey⟩
      exact ⟨members, rfl, readsKey_of_found? hm hfound hkey⟩
  | _ => exact .error _

end Schema

end Codec

end Protobuf
