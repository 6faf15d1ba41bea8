import Protobuf.Json.Coerce
import Protobuf.Proofs.Base64

/-!
# Spellings of bytes

Base64 said without an encoder: the bits of the bytes, filled up with zeros, are cut
into groups of six, and each group is a character of an alphabet. A spelling is one
of two alphabets, with or without equals signs at the end. Each spelling writes given
bytes in one way, a text is read exactly if it is written in one of the four, and the
spellings never disagree about a text.
-/

open List Char

namespace Protobuf.Base64

/-! ## Bits -/

def bits : (width : Nat) → Nat → List Bool
  | 0, _ => []
  | width + 1, n => bits width (n / 2) ++ [n % 2 == 1]

variable (width : Nat) {n : Nat} {numbers : List Nat} {bytes : List UInt8}

@[simp]
lemma length_bits (n : Nat) : (bits width n).length = width := by
  induction width generalizing n with
  | zero => rfl
  | succ width ih => simp [bits, ih]

lemma bits_append {low : Nat} (high : Nat) (hn : n < 2 ^ low) :
    bits width high ++ bits low n = bits (width + low) (high * 2 ^ low + n) := by
  induction low generalizing n with
  | zero =>
    obtain rfl : n = 0 := by simpa using hn
    simp [bits]
  | succ low ih =>
    have hdouble : high * 2 ^ (low + 1) = 2 * (high * 2 ^ low) := by ring
    have hhalf : (high * 2 ^ (low + 1) + n) / 2 = high * 2 ^ low + n / 2 := by omega
    have hodd : (high * 2 ^ (low + 1) + n) % 2 = n % 2 := by omega
    have hlt : n / 2 < 2 ^ low := by
      rw [pow_succ] at hn
      omega
    rw [← Nat.add_assoc, bits, bits, ← append_assoc, ih hlt, hhalf, hodd]

lemma bits_zero : bits width 0 = replicate width false := by
  induction width with
  | zero => rfl
  | succ width ih => simp [bits, ih, replicate_succ']

lemma bits_inj {width m : Nat} (hn : n < 2 ^ width) (hm : m < 2 ^ width)
    (h : bits width n = bits width m) : n = m := by
  induction width generalizing n m with
  | zero =>
    simp only [pow_zero, Nat.lt_one_iff] at hn hm
    rw [hn, hm]
  | succ width ih =>
    obtain ⟨hhigh, hlow⟩ := append_inj' h rfl
    rw [pow_succ] at hn hm
    have hhalf : n / 2 = m / 2 := ih (by omega) (by omega) hhigh
    have hodd : n % 2 = 1 ↔ m % 2 = 1 := by simpa using hlow
    omega

lemma flatMap_bits_inj {width : Nat} {ns ms : List Nat} (hns : ∀ n ∈ ns, n < 2 ^ width)
    (hms : ∀ m ∈ ms, m < 2 ^ width) (hlength : ns.length = ms.length)
    (h : ns.flatMap (bits width) = ms.flatMap (bits width)) : ns = ms := by
  induction ns generalizing ms with
  | nil => exact (length_eq_zero_iff.mp hlength.symm).symm
  | cons n ns ih =>
    obtain ⟨m, ms, rfl⟩ := exists_cons_of_length_eq_add_one hlength.symm
    simp only [flatMap_cons] at h
    obtain ⟨hhead, htail⟩ := append_inj h (by simp)
    simp only [forall_mem_cons] at hns hms
    rw [bits_inj hns.1 hms.1 hhead, ih hns.2 hms.2 (by simpa using hlength) htail]

def byteBits (bytes : List UInt8) : List Bool :=
  bytes.flatMap fun b => bits 8 b.toNat

/-- The six-bit numbers of bytes hold the bits of the bytes, and fewer than six zeros. -/
lemma flatMap_bits_sextets (bytes : List UInt8) :
    ∃ spare < 6, (sextets bytes).flatMap (bits 6) =
      byteBits bytes ++ replicate spare false := by
  fun_induction sextets bytes with
  | case1 => exact ⟨0, by decide, rfl⟩
  | case2 x =>
    have hx := x.toNat_lt
    refine ⟨4, by decide, ?_⟩
    rw [← bits_zero]
    simp only [byteBits, flatMap_cons, flatMap_nil, append_nil]
    rw [bits_append _ _ (by omega), bits_append _ _ (by decide)]
    congr 1
    omega
  | case3 x y n =>
    have hx := x.toNat_lt
    have hy := y.toNat_lt
    refine ⟨2, by decide, ?_⟩
    rw [← bits_zero]
    simp only [byteBits, flatMap_cons, flatMap_nil, append_nil, ← append_assoc]
    rw [bits_append _ _ (by omega), bits_append _ _ (by omega), bits_append _ _ (by omega),
      bits_append _ _ (by decide)]
    congr 1
    omega
  | case4 x y z rest n ih =>
    have hx := x.toNat_lt
    have hy := y.toNat_lt
    have hz := z.toNat_lt
    obtain ⟨spare, hspare, hrest⟩ := ih
    refine ⟨spare, hspare, ?_⟩
    simp only [byteBits] at hrest
    simp only [byteBits, flatMap_cons, hrest, ← append_assoc]
    rw [bits_append _ _ (by omega), bits_append _ _ (by omega), bits_append _ _ (by omega),
      bits_append _ _ (by omega), bits_append _ _ (by omega)]
    congr 3
    omega

/-- Only the six-bit numbers of bytes hold the bits of the bytes and fewer than six zeros. -/
lemma eq_sextets_of_bits {spare : Nat} (hnumbers : ∀ n ∈ numbers, n < 64) (hspare : spare < 6)
    (hbits : numbers.flatMap (bits 6) = byteBits bytes ++ replicate spare false) :
    numbers = sextets bytes := by
  obtain ⟨spare', hspare', hbits'⟩ := flatMap_bits_sextets bytes
  have hlength := congrArg length hbits
  have hlength' := congrArg length hbits'
  simp only [byteBits, length_flatMap, length_bits, map_const', sum_replicate,
    length_append, length_replicate, smul_eq_mul] at hlength hlength'
  -- the number of zeros is what is missing to a multiple of six, so it is the same for both
  obtain rfl : spare = spare' := by omega
  exact flatMap_bits_inj hnumbers (sextets_lt bytes) (by omega) (hbits.trans hbits'.symm)

/-! ## Characters -/

/-- The characters for the numbers below 64, in order. -/
def Alphabet.table (a : Alphabet) : List Char :=
  "ABCDEFGHIJKLMNOPQRSTUVWXYZabcdefghijklmnopqrstuvwxyz0123456789".toList ++ [a.plus, a.slash]

lemma Alphabet.length_table (a : Alphabet) : a.table.length = 64 := by
  rfl

lemma Alphabet.table_get (a : Alphabet) (hn : n < 64) : a.table[n]? = some (a.char n) := by
  interval_cases n <;> rfl

lemma Alphabet.map_table (a : Alphabet) (hnumbers : ∀ n ∈ numbers, n < 64) :
    numbers.map (a.table[·]?) = (numbers.map a.char).map some := by
  rw [map_map]
  exact map_congr_left fun n hn => a.table_get (hnumbers n hn)

lemma Alphabet.char_of_value? {a : Alphabet} {c : Char} (h : a.value? c = some n) :
    n < 64 ∧ a.char n = c := by
  have hle (b d : Char) : b ≤ d ↔ b.toNat ≤ d.toNat := by
    rw [le_def, UInt32.le_iff_toNat_le]
    rfl
  simp only [value?, hle, reduceToNat] at h
  split_ifs at h with hupper hlower hdigit hplus hslash
  · have hn : n + 65 = c.toNat := by
      rw [Option.some_inj] at h
      omega
    have hlt : n < 26 := by omega
    rw [char, if_pos hlt]
    exact ⟨by omega, (congrArg ofNat hn).trans (ofNat_toNat c)⟩
  · have hn : n - 26 + 97 = c.toNat ∧ ¬ n < 26 ∧ n < 52 := by
      rw [Option.some_inj] at h
      omega
    rw [char, if_neg hn.2.1, if_pos hn.2.2]
    exact ⟨by omega, (congrArg ofNat hn.1).trans (ofNat_toNat c)⟩
  · have hn : n - 52 + 48 = c.toNat ∧ ¬ n < 26 ∧ ¬ n < 52 ∧ n < 62 := by
      rw [Option.some_inj] at h
      omega
    rw [char, if_neg hn.2.1, if_neg hn.2.2.1, if_pos hn.2.2.2]
    exact ⟨by omega, (congrArg ofNat hn.1).trans (ofNat_toNat c)⟩
  · cases h
    exact ⟨by decide, hplus.symm⟩
  · cases h
    exact ⟨by decide, hslash.symm⟩

/-- A way to write bytes. -/
structure Spelling where
  /-- The characters for six-bit numbers. -/
  alphabet : Alphabet
  /-- Whether the text is filled up to groups of four characters. -/
  padding : Bool

def spellings : List Spelling :=
  [⟨.standard, true⟩, ⟨.standard, false⟩, ⟨.urlSafe, true⟩, ⟨.urlSafe, false⟩]

/-- The text is the bytes in the given spelling: characters for numbers of six bits, which make up
the bits of the bytes and fewer than six zeros; with padding, equals signs fill up the last group
of four characters. -/
def Spells (s : Spelling) (bytes : List UInt8) (text : List Char) : Prop :=
  ∃ (numbers : List Nat) (body : List Char) (spare fill : Nat),
    numbers.map (s.alphabet.table[·]?) = body.map some ∧
    (numbers.flatMap (bits 6) = byteBits bytes ++ List.replicate spare false ∧ spare < 6) ∧
    text = body ++ List.replicate fill '=' ∧
    if s.padding then (body.length + fill) % 4 = 0 ∧ fill < 4 else fill = 0

lemma spells_encodeChars (s : Spelling) (bytes : List UInt8) :
    Spells s bytes (encodeChars s.alphabet s.padding bytes) := by
  obtain ⟨spare, hspare, hbits⟩ := flatMap_bits_sextets bytes
  refine ⟨sextets bytes, _, spare, if s.padding then (4 - (sextets bytes).length % 4) % 4 else 0,
    s.alphabet.map_table (sextets_lt bytes), ⟨hbits, hspare⟩, ?_, ?_⟩
  · rw [encodeChars_eq, fill]
    split_ifs <;> rfl
  · rw [length_map]
    split_ifs
    · omega
    · rfl

lemma eq_encodeChars_of_spells {s : Spelling} {text : List Char} (h : Spells s bytes text) :
    text = encodeChars s.alphabet s.padding bytes := by
  obtain ⟨numbers, body, spare, count, hbody, ⟨hbits, hspare⟩, rfl, hcount⟩ := h
  have hlt : ∀ n ∈ numbers, n < 64 := by
    intro n hn
    have hsome : s.alphabet.table[n]? ∈ body.map some := by
      rw [← hbody]
      exact mem_map_of_mem hn
    obtain ⟨c, -, hc⟩ := mem_map.mp hsome
    obtain ⟨hlt, -⟩ := List.getElem?_eq_some_iff.mp hc.symm
    rwa [s.alphabet.length_table] at hlt
  obtain rfl := eq_sextets_of_bits hlt hspare hbits
  have hchars : body = (sextets bytes).map s.alphabet.char := by
    apply map_injective_iff.mpr (Option.some_injective Char)
    rw [← hbody, s.alphabet.map_table hlt]
  have hlength : body.length = (sextets bytes).length := by rw [hchars, length_map]
  rw [encodeChars_eq, ← hchars]
  congr 1
  split_ifs at hcount ⊢
  · rw [fill]
    congr 1
    omega
  · rw [hcount]
    rfl

lemma spells_iff {s : Spelling} {text : List Char} :
    Spells s bytes text ↔ text = encodeChars s.alphabet s.padding bytes :=
  ⟨eq_encodeChars_of_spells, fun h => h ▸ spells_encodeChars s bytes⟩

/-! ## Reading -/

/-- Numbers that bytes are read from are the six-bit numbers of the bytes. -/
lemma sextets_of_bytesOfSextets (hnumbers : ∀ n ∈ numbers, n < 64)
    (h : bytesOfSextets numbers = some bytes) : sextets bytes = numbers := by
  have hbyte {n : Nat} (hn : n < 256) : (UInt8.ofNat n).toNat = n :=
    UInt8.toNat_ofNat_of_lt' hn
  induction numbers using bytesOfSextets.induct generalizing bytes with
  | case1 =>
    cases h
    rfl
  | case2 => cases h
  | case3 a b hzero =>
    rw [bytesOfSextets, if_pos hzero] at h
    cases h
    simp only [forall_mem_cons, not_mem_nil, false_implies, implies_true,
      and_true] at hnumbers
    simp only [sextets, cons.injEq, and_true]
    rw [hbyte (by omega)]
    omega
  | case4 a b hzero =>
    rw [bytesOfSextets, if_neg hzero] at h
    cases h
  | case5 a b c hzero =>
    rw [bytesOfSextets, if_pos hzero] at h
    cases h
    simp only [forall_mem_cons, not_mem_nil, false_implies, implies_true,
      and_true] at hnumbers
    simp only [sextets, cons.injEq, and_true]
    rw [hbyte (by omega), hbyte (by omega)]
    omega
  | case6 a b c hzero =>
    rw [bytesOfSextets, if_neg hzero] at h
    cases h
  | case7 a b c d rest ih =>
    simp only [forall_mem_cons] at hnumbers
    obtain ⟨ha, hb, hc, hd, hrest⟩ := hnumbers
    obtain ⟨tail, htail, rfl⟩ := Option.map_eq_some_iff.mp h
    simp only [sextets, cons.injEq, ih hrest htail, and_true]
    rw [hbyte (by omega), hbyte (by omega), hbyte (by omega)]
    omega

lemma Alphabet.sound_urlSafe : Alphabet.urlSafe.Sound :=
  ⟨by decide, by decide⟩

lemma Spelling.sound {s : Spelling} (hs : s ∈ spellings) : s.alphabet.Sound := by
  simp only [spellings, mem_cons, not_mem_nil, or_false] at hs
  rcases hs with rfl | rfl | rfl | rfl
  · exact Alphabet.sound_standard
  · exact Alphabet.sound_standard
  · exact Alphabet.sound_urlSafe
  · exact Alphabet.sound_urlSafe

lemma map_char_of_mapM {a : Alphabet} {cs : List Char} (h : cs.mapM a.value? = some numbers) :
    (∀ n ∈ numbers, n < 64) ∧ numbers.map a.char = cs := by
  induction cs generalizing numbers with
  | nil =>
    cases h
    simp
  | cons c cs ih =>
    simp only [mapM_cons, Option.bind_eq_bind, Option.pure_def, Option.bind_eq_some_iff,
      Option.some.injEq] at h
    obtain ⟨n, hn, rest, hrest, rfl⟩ := h
    obtain ⟨hlt, hchar⟩ := Alphabet.char_of_value? hn
    obtain ⟨hlts, hchars⟩ := ih hrest
    exact ⟨forall_mem_cons.mpr ⟨hlt, hlts⟩, by rw [map_cons, hchar, hchars]⟩

section

variable {a : Alphabet} {cs : List Char} {bytes : List UInt8}

lemma decodeBody?_eq_some_iff (ha : a.Sound) :
    decodeBody? a cs = some bytes ↔ cs = (sextets bytes).map a.char := by
  constructor
  · intro h
    obtain ⟨numbers, hnumbers, hbytes⟩ := Option.bind_eq_some_iff.mp h
    obtain ⟨hlt, hchars⟩ := map_char_of_mapM hnumbers
    rw [sextets_of_bytesOfSextets hlt hbytes, hchars]
  · rintro rfl
    exact decodeBody?_chars ha bytes

/-- A text is read in one alphabet, with or without padding, exactly if it was written so. -/
lemma decodeIn?_eq_some_iff (ha : a.Sound) {padding : Bool} :
    decodeIn? a padding cs = some bytes ↔ cs = encodeChars a padding bytes := by
  constructor
  · intro h
    rw [encodeChars_eq]
    cases padding with
    | false =>
      have hbody := (decodeBody?_eq_some_iff ha).mp h
      rw [hbody]
      simp
    | true =>
      simp only [decodeIn?, if_true] at h
      split_ifs at h with hfill
      have hbody := (decodeBody?_eq_some_iff ha).mp h
      have hlength := congrArg length hbody
      rw [length_map] at hlength
      rw [if_pos rfl, ← hbody, fill, ← hlength, ← hfill, takeWhile_append_dropWhile]
  · rintro rfl
    exact decodeIn?_encodeChars ha padding bytes

end

namespace Spelling

variable {s s' : Spelling} {text : String} {bytes bytes' : List UInt8}

def read? (s : Spelling) (text : String) : Option (List UInt8) :=
  decodeIn? s.alphabet s.padding text.toList

section

variable (hs : s ∈ spellings)

include hs

lemma read?_eq_some_iff : s.read? text = some bytes ↔ Spells s bytes text.toList := by
  rw [spells_iff]
  exact decodeIn?_eq_some_iff (sound hs)

/-- A character of one alphabet has no meaning in the other one, or the same. -/
lemma value?_char (hs' : s' ∈ spellings) {n : Nat} (hn : n < 64) :
    s'.alphabet.value? (s.alphabet.char n) = none ∨
      s'.alphabet.value? (s.alphabet.char n) = some n := by
  have hall : ∀ s ∈ spellings, ∀ s' ∈ spellings, ∀ n < 64,
      s'.alphabet.value? (s.alphabet.char n) = none ∨
        s'.alphabet.value? (s.alphabet.char n) = some n := by
    decide
  exact hall s hs s' hs' n hn

lemma eq_of_char_eq (hs' : s' ∈ spellings) {n m : Nat} (hn : n < 64) (hm : m < 64)
    (h : s.alphabet.char n = s'.alphabet.char m) : n = m := by
  have hvalue := (sound hs').value?_char m hm
  rw [← h] at hvalue
  rcases value?_char hs hs' hn with hnone | hsome
  · rw [hnone] at hvalue
    cases hvalue
  · rw [hsome] at hvalue
    exact Option.some_inj.mp hvalue

lemma eq_of_map_char_eq (hs' : s' ∈ spellings) {ns ms : List Nat} (hns : ∀ n ∈ ns, n < 64)
    (hms : ∀ m ∈ ms, m < 64) (h : ns.map s.alphabet.char = ms.map s'.alphabet.char) : ns = ms := by
  induction ns generalizing ms with
  | nil => exact (map_eq_nil_iff.mp h.symm).symm
  | cons n ns ih =>
    obtain ⟨m, ms, rfl, hhead, htail⟩ := map_eq_cons_iff.mp h.symm
    rw [forall_mem_cons] at hns hms
    rw [eq_of_char_eq hs hs' hns.1 hms.1 hhead.symm, ih hns.2 hms.2 htail.symm]

lemma takeWhile_of_read? (h : s.read? text = some bytes) :
    text.toList.takeWhile (· != '=') = (sextets bytes).map s.alphabet.char := by
  obtain ⟨count, htext⟩ : ∃ count,
      text.toList = (sextets bytes).map s.alphabet.char ++ replicate count '=' := by
    rw [(decodeIn?_eq_some_iff (sound hs)).mp h, encodeChars_eq]
    cases s.padding with
    | false => exact ⟨0, rfl⟩
    | true => exact ⟨_, rfl⟩
  rw [htext, (takeWhile_chars (sound hs) bytes count).1]

lemma read?_agree (hs' : s' ∈ spellings) (h : s.read? text = some bytes)
    (h' : s'.read? text = some bytes') : bytes = bytes' := by
  have hchars := (takeWhile_of_read? hs h).symm.trans (takeWhile_of_read? hs' h')
  have hnumbers := eq_of_map_char_eq hs hs' (sextets_lt bytes) (sextets_lt bytes') hchars
  have hbytes := congrArg bytesOfSextets hnumbers
  rwa [bytesOfSextets_sextets, bytesOfSextets_sextets, Option.some_inj] at hbytes

end

/-- The first spelling that reads a text, of some in any order, reads what any of them reads. -/
lemma findSome?_read?_eq_some_iff {order : List Spelling} (horder : order.Perm spellings) :
    order.findSome? (·.read? text) = some bytes ↔ ∃ s ∈ spellings, s.read? text = some bytes := by
  constructor
  · intro h
    obtain ⟨s, hs, hread⟩ := exists_of_findSome?_eq_some h
    exact ⟨s, horder.mem_iff.mp hs, hread⟩
  · rintro ⟨s, hs, hread⟩
    have hsome : (order.findSome? (·.read? text)).isSome :=
      findSome?_isSome_iff.mpr ⟨s, horder.mem_iff.mpr hs, by rw [hread]; rfl⟩
    obtain ⟨found, hfound⟩ := Option.isSome_iff_exists.mp hsome
    obtain ⟨s', hs', hread'⟩ := exists_of_findSome?_eq_some hfound
    rw [hfound, read?_agree (horder.mem_iff.mp hs') hs hread' hread]

end Spelling

lemma decode?_eq_findSome? (text : String) : decode? text = spellings.findSome? (·.read? text) := by
  simp only [decode?, spellings, Spelling.read?, findSome?]
  cases decodeIn? .standard true text.toList with
  | some bytes => rfl
  | none =>
    cases decodeIn? .standard false text.toList with
    | some bytes => rfl
    | none =>
      cases decodeIn? .urlSafe true text.toList with
      | some bytes => rfl
      | none => cases decodeIn? .urlSafe false text.toList <;> rfl

lemma toBytes_eq_ok_iff {text : String} :
    Json.toBytes text = .ok bytes ↔ ∃ s ∈ spellings, Spells s bytes text.toList := by
  have hdecode : Json.toBytes text = .ok bytes ↔ decode? text = some bytes := by
    rw [Json.toBytes]
    cases decode? text <;> simp
  rw [hdecode, decode?_eq_findSome?, Spelling.findSome?_read?_eq_some_iff (.refl _)]
  constructor
  · rintro ⟨s, hs, hread⟩
    exact ⟨s, hs, (Spelling.read?_eq_some_iff hs).mp hread⟩
  · rintro ⟨s, hs, hspells⟩
    exact ⟨s, hs, (Spelling.read?_eq_some_iff hs).mpr hspells⟩

/-- Reading accepts exactly the four spellings. Every one of them writes given bytes in one way,
and the way that bytes are written is the first; a text is read as some bytes if and only if it is
one of the four spellings of them. No two spellings read a text differently, so the order in which
they are tried does not matter. -/
theorem toBytes_accepts_spellings :
    (∀ bytes : List UInt8, Spells ⟨.standard, true⟩ bytes (encode bytes).toList) ∧
    (∀ s ∈ spellings, ∀ bytes : List UInt8, ∃! text : String, Spells s bytes text.toList) ∧
    (∀ (text : String) (bytes : List UInt8),
      Json.toBytes text = .ok bytes ↔ ∃ s ∈ spellings, Spells s bytes text.toList) ∧
    (∀ s ∈ spellings, ∀ (text : String) (bytes : List UInt8),
      s.read? text = some bytes ↔ Spells s bytes text.toList) ∧
    (∀ s ∈ spellings, ∀ s' ∈ spellings, ∀ (text : String) (bytes bytes' : List UInt8),
      s.read? text = some bytes → s'.read? text = some bytes' → bytes = bytes') ∧
    ∀ order : List Spelling, order.Perm spellings → ∀ text : String,
      decode? text = order.findSome? (·.read? text) := by
  refine ⟨?_, ?_, ?_, ?_, ?_, ?_⟩
  · intro bytes
    rw [spells_iff, encode, String.toList_ofList]
  · intro s _ bytes
    refine ⟨String.ofList (encodeChars s.alphabet s.padding bytes), ?_, ?_⟩
    · dsimp only
      rw [spells_iff, String.toList_ofList]
    · intro text htext
      rw [← spells_iff.mp htext, String.ofList_toList]
  · intro text bytes
    exact toBytes_eq_ok_iff
  · intro s hs text bytes
    exact Spelling.read?_eq_some_iff hs
  · intro s hs s' hs' text bytes bytes' h h'
    exact Spelling.read?_agree hs hs' h h'
  · intro order horder text
    apply Option.ext
    intro bytes
    rw [decode?_eq_findSome?, Spelling.findSome?_read?_eq_some_iff (.refl _),
      Spelling.findSome?_read?_eq_some_iff horder]

end Protobuf.Base64
