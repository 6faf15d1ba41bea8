import Mathlib
import Protobuf.Base64

/-!
# Base64 texts are read back

Bytes are written as six-bit numbers, one character each. Both directions pass
through these numbers: characters of an alphabet stand for them one to one, and
the bytes are recovered from them group by group.
-/

namespace Protobuf.Base64

open List

/-- The six-bit numbers of some bytes; the last one is filled up with zero bits. -/
def sextets : List UInt8 → List Nat
  | [] => []
  | [x] => [x.toNat / 4, x.toNat % 4 * 16]
  | [x, y] =>
    let n := x.toNat * 256 + y.toNat
    [n / 1024, n / 16 % 64, n % 16 * 4]
  | x :: y :: z :: rest =>
    let n := (x.toNat * 256 + y.toNat) * 256 + z.toNat
    n / 262144 :: n / 4096 % 64 :: n / 64 % 64 :: n % 64 :: sextets rest

lemma sextets_lt (bytes : List UInt8) : ∀ n ∈ sextets bytes, n < 64 := by
  fun_induction sextets bytes with
  | case1 => simp
  | case2 x =>
    have := x.toNat_lt
    simp
    omega
  | case3 x y n =>
    have := x.toNat_lt
    have := y.toNat_lt
    simp
    omega
  | case4 x y z rest n ih =>
    have := x.toNat_lt
    have := y.toNat_lt
    have := z.toNat_lt
    simp only [forall_mem_cons]
    refine ⟨?_, ?_, ?_, ?_, ih⟩ <;> omega

private lemma ofNat_eq {n : Nat} {x : UInt8} (h : n = x.toNat) : UInt8.ofNat n = x := by
  rw [h, UInt8.ofNat_toNat]

lemma bytesOfSextets_sextets (bytes : List UInt8) :
    bytesOfSextets (sextets bytes) = some bytes := by
  fun_induction sextets bytes with
  | case1 => rfl
  | case2 x =>
    have hx := x.toNat_lt
    have hzero : x.toNat % 4 * 16 % 16 = 0 := by omega
    have hbyte : UInt8.ofNat (x.toNat / 4 * 4 + x.toNat % 4 * 16 / 16) = x := ofNat_eq (by omega)
    rw [bytesOfSextets, if_pos hzero, hbyte]
  | case3 x y n =>
    have hx := x.toNat_lt
    have hy := y.toNat_lt
    have hzero : n % 16 * 4 % 4 = 0 := by omega
    have hn : (n / 1024 * 64 + n / 16 % 64) * 16 + n % 16 * 4 / 4 = n := by omega
    have hfirst : UInt8.ofNat (n / 256) = x := ofNat_eq (by omega)
    have hsecond : UInt8.ofNat (n % 256) = y := ofNat_eq (by omega)
    simp only [bytesOfSextets, if_pos hzero, hn, hfirst, hsecond]
  | case4 x y z rest n ih =>
    have hx := x.toNat_lt
    have hy := y.toNat_lt
    have hz := z.toNat_lt
    have hn : ((n / 262144 * 64 + n / 4096 % 64) * 64 + n / 64 % 64) * 64 + n % 64 = n := by omega
    have hfirst : UInt8.ofNat (n / 65536) = x := ofNat_eq (by omega)
    have hsecond : UInt8.ofNat (n / 256 % 256) = y := ofNat_eq (by omega)
    have hthird : UInt8.ofNat (n % 256) = z := ofNat_eq (by omega)
    simp only [bytesOfSextets, ih, hn, hfirst, hsecond, hthird, Option.map_some]

/-! ## Characters -/

/-- The characters of the alphabet stand for six-bit numbers one to one, and none of them is an
equals sign. -/
structure Alphabet.Sound (a : Alphabet) : Prop where
  value?_char : ∀ n < 64, a.value? (a.char n) = some n
  char_ne : ∀ n < 64, a.char n ≠ '='

lemma Alphabet.sound_standard : Alphabet.standard.Sound :=
  ⟨by decide, by decide⟩

/-- The equals signs that fill up the last group of characters. -/
def fill (bytes : List UInt8) : List Char :=
  List.replicate ((4 - (sextets bytes).length % 4) % 4) '='

lemma encodeChars_eq (a : Alphabet) (padding : Bool) (bytes : List UInt8) :
    encodeChars a padding bytes =
      (sextets bytes).map a.char ++ if padding then fill bytes else [] := by
  fun_induction sextets bytes with
  | case1 | case2 x | case3 x y n => cases padding <;> rfl
  | case4 x y z rest n ih =>
    have hfill : fill (x :: y :: z :: rest) = fill rest := by
      simp only [fill, sextets, length_cons]
      congr 1
      omega
    simp only [encodeChars, ih, hfill, map_cons, cons_append, n]

variable {a : Alphabet}

lemma decodeBody?_chars (ha : a.Sound) (bytes : List UInt8) :
    decodeBody? a ((sextets bytes).map a.char) = some bytes := by
  have hvalues : ∀ ns : List Nat, (∀ n ∈ ns, n < 64) →
      (ns.map a.char).mapM a.value? = some ns := by
    intro ns hns
    induction ns with
    | nil => rfl
    | cons n ns ih =>
      have hn := ha.value?_char n (hns n (by simp))
      have hrest := ih fun k hk => hns k (by simp [hk])
      simp [mapM_cons, hn, hrest]
  rw [decodeBody?, hvalues _ (sextets_lt bytes), Option.bind_some, bytesOfSextets_sextets]

/-- The characters for bytes end where the equals signs begin. -/
lemma takeWhile_chars (ha : a.Sound) (bytes : List UInt8) (count : Nat) :
    ((sextets bytes).map a.char ++ replicate count '=').takeWhile (· != '=') =
        (sextets bytes).map a.char ∧
      ((sextets bytes).map a.char ++ replicate count '=').dropWhile (· != '=') =
        replicate count '=' := by
  have hbody : ∀ c ∈ (sextets bytes).map a.char, (c != '=') := by
    intro c hc
    obtain ⟨n, hn, rfl⟩ := mem_map.mp hc
    simpa using ha.char_ne n (sextets_lt bytes n hn)
  have hfill : (replicate count '=').takeWhile (· != '=') = [] ∧
      (replicate count '=').dropWhile (· != '=') = replicate count '=' := by
    cases count <;> simp [replicate_succ]
  rw [takeWhile_append_of_pos hbody, dropWhile_append_of_pos hbody, hfill.1, hfill.2,
    append_nil]
  exact ⟨rfl, rfl⟩

/-- Each alphabet reads back what it wrote, with and without padding. -/
lemma decodeIn?_encodeChars (ha : a.Sound) (padding : Bool) (bytes : List UInt8) :
    decodeIn? a padding (encodeChars a padding bytes) = some bytes := by
  rw [encodeChars_eq]
  cases padding with
  | false => simpa [decodeIn?] using decodeBody?_chars ha bytes
  | true =>
    obtain ⟨hbody, hfill⟩ := takeWhile_chars ha bytes ((4 - (sextets bytes).length % 4) % 4)
    simp only [decodeIn?, if_true, fill, hbody, hfill, length_map]
    exact decodeBody?_chars ha bytes

lemma decode?_encode (bytes : List UInt8) : decode? (encode bytes) = some bytes := by
  simp [decode?, encode, decodeIn?_encodeChars Alphabet.sound_standard]

end Protobuf.Base64
