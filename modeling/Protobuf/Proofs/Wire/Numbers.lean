import Protobuf.Proofs.Wire.Reads

/-!
# Reading numbers back

What the number writers produce is taken by the matching readers, and every
number reader is determined by the bytes that it takes.
-/

namespace Protobuf.Wire

open List

lemma unzigzag_zigzag (n : Int) : unzigzag (zigzag n) = n := by
  unfold unzigzag zigzag
  split_ifs <;> omega

lemma zigzag_lt {n bound : Int} (hlow : -bound ≤ n) (hhigh : n < bound) :
    (zigzag n : Int) < 2 * bound := by
  unfold zigzag
  split_ifs <;> omega

@[simp] lemma littleEndian_length (count n : Nat) : (littleEndian count n).length = count := by
  induction count generalizing n with
  | zero => rfl
  | succ count ih => simp only [littleEndian, length_cons, ih]

/-- The lowest bytes of a number that has no others make up the number. -/
lemma ofLittleEndian_littleEndian {count n : Nat} (hn : n < Nat.pow 256 count) :
    ofLittleEndian (littleEndian count n) = n := by
  induction count generalizing n with
  | zero =>
    have hzero : n = 0 := by simpa using hn
    simp only [littleEndian, ofLittleEndian, hzero]
  | succ count ih =>
    have hdiv : n / 256 < Nat.pow 256 count := by
      have hpow : Nat.pow 256 (count + 1) = 256 * Nat.pow 256 count := Nat.pow_succ'
      omega
    have hbyte : (UInt8.ofNat (n % 256)).toNat = n % 256 :=
      UInt8.toNat_ofNat_of_lt' (show _ < 256 by omega)
    simp only [littleEndian, ofLittleEndian, hbyte, ih hdiv]
    omega

/-! ## Varints -/

/-- A varint: at most ten bytes, of which exactly the last one is below 128. -/
def IsVarint (bytes : List UInt8) : Prop :=
  ∃ init last, bytes = init ++ [last] ∧ init.length < 10 ∧ (∀ b ∈ init, 128 ≤ b.toNat) ∧
    last.toNat < 128

/-- The number that the low seven bits of some bytes make, the lowest ones first. -/
def varintValue : List UInt8 → Nat
  | [] => 0
  | b :: bytes => b.toNat % 128 + 128 * varintValue bytes

/-- A byte of a varint that is not the last one has the lowest seven bits of the rest. -/
private lemma exists_varintBytes {more n : Nat} (hn : n < 128 * Nat.pow 128 more) :
    ∃ (init : List UInt8) (last : UInt8), varintBytes more n = init ++ [last] ∧
      init.length ≤ more ∧ (∀ b ∈ init, 128 ≤ b.toNat) ∧ last.toNat < 128 ∧
      varintValue (init ++ [last]) = n := by
  have hsingle {n : Nat} (hsmall : n < 128) :
      (UInt8.ofNat n).toNat < 128 ∧ varintValue [UInt8.ofNat n] = n := by
    simp only [varintValue, UInt8.toNat_ofNat']
    omega
  induction more generalizing n with
  | zero => exact ⟨[], UInt8.ofNat n, rfl, le_refl _, by simp, hsingle (by simpa using hn)⟩
  | succ more ih =>
    by_cases hsmall : n < 128
    · exact ⟨[], UInt8.ofNat n, if_pos hsmall, Nat.zero_le _, by simp, hsingle hsmall⟩
    · have hdiv : n / 128 < 128 * Nat.pow 128 more := by
        have hpow : Nat.pow 128 (more + 1) = 128 * Nat.pow 128 more := Nat.pow_succ'
        omega
      obtain ⟨init, last, hbytes, hlength, hinit, hlast, hvalue⟩ := ih hdiv
      have hbyte : (UInt8.ofNat (n % 128 + 128)).toNat = n % 128 + 128 :=
        UInt8.toNat_ofNat_of_lt' (show _ < 256 by omega)
      refine ⟨UInt8.ofNat (n % 128 + 128) :: init, last, ?_, by simpa using hlength, ?_, hlast, ?_⟩
      · rw [varintBytes, if_neg hsmall, hbytes]
        rfl
      · exact forall_mem_cons.mpr ⟨by omega, hinit⟩
      · rw [cons_append, varintValue, hvalue, hbyte]
        omega

lemma isVarint_varint (n : UInt64) : IsVarint (varint n) ∧ varintValue (varint n) = n.toNat := by
  have hn : n.toNat < 128 * Nat.pow 128 9 := n.toNat_lt.trans (by decide)
  obtain ⟨init, last, hbytes, hlength, hinit, hlast, hvalue⟩ := exists_varintBytes hn
  rw [varint, hbytes]
  exact ⟨⟨init, last, rfl, Nat.lt_succ_of_le hlength, hinit, hlast⟩, hvalue⟩

lemma varint_ne_nil (n : UInt64) : varint n ≠ [] := by
  obtain ⟨⟨init, last, hbytes, -⟩, -⟩ := isVarint_varint n
  simp [hbytes]

lemma varintBytes_append_inj {more n n' : Nat} {rest rest' : List UInt8}
    (h : varintBytes more n ++ rest = varintBytes more n' ++ rest') :
    varintBytes more n = varintBytes more n' ∧ rest = rest' := by
  induction more generalizing n n' with
  | zero => simpa [varintBytes] using h
  | succ more ih =>
    have hhigh (k : Nat) : (UInt8.ofNat (k % 128 + 128)).toNat = k % 128 + 128 :=
      UInt8.toNat_ofNat_of_lt' (show _ < 256 by omega)
    have hlow {k : Nat} (hk : k < 128) : (UInt8.ofNat k).toNat = k :=
      UInt8.toNat_ofNat_of_lt' (show _ < 256 by omega)
    unfold varintBytes at h ⊢
    split_ifs at h ⊢ with hn hn' hn'
    · simpa using h
    · have hhead := congrArg UInt8.toNat (cons.inj h).1
      rw [hlow hn, hhigh] at hhead
      omega
    · have hhead := congrArg UInt8.toNat (cons.inj h).1
      rw [hlow hn', hhigh] at hhead
      omega
    · obtain ⟨hhead, htail⟩ := cons.inj h
      obtain ⟨hbytes, hrest⟩ := ih htail
      exact ⟨by rw [hhead, hbytes], hrest⟩

lemma lengthBytes_append_inj {n n' : Nat} {rest rest' : List UInt8}
    (h : lengthBytes n ++ rest = lengthBytes n' ++ rest') :
    lengthBytes n = lengthBytes n' ∧ rest = rest' :=
  varintBytes_append_inj h

namespace Reader

private lemma varintFrom_init {init : List UInt8} {last : UInt8}
    (hinit : ∀ b ∈ init, 128 ≤ b.toNat) (hlast : last.toNat < 128) {left : Nat}
    (hleft : init.length < left) (start shift value pos depth : Nat) (rest : List UInt8) :
    varintFrom start left shift value ⟨pos, init ++ [last] ++ rest, depth⟩ =
      .ok (UInt64.ofNat (value + varintValue (init ++ [last]) * Nat.pow 2 shift))
        ⟨pos + (init ++ [last]).length, rest, depth⟩ := by
  induction init generalizing left shift value pos with
  | nil =>
    obtain ⟨left, rfl⟩ : ∃ k, left = k + 1 := ⟨left - 1, by simp at hleft; omega⟩
    simp [varintFrom, varintValue, hlast]
  | cons b init ih =>
    obtain ⟨left, rfl⟩ : ∃ k, left = k + 1 := ⟨left - 1, by simp at hleft; omega⟩
    have hb : ¬ b.toNat < 128 := by
      have := hinit b (by simp)
      omega
    have hleft' : init.length < left := by
      rw [length_cons] at hleft
      omega
    have hsum : value + b.toNat % 128 * Nat.pow 2 shift +
          varintValue (init ++ [last]) * Nat.pow 2 (shift + 7) =
        value + varintValue (b :: init ++ [last]) * Nat.pow 2 shift := by
      change value + b.toNat % 128 * 2 ^ shift + varintValue (init ++ [last]) * 2 ^ (shift + 7) =
        value + (b.toNat % 128 + 128 * varintValue (init ++ [last])) * 2 ^ shift
      ring
    simp only [cons_append, varintFrom, hb, if_false]
    rw [ih (fun c hc => hinit c (mem_cons_of_mem b hc)) hleft', hsum]
    simp only [cons_append, length_cons]
    congr 2
    omega

lemma reads_of_isVarint {bytes : List UInt8} (h : IsVarint bytes) (depth : Nat) :
    Reads varint depth bytes (UInt64.ofNat (varintValue bytes)) := by
  obtain ⟨init, last, rfl, hlength, hinit, hlast⟩ := h
  intro pos rest
  rw [varint, varintFrom_init hinit hlast hlength]
  simp [Nat.pow_eq]

lemma reads_varint (n : UInt64) (depth : Nat) : Reads varint depth (Wire.varint n) n := by
  obtain ⟨hbytes, hvalue⟩ := isVarint_varint n
  have h := reads_of_isVarint hbytes depth
  rwa [hvalue, UInt64.ofNat_toNat] at h

lemma reads_uint32 (n : UInt32) (depth : Nat) : Reads uint32 depth (Wire.varint n.toUInt64) n := by
  have h : Reads uint32 depth (Wire.varint n.toUInt64) n.toUInt64.toUInt32 :=
    (reads_varint n.toUInt64 depth).map UInt64.toUInt32
  rwa [UInt32.toUInt32_toUInt64] at h

lemma reads_length {n : Nat} (hn : n < UInt32.size) (depth : Nat) :
    Reads uint32 depth (lengthBytes n) (UInt32.ofNat n) := by
  have hsize : n < UInt64.size := by
    simp only [UInt32.size, UInt64.size] at *
    omega
  have h : Reads uint32 depth (Wire.varint (UInt64.ofNat n)) (UInt64.ofNat n).toUInt32 :=
    (reads_varint (UInt64.ofNat n) depth).map UInt64.toUInt32
  rwa [Wire.varint, UInt64.toNat_ofNat_of_lt' hsize, UInt64.toUInt32_ofNat'] at h

lemma reads_take (bytes : List UInt8) (depth : Nat) :
    Reads (take bytes.length) depth bytes bytes := by
  intro pos rest
  rw [take, if_pos (by simp)]
  simp only [take_left, drop_left]

/-- Bytes after their length are read back, if the reader takes the whole length in. -/
lemma reads_bytes {bytes : List UInt8} (hlength : bytes.length < UInt32.size) (depth : Nat) :
    Reads Reader.bytes depth (lengthBytes bytes.length ++ bytes) bytes := by
  refine (reads_length hlength depth).bind ?_
  rw [UInt32.toNat_ofNat_of_lt' hlength]
  exact reads_take bytes depth

lemma utf8Text?_utf8Bytes (s : String) : utf8Text? (utf8Bytes s) = some s := by
  have hvalid : (⟨s.toByteArray.data⟩ : ByteArray).IsValidUTF8 := s.isValidUTF8
  simp [utf8Text?, utf8Bytes, String.fromUTF8?, String.fromUTF8, hvalid]

lemma reads_string {s : String} (hlength : (utf8Bytes s).length < UInt32.size) (depth : Nat) :
    Reads Reader.string depth (lengthBytes (utf8Bytes s).length ++ utf8Bytes s) s := by
  intro pos rest
  rw [Reader.string, Read.bind_ok (position_ok ..),
    Read.bind_ok (reads_bytes hlength depth pos rest), utf8Text?_utf8Bytes]
  rfl

/-! ## What a number reader takes -/

private lemma exists_init_of_varintFrom {start left shift value pos depth : Nat} {n : UInt64}
    {rest : List UInt8} {r : Reader}
    (h : varintFrom start left shift value ⟨pos, rest, depth⟩ = .ok n r) :
    ∃ (init : List UInt8) (last : UInt8), rest = init ++ [last] ++ r.rest ∧ init.length < left ∧
      (∀ b ∈ init, 128 ≤ b.toNat) ∧ last.toNat < 128 := by
  induction left generalizing shift value pos rest with
  | zero => cases h
  | succ left ih =>
    cases rest with
    | nil => cases h
    | cons b rest =>
      by_cases hlast : b.toNat < 128
      · simp only [varintFrom, hlast, if_true] at h
        cases h
        exact ⟨[], b, rfl, by simp, by simp, hlast⟩
      · simp only [varintFrom, hlast, if_false] at h
        obtain ⟨init, last, hrest, hlength, hinit, hend⟩ := ih h
        refine ⟨b :: init, last, by rw [hrest]; rfl, by simpa using hlength, ?_, hend⟩
        simpa using ⟨Nat.not_lt.mp hlast, hinit⟩

lemma isVarint_of_reads {depth : Nat} {bytes : List UInt8} {n : UInt64}
    (h : Reads varint depth bytes n) : IsVarint bytes := by
  obtain ⟨init, last, hbytes, hlength, hinit, hlast⟩ := exists_init_of_varintFrom (h 0 [])
  simp only [append_nil] at hbytes
  exact ⟨init, last, hbytes, hlength, hinit, hlast⟩

lemma varint_determined : Determined varint := by
  intro pos rest depth n r h
  obtain ⟨init, last, hrest, hlength, hinit, hlast⟩ := exists_init_of_varintFrom h
  have hreads := reads_of_isVarint ⟨init, last, rfl, hlength, hinit, hlast⟩ depth
  have hread := hreads pos r.rest
  rw [← hrest, h] at hread
  obtain ⟨rfl, hr⟩ := EStateM.Result.ok.inj hread
  exact ⟨init ++ [last], r.rest, hrest, hr, hreads⟩

lemma uint32_determined : Determined uint32 :=
  varint_determined.map _

lemma take_determined (n : Nat) : Determined (take n) := by
  intro pos rest depth bytes r h
  unfold take at h
  split_ifs at h with hn
  cases h
  have hlength : (rest.take n).length = n := by simpa using hn
  have hreads := reads_take (rest.take n) depth
  rw [hlength] at hreads
  exact ⟨rest.take n, rest.drop n, (take_append_drop n rest).symm, by rw [hlength], hreads⟩

lemma bytes_determined : Determined Reader.bytes :=
  uint32_determined.bind fun n => take_determined n.toNat

lemma string_determined : Determined Reader.string := by
  intro pos rest depth s r h
  rw [Reader.string, Read.bind_ok (position_ok ..), Read.bind_eq_ok] at h
  obtain ⟨bs, r₁, hbytes, hs⟩ := h
  obtain ⟨taken, after, hrest, rfl, hreads⟩ := bytes_determined pos rest depth bs r₁ hbytes
  cases htext : utf8Text? bs with
  | none =>
    rw [htext] at hs
    cases hs
  | some text =>
    rw [htext] at hs
    cases hs
    refine ⟨taken, after, hrest, rfl, ?_⟩
    intro pos' rest'
    rw [Reader.string, Read.bind_ok (position_ok ..),
      Read.bind_ok (hreads pos' rest'), htext]
    rfl

end Reader

lemma Reads.length_pos_of_uint32 {depth : Nat} {head : List UInt8} {tag : UInt32}
    (h : Reads Reader.uint32 depth head tag) : 0 < head.length := by
  cases head with
  | nil => cases h 0 []
  | cons b head => simp

end Protobuf.Wire
