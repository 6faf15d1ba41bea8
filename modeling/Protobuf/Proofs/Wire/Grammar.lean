import Protobuf.Proofs.Wire.Frames
import Protobuf.Proofs.Wire.Skips
import Protobuf.Wire.Scalar

/-!
# The grammar of wire data

The bytes that a value of a wire type can be, said without a reader: a varint is
at most ten bytes of which only the last one is below 128, a length-delimited
value is a length and as many bytes, and a group is records up to a tag of wire
type four. A value is passed over to its end if its groups are not nested too
deeply, and a read that is made for a wire type never stops short of the end of
such a value or beyond it.
-/

open Nat Protobuf.Wire.Read

namespace Protobuf.Wire

open List

/-! ## Values -/

/-- A varint of which the low 32 bits are `n`. -/
def IsNumber (n : Nat) (bytes : List UInt8) : Prop :=
  IsVarint bytes ∧ varintValue bytes % UInt32.size = n

/-- A value of a wire type other than a group. -/
inductive IsPlain : (wireType : Nat) → List UInt8 → Prop
  | varint {bytes : List UInt8} : IsVarint bytes → IsPlain 0 bytes
  | eight {bytes : List UInt8} : bytes.length = 8 → IsPlain 1 bytes
  | block {head body : List UInt8} : IsNumber body.length head → IsPlain 2 (head ++ body)
  | four {bytes : List UInt8} : bytes.length = 4 → IsPlain 5 bytes

/-- What follows the first tag of a group: records, and a tag of wire type four. Groups in it are
nested at most `levels` deep. -/
inductive IsGroup : (levels : Nat) → List UInt8 → Prop
  | stop {levels tag : Nat} {head : List UInt8} :
      IsNumber tag head → tag % 8 = 4 → IsGroup levels head
  | plain {levels tag : Nat} {head body rest : List UInt8} :
      IsNumber tag head → IsPlain (tag % 8) body → IsGroup levels rest →
      IsGroup levels (head ++ body ++ rest)
  | group {levels tag : Nat} {head body rest : List UInt8} :
      IsNumber tag head → tag % 8 = 3 → IsGroup levels body → IsGroup (levels + 1) rest →
      IsGroup (levels + 1) (head ++ body ++ rest)

/-- A value of a wire type, in which groups are nested at most `levels` deep. -/
inductive IsValue : (wireType levels : Nat) → List UInt8 → Prop
  | plain {wireType levels : Nat} {bytes : List UInt8} :
      IsPlain wireType bytes → IsValue wireType levels bytes
  | group {levels : Nat} {bytes : List UInt8} : IsGroup levels bytes → IsValue 3 (levels + 1) bytes

/-! ## Numbers -/

namespace Reader

lemma reads_of_isNumber {n : Nat} {bytes : List UInt8} (h : IsNumber n bytes) (depth : Nat) :
    Reads uint32 depth bytes (UInt32.ofNat n) := by
  obtain ⟨hbytes, rfl⟩ := h
  have hread : Reads uint32 depth bytes (UInt64.ofNat (varintValue bytes)).toUInt32 :=
    (reads_of_isVarint hbytes depth).map UInt64.toUInt32
  have hmod : (UInt64.ofNat (varintValue bytes)).toUInt32 =
      UInt32.ofNat (varintValue bytes % UInt32.size) := by
    apply UInt32.toNat_inj.mp
    simp
  rwa [hmod] at hread

end Reader

variable {bytes : List UInt8}

lemma IsNumber.lt {n : Nat} (h : IsNumber n bytes) : n < UInt32.size := by
  obtain ⟨-, rfl⟩ := h
  exact mod_lt _ (by decide)

lemma isNumber_singleton {b : UInt8} (hb : b.toNat < 128) : IsNumber b.toNat [b] := by
  refine ⟨⟨[], b, rfl, by decide, by simp, hb⟩, ?_⟩
  simp only [varintValue, UInt32.size]
  omega

lemma IsNumber.toNat {n : Nat} (h : IsNumber n bytes) : (UInt32.ofNat n).toNat = n :=
  UInt32.toNat_ofNat_of_lt' h.lt

/-! ## Values that are passed over -/

namespace Reader

lemma reads_skip (bytes : List UInt8) (depth : Nat) : Reads (skip bytes.length) depth bytes () :=
  (reads_take bytes depth).map fun _ => ()

lemma reads_skipPlain {wireType : Nat} {bytes : List UInt8} (h : IsPlain wireType bytes)
    (depth : Nat) : Reads (skipPlain wireType) depth bytes () := by
  cases h with
  | varint hbytes => exact (reads_of_isVarint hbytes depth).map fun _ => ()
  | eight hbytes =>
    have hskip := reads_skip bytes depth
    rwa [hbytes] at hskip
  | @block head body hhead =>
    refine (reads_of_isNumber hhead depth).bind ?_
    rw [hhead.toNat]
    exact reads_skip body depth
  | four hbytes =>
    have hskip := reads_skip bytes depth
    rwa [hbytes] at hskip

end Reader

lemma IsPlain.wireType_ne {wireType : Nat} (h : IsPlain wireType bytes) :
    wireType ≠ 3 ∧ wireType ≠ 4 := by
  cases h <;> decide

namespace Reader

section

variable {fuel start pos depth tag : Nat} {outer : List Nat} {head rest : List UInt8}
  (hhead : IsNumber tag head)

include hhead

lemma skipGroups_stop (hstop : tag % 8 = 4) :
    skipGroups (fuel + 1) start outer ⟨pos, head ++ rest, depth⟩ =
      behindGroup fuel outer ⟨pos + head.length, rest, depth - 1⟩ := by
  rw [skipGroups_succ (reads_of_isNumber hhead depth), hhead.toNat, if_pos hstop]
  cases outer <;> rfl

lemma skipGroups_plain {body : List UInt8} (hbody : IsPlain (tag % 8) body) :
    skipGroups (fuel + 1) start outer ⟨pos, head ++ (body ++ rest), depth⟩ =
      skipGroups fuel start outer ⟨pos + head.length + body.length, rest, depth⟩ := by
  rw [skipGroups_succ (reads_of_isNumber hhead depth), hhead.toNat, if_neg hbody.wireType_ne.2,
    if_neg hbody.wireType_ne.1, bind_ok (reads_skipPlain hbody depth _ _)]

lemma skipGroups_enter (hstart : tag % 8 = 3) (hdepth : depth < recursionLimit) :
    skipGroups (fuel + 1) start outer ⟨pos, head ++ rest, depth⟩ =
      skipGroups fuel (pos + head.length) (start :: outer)
        ⟨pos + head.length, rest, depth + 1⟩ := by
  rw [skipGroups_succ (reads_of_isNumber hhead depth), hhead.toNat, if_neg (by omega),
    if_pos hstart, bind_ok (position_ok ..), bind_ok (descend_of_lt hdepth _ _)]

lemma skipGroups_of_le (hstart : tag % 8 = 3) (hdepth : recursionLimit ≤ depth) :
    skipGroups (fuel + 1) start outer ⟨pos, head ++ rest, depth⟩ =
      .error (.recursionLimit (pos + head.length) recursionLimit)
        ⟨pos + head.length, rest, depth⟩ := by
  rw [skipGroups_succ (reads_of_isNumber hhead depth), hhead.toNat, if_neg (by omega),
    if_pos hstart, bind_ok (position_ok ..), bind_error (descend_of_le hdepth _ _)]

lemma exists_fuel (hfuel : (head ++ rest).length ≤ fuel) : ∃ k, fuel = k + 1 ∧ rest.length ≤ k := by
  have hpos := (reads_of_isNumber hhead 0).length_pos_of_uint32
  rw [length_append] at hfuel
  exact ⟨fuel - 1, by omega, by omega⟩

end

variable {levels : Nat} {bytes : List UInt8}

/-- A group is passed over, or it has a group in it that is nested too deeply. -/
lemma skipGroups_of_isGroup (h : IsGroup levels bytes) {fuel : Nat} (start pos depth : Nat)
    (outer : List Nat) {rest : List UInt8} (hfuel : (bytes ++ rest).length ≤ fuel) :
    (∃ fuel', rest.length ≤ fuel' ∧
        skipGroups fuel start outer ⟨pos, bytes ++ rest, depth⟩ =
          behindGroup fuel' outer ⟨pos + bytes.length, rest, depth - 1⟩) ∨
      recursionLimit < depth + levels ∧
        ∃ e r, skipGroups fuel start outer ⟨pos, bytes ++ rest, depth⟩ = .error e r := by
  induction h generalizing fuel start pos depth outer rest with
  | stop hhead hstop =>
    obtain ⟨fuel, rfl, hleft⟩ := exists_fuel hhead hfuel
    exact .inl ⟨fuel, hleft, skipGroups_stop hhead hstop⟩
  | @plain levels tag head body tail hhead hbody _ ih =>
    rw [append_assoc, append_assoc] at hfuel ⊢
    obtain ⟨fuel, rfl, hleft⟩ := exists_fuel hhead hfuel
    have hfuel' : (tail ++ rest).length ≤ fuel := by
      rw [length_append] at hleft
      omega
    rw [skipGroups_plain hhead hbody]
    simpa only [length_append, ← add_assoc] using
      ih start (pos + head.length + body.length) depth outer hfuel'
  | @group levels tag head body tail hhead hstart _ _ ihbody ihtail =>
    rw [append_assoc, append_assoc] at hfuel ⊢
    obtain ⟨fuel, rfl, hleft⟩ := exists_fuel hhead hfuel
    by_cases hdepth : depth < recursionLimit
    · rw [skipGroups_enter hhead hstart hdepth]
      rcases ihbody (pos + head.length) (pos + head.length) (depth + 1) (start :: outer) hleft with
        ⟨fuel', hleft', heq⟩ | ⟨hlimit, herror⟩
      · -- behind the inner group the records of this one go on
        rw [heq]
        simpa only [length_append, ← Nat.add_assoc, behindGroup, Nat.add_sub_cancel] using
          ihtail start (pos + head.length + body.length) depth outer hleft'
      · exact .inr ⟨by omega, herror⟩
    · have hfull := not_lt.mp hdepth
      exact .inr ⟨by omega, _, _, skipGroups_of_le hhead hstart hfull⟩

/-- Passing over the group that begins here. -/
private lemma skipValue_group {pos depth : Nat} {rest : List UInt8} (h : IsGroup levels bytes) :
    (skipValue 3 ⟨pos, bytes ++ rest, depth⟩ = .ok () ⟨pos + bytes.length, rest, depth⟩) ∨
      recursionLimit < depth + (levels + 1) ∧
        ∃ e r, skipValue 3 ⟨pos, bytes ++ rest, depth⟩ = .error e r := by
  by_cases hdepth : depth < recursionLimit
  · rw [skipValue_enter hdepth]
    rcases skipGroups_of_isGroup h pos pos (depth + 1) [] (le_refl _) with
      ⟨fuel, -, heq⟩ | ⟨hlimit, herror⟩
    · exact .inl heq
    · exact .inr ⟨by omega, herror⟩
  · have hfull := not_lt.mp hdepth
    exact .inr ⟨by omega, _, _, skipValue_of_le hfull _ _⟩

/-- A value is passed over to its end if its groups are not nested too deeply. -/
lemma reads_skipValue {wireType depth : Nat} (h : IsValue wireType levels bytes)
    (hdepth : depth + levels ≤ recursionLimit) : Reads (skipValue wireType) depth bytes () := by
  cases h with
  | plain hplain =>
    rw [skipValue, if_neg hplain.wireType_ne.1]
    exact reads_skipPlain hplain depth
  | group hgroup =>
    intro pos rest
    rcases skipValue_group hgroup with hok | ⟨hlimit, -⟩
    · exact hok
    · omega

end Reader

/-! ## Reads of a wire type -/

variable {α β : Type}

/-- Whenever the read succeeds at a value of the wire type, it stands at the end of the value. -/
def Ends (x : Read α) (wireType : Nat) : Prop :=
  ∀ ⦃levels pos depth : Nat⦄ ⦃bytes rest : List UInt8⦄ ⦃a : α⦄ ⦃r : Reader⦄,
    IsValue wireType levels bytes → x ⟨pos, bytes ++ rest, depth⟩ = .ok a r →
    r = ⟨pos + bytes.length, rest, depth⟩

namespace Ends

variable {x : Read α} {f : α → Read β} {wireType : Nat}

lemma bind_stays (hx : Ends x wireType)
    (hf : ∀ {a b r r'}, f a r = .ok b r' → r' = r) : Ends (x >>= f) wireType := by
  intro levels pos depth bytes rest b r hvalue h
  obtain ⟨a, r₁, h₁, h₂⟩ := bind_eq_ok.mp h
  rw [hf h₂]
  exact hx hvalue h₁

protected lemma map (hx : Ends x wireType) (g : α → β) :
    Ends (do return g (← x)) wireType :=
  hx.bind_stays fun h => by cases h; rfl

/-- A read that succeeds where a value of its wire type stands takes exactly that value. -/
lemma eq_of_reads (hx : Ends x wireType) {levels depth : Nat}
    {value rest taken left : List UInt8} {a : α} (hvalue : IsValue wireType levels value)
    (hreads : Reads x depth taken a) (heq : value ++ rest = taken ++ left) :
    taken = value ∧ left = rest := by
  have hread := hreads 0 left
  rw [← heq] at hread
  have hend := hx hvalue hread
  simp only [Reader.mk.injEq, and_true, zero_add] at hend
  exact ⟨(append_inj heq hend.1.symm).1.symm, hend.2⟩

end Ends

namespace Reader

lemma ends_varint : Ends varint 0 := by
  intro levels pos depth bytes rest a r hvalue h
  cases hvalue with
  | plain hplain =>
    cases hplain with
    | varint hbytes =>
      rw [reads_of_isVarint hbytes depth pos rest] at h
      cases h
      rfl

private lemma ends_take {wireType n : Nat}
    (hn : ∀ {levels bytes}, IsValue wireType levels bytes → bytes.length = n) :
    Ends (take n) wireType := by
  intro levels pos depth bytes rest a r hvalue h
  have hread := reads_take bytes depth pos rest
  rw [hn hvalue, h] at hread
  cases hread
  rw [hn hvalue]

lemma ends_take_eight : Ends (take 8) 1 :=
  ends_take fun hvalue => by
    cases hvalue with
    | plain hplain =>
      cases hplain with
      | eight hlength => exact hlength

lemma ends_take_four : Ends (take 4) 5 :=
  ends_take fun hvalue => by
    cases hvalue with
    | plain hplain =>
      cases hplain with
      | four hlength => exact hlength

/-- Whenever the read succeeds, it stands `n` bytes further. -/
def Advances (x : Read α) (n : Nat) : Prop :=
  ∀ ⦃pos depth : Nat⦄ ⦃rest : List UInt8⦄ ⦃a : α⦄ ⦃r : Reader⦄,
    x ⟨pos, rest, depth⟩ = .ok a r → r = ⟨pos + n, rest.drop n, depth⟩

lemma ends_block {g : UInt32 → Read α} (hg : ∀ n, Advances (g n) n.toNat) :
    Ends (uint32 >>= g) 2 := by
  intro levels pos depth bytes rest a r hvalue h
  cases hvalue with
  | plain hplain =>
    cases hplain with
    | @block head body hhead =>
      rw [append_assoc, bind_ok (reads_of_isNumber hhead depth _ _)] at h
      rw [hg _ h, hhead.toNat, drop_left, length_append, add_assoc]

lemma advances_take (n : Nat) : Advances (take n) n := by
  intro pos depth rest a r h
  unfold take at h
  split_ifs at h
  cases h
  rfl

lemma advances_frame {σ : Type} {field : (number wireType : Nat) → σ → Read σ}
    (hfield : ∀ number wireType s, Determined (field number wireType s)) (n : Nat) (s : σ) :
    Advances (frame field (some n) s) n := by
  intro pos depth rest a r h
  obtain ⟨taken, left, rfl, rfl, rfl, -⟩ := recordsRead_of_frame hfield h
  rw [drop_left]

lemma ends_message {decode : Option Nat → Read α}
    (hdecode : ∀ n, Advances (decode (some n)) n) : Ends (message decode) 2 := by
  refine ends_block fun n => ?_
  intro pos depth rest a r h
  obtain ⟨⟨⟩, r₁, hdescend, h⟩ := bind_eq_ok.mp h
  obtain ⟨-, rfl⟩ := descend_eq_ok hdescend
  simp only [ascending] at h
  split at h
  · rename_i b r₂ hinner
    cases h
    rw [hdecode _ hinner]
    rfl
  · cases h

section

variable {σ : Type} {field : (number wireType : Nat) → σ → Read σ} {s a : σ} {depth : Nat}
  {length body : List UInt8}
  (hfield : ∀ number wireType s, Determined (field number wireType s))
  (hlength : IsNumber body.length length)

include hfield hlength

/-- A frame after its length is read exactly if it consists of records. -/
lemma reads_lengthFrame_iff :
    Reads (uint32 >>= fun n => frame field (some n.toNat) s) depth (length ++ body) a ↔
      RecordsRead field depth body s a := by
  constructor
  · intro h
    have hread := h 0 []
    rw [append_assoc, bind_ok (reads_of_isNumber hlength depth _ _),
      hlength.toNat] at hread
    exact recordsRead_of_frame_length hfield hread
  · intro h
    refine (reads_of_isNumber hlength depth).bind ?_
    rw [hlength.toNat]
    exact reads_frame h

lemma reads_message_iff {decode : Option Nat → Read σ}
    (hdecode : ∀ n, decode (some n) = frame field (some n) s) :
    Reads (message decode) depth (length ++ body) a ↔
      depth < recursionLimit ∧ RecordsRead field (depth + 1) body s a := by
  have hstep (pos : Nat) (rest : List UInt8) :
      message decode ⟨pos, length ++ body ++ rest, depth⟩ =
        (descend >>= fun _ => ascending (frame field (some body.length) s))
          ⟨pos + length.length, body ++ rest, depth⟩ := by
    rw [message, append_assoc, Read.bind_ok (reads_of_isNumber hlength depth _ _),
      hlength.toNat, hdecode]
  constructor
  · intro h
    have hread := (hstep 0 []).symm.trans (h 0 [])
    obtain ⟨⟨⟩, r, hdescend, hread⟩ := Read.bind_eq_ok.mp hread
    obtain ⟨hdepth, rfl⟩ := descend_eq_ok hdescend
    refine ⟨hdepth, ?_⟩
    cases hinner : frame field (some body.length) s ⟨0 + length.length, body ++ [], depth + 1⟩ with
    | error e r =>
      simp only [ascending, hinner] at hread
      cases hread
    | ok t r =>
      simp only [ascending, hinner, EStateM.Result.ok.injEq] at hread
      obtain ⟨rfl, -⟩ := hread
      exact recordsRead_of_frame_length hfield hinner
  · rintro ⟨hdepth, h⟩ pos rest
    have hinner := reads_frame h (pos + length.length) rest
    rw [hstep, Read.bind_ok (descend_of_lt hdepth _ _)]
    simp only [ascending, hinner, Nat.add_sub_cancel, length_append, Nat.add_assoc]

end

lemma ends_skipValue (wireType : Nat) : Ends (skipValue wireType) wireType := by
  intro levels pos depth bytes rest a r hvalue h
  cases hvalue with
  | plain hplain =>
    rw [skipValue, if_neg hplain.wireType_ne.1, reads_skipPlain hplain depth pos rest] at h
    cases h
    rfl
  | group hgroup =>
    rcases skipValue_group hgroup with hok | ⟨-, e, r', herror⟩
    · rw [hok] at h
      cases h
      rfl
    · rw [herror] at h
      cases h

lemma ends_bytes : Ends Reader.bytes 2 :=
  ends_block fun n => advances_take n.toNat

lemma ends_string : Ends Reader.string 2 := by
  intro levels pos depth bytes rest text r hvalue h
  rw [Reader.string, bind_ok (position_ok ..)] at h
  obtain ⟨bs, r₁, hbytes, h⟩ := bind_eq_ok.mp h
  have hend := ends_bytes hvalue hbytes
  cases htext : utf8Text? bs with
  | none =>
    rw [htext] at h
    cases h
  | some text' =>
    rw [htext] at h
    cases h
    exact hend

end Reader

end Protobuf.Wire

namespace Protobuf

open Wire Reader

lemma Scalar.ends_read (t : Scalar) : Ends t.read t.wireType := by
  have hfour : Ends Reader.fixed32 5 := ends_take_four.map _
  have height : Ends Reader.fixed64 1 := ends_take_eight.map _
  cases t with
  | double => exact (height.map _).map _
  | float => exact (hfour.map _).map _
  | fixed32 => exact hfour.map _
  | fixed64 => exact height.map _
  | sfixed32 => exact (hfour.map _).map _
  | sfixed64 => exact (height.map _).map _
  | string => exact ends_string.map _
  | bytes => exact ends_bytes.map _
  | uint64 => exact ends_varint.map _
  | _ => exact (ends_varint.map _).map _

end Protobuf
