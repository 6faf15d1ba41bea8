import Protobuf.Proofs.Wire.Counts

/-!
# Varints byte by byte

Reading a varint ends at the first of ten bytes that is below 128, and fails without
one. Of all bytes that are read as a number, those that are written are the fewest, and
no others are as few, unless the number needs the tenth byte: only one bit of it counts.
-/

namespace Protobuf.Wire

open List

lemma varintValue_eq_sum (bytes : List UInt8) :
    varintValue bytes = ∑ i : Fin bytes.length, bytes[i].toNat % 128 * 128 ^ i.val := by
  induction bytes with
  | nil => rfl
  | cons b bytes ih =>
    rw [varintValue, ih, Finset.mul_sum]
    refine (congrArg₂ _ (by simp) (Finset.sum_congr rfl fun i _ => ?_)).trans
      (Fin.sum_univ_succ _).symm
    simp only [Fin.getElem_fin, Fin.val_succ, getElem_cons_succ]
    ring

lemma IsVarint.eq_of_varintValue_eq {bytes bytes' : List UInt8} (h : IsVarint bytes)
    (h' : IsVarint bytes') (hlength : bytes.length = bytes'.length)
    (hvalue : varintValue bytes = varintValue bytes') : bytes = bytes' := by
  obtain ⟨init, last, rfl, -, hinit, hlast⟩ := h
  obtain ⟨init', last', rfl, -, hinit', hlast'⟩ := h'
  induction init generalizing init' with
  | nil =>
    obtain rfl : init' = [] := by simpa using hlength.symm
    simp only [nil_append, varintValue] at hvalue
    rw [UInt8.toNat_inj.mp (show last.toNat = last'.toNat by omega)]
  | cons b init ih =>
    cases init' with
    | nil => simp at hlength
    | cons b' init' =>
      simp only [cons_append, varintValue, length_cons, forall_mem_cons] at *
      have hb : b = b' := UInt8.toNat_inj.mp (by have := b.toNat_lt; have := b'.toNat_lt; omega)
      rw [hb, ih hinit.2 init' (by omega) (by omega) hinit'.2]

/-- Without a byte below 128 the reader comes to the end of the buffer or to the last byte that a
varint may have. -/
lemma Reader.varintFrom_of_high (start left shift value : Nat) (r : Reader)
    (hhigh : ∀ b ∈ r.rest.take left, 128 ≤ b.toNat) :
    varintFrom start left shift value r =
      if r.rest.length < left then .error (.truncated r.size) ⟨r.size, [], r.depth⟩
      else .error (.varintOverflow start) ⟨r.pos + left, r.rest.drop left, r.depth⟩ := by
  obtain ⟨pos, rest, depth⟩ := r
  induction left generalizing shift value pos rest with
  | zero => rfl
  | succ left ih =>
    cases rest with
    | nil => rfl
    | cons b rest =>
      rw [take_succ_cons, forall_mem_cons] at hhigh
      simp only [varintFrom, Nat.not_lt.mpr hhigh.1, if_false, ih _ _ _ _ hhigh.2, length_cons,
        drop_succ_cons, Nat.add_lt_add_iff_right, Reader.size, Nat.add_assoc, Nat.add_comm 1]

/-- Bytes that are read as a number are no fewer than those that are written for it. As few others
make it only if its highest bit is set. -/
lemma Reader.varint_shortest {bytes : List UInt8} {n : UInt64} {r : Reader}
    (h : varint (.ofBytes bytes) = .ok n r) :
    (Wire.varint n).length ≤ bytes.length ∧
      (n.toNat < 2 ^ 63 → bytes.length = (Wire.varint n).length → bytes = Wire.varint n) := by
  obtain ⟨taken, left, rfl, -, hreads⟩ := varint_determined _ _ _ _ _ h
  have htaken := isVarint_of_reads hreads
  obtain ⟨-, -, hn⟩ := hreads.unique (reads_of_isVarint htaken 0) (rfl : taken ++ [] = taken ++ [])
  obtain ⟨k, hk⟩ : ∃ k, taken.length = k + 1 := by
    obtain ⟨init, last, rfl, -⟩ := htaken
    exact ⟨init.length, by simp⟩
  have hlt := varintValue_lt taken
  have hle : (Wire.varint n).length ≤ taken.length := by
    rw [hk] at hlt ⊢
    refine length_varintBytes_le (lt_of_le_of_lt ?_ hlt)
    rw [hn, UInt64.toNat_ofNat']
    exact Nat.mod_le _ _
  refine ⟨hle.trans (by simp), fun hsmall hlength => ?_⟩
  have hleft : left = [] := by
    rw [length_append] at hlength
    exact length_eq_zero_iff.mp (by omega)
  rw [hleft, append_nil] at hlength ⊢
  refine htaken.eq_of_varintValue_eq (isVarint_varint n).1 hlength ?_
  have hnine : taken.length ≤ 9 := hlength ▸ length_varintBytes_le (k := 8) (by simpa using hsmall)
  have hvalue : varintValue taken < 2 ^ 64 :=
    hlt.trans_le ((Nat.pow_le_pow_right (by decide) hnine).trans (by decide))
  rw [(isVarint_varint n).2, hn, UInt64.toNat_ofNat', Nat.mod_eq_of_lt hvalue]

/-- A varint is read exactly if one of the next ten bytes is below 128, and then up to the first of
these, as the sum of the digits that the low seven bits are; otherwise reading fails, at the end of
the buffer or for the ten bytes. What is written is read back; nothing shorter is read as the
number, and below `2 ^ 63` nothing else that is as short. -/
theorem varint_exact (r : Reader) (n : UInt64) (w : Writer) :
    ((∃ v r', Reader.varint r = .ok v r') ↔ ∃ b ∈ r.rest.take 10, b.toNat < 128) ∧
      (∀ (init : List UInt8) (last : UInt8) (after : List UInt8), r.rest = init ++ last :: after →
        init.length < 10 → (∀ b ∈ init, 128 ≤ b.toNat) → last.toNat < 128 →
        Reader.varint r =
          .ok (UInt64.ofNat (∑ i : Fin (init ++ [last]).length,
              (init ++ [last])[i].toNat % 128 * 128 ^ i.val))
            ⟨r.pos + init.length + 1, after, r.depth⟩) ∧
      ((∀ b ∈ r.rest.take 10, 128 ≤ b.toNat) → Reader.varint r =
        if r.rest.length < 10 then .error (.truncated r.size) ⟨r.size, [], r.depth⟩
        else .error (.varintOverflow r.pos) ⟨r.pos + 10, r.rest.drop 10, r.depth⟩) ∧
      ∃ bytes, (w.varint n).body = w.body ++ bytes ∧
        (∀ depth, Reads Reader.varint depth bytes n) ∧
        ∀ other r', Reader.varint (.ofBytes other) = .ok n r' → bytes.length ≤ other.length ∧
          (n.toNat < 2 ^ 63 → other.length = bytes.length → other = bytes) := by
  have hread (init : List UInt8) (last : UInt8) (after : List UInt8)
      (hrest : r.rest = init ++ last :: after) (hlength : init.length < 10)
      (hinit : ∀ b ∈ init, 128 ≤ b.toNat) (hlast : last.toNat < 128) :
      Reader.varint r = .ok (UInt64.ofNat (varintValue (init ++ [last])))
        ⟨r.pos + init.length + 1, after, r.depth⟩ := by
    have h := Reader.reads_of_isVarint ⟨init, last, rfl, hlength, hinit, hlast⟩ r.depth r.pos after
    rw [append_assoc, singleton_append, ← hrest, length_append] at h
    exact h
  have hhigh := Reader.varintFrom_of_high r.pos 10 0 0 r
  refine ⟨⟨fun ⟨v, r', h⟩ => ?_, fun ⟨b, hb, hlow⟩ => ?_⟩, fun init last after => ?_, hhigh,
    Wire.varint n, rfl, Reader.reads_varint n, fun _ _ => Reader.varint_shortest⟩
  · by_contra! hnone
    have hfail := h.symm.trans (hhigh hnone)
    split_ifs at hfail
  · -- The first such byte, with what is before it.
    obtain ⟨last, hfind⟩ := Option.isSome_iff_exists.mp
      (find?_isSome (p := fun b : UInt8 => b.toNat < 128).mpr ⟨b, hb, by simpa using hlow⟩)
    obtain ⟨hlast, init, after, htake, hinit⟩ := find?_eq_some_iff_append.mp hfind
    have hlength := congrArg length htake
    rw [length_take, length_append, length_cons] at hlength
    refine ⟨_, _, hread init last (after ++ r.rest.drop 10) ?_ (by omega)
      (by simpa using hinit) (by simpa using hlast)⟩
    rw [← cons_append, ← append_assoc, ← htake, take_append_drop]
  · rw [← varintValue_eq_sum]
    exact hread init last after

end Protobuf.Wire
