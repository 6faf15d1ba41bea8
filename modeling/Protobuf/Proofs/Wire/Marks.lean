import Protobuf.Proofs.Wire.Emits

/-!
# Marks in the order of their offsets

The writer keeps the marks of closed blocks by offset. Offsets alone do not fix
the order of marks: at one offset the mark put in last comes first. The order at
single offsets is all that is left open, and the finished bytes show it, since a
length shows where it ends.
-/

namespace Protobuf.Wire

open List

/-! ## Putting marks in their places -/

/-- Put marks in their places among others, one after the other. -/
def insertMarks (marks kept : List LengthMark) : List LengthMark :=
  marks.foldl (fun kept m => insertMark m kept) kept

lemma insertMarks_append (marks more kept : List LengthMark) :
    insertMarks (marks ++ more) kept = insertMarks more (insertMarks marks kept) :=
  foldl_append

lemma insertMark_perm (m : LengthMark) (marks : List LengthMark) :
    (insertMark m marks).Perm (m :: marks) := by
  induction marks with
  | nil => exact .refl _
  | cons n marks ih =>
    unfold insertMark
    split_ifs with hn
    · exact (ih.cons n).trans (.swap m n marks)
    · exact .refl _

lemma insertMarks_perm (marks kept : List LengthMark) :
    (insertMarks marks kept).Perm (marks ++ kept) := by
  induction marks generalizing kept with
  | nil => exact .refl _
  | cons m marks ih =>
    have hkept := (insertMark_perm m kept).append_left marks
    exact (ih _).trans (hkept.trans perm_middle)

/-! ## Marks by offset -/

def ByOffset (marks : List LengthMark) : Prop :=
  marks.Pairwise fun m n => m.offset ≤ n.offset

lemma Placed.byOffset {low high : Nat} {marks : List LengthMark} (h : Placed low high marks) :
    ByOffset marks := by
  induction marks generalizing low with
  | nil => exact .nil
  | cons m marks ih => exact .cons h.2.le_offset (ih h.2)

namespace ByOffset

variable {marks marks' : List LengthMark}

protected lemma insertMark (h : ByOffset marks) (m : LengthMark) :
    ByOffset (insertMark m marks) := by
  induction h with
  | nil => exact pairwise_singleton ..
  | @cons n marks hn h ih =>
    unfold Wire.insertMark
    split_ifs with hlt
    · refine .cons (fun k hk => ?_) ih
      rcases mem_cons.mp ((insertMark_perm m marks).mem_iff.mp hk) with rfl | hk
      · exact hlt.le
      · exact hn k hk
    · refine .cons (fun k hk => ?_) (.cons hn h)
      rcases mem_cons.mp hk with rfl | hk
      · exact Nat.not_lt.mp hlt
      · exact (Nat.not_lt.mp hlt).trans (hn k hk)

protected lemma insertMarks (h : ByOffset marks) (more : List LengthMark) :
    ByOffset (insertMarks more marks) := by
  induction more generalizing marks with
  | nil => exact h
  | cons m more ih => exact ih (h.insertMark m)

/-- The offsets of marks in order do not depend on how marks at one offset follow each other. -/
lemma offsets_eq (h : ByOffset marks) (h' : ByOffset marks') (hperm : marks.Perm marks') :
    marks.map (·.offset) = marks'.map (·.offset) :=
  (hperm.map _).eq_of_pairwise (fun _ _ _ _ => Nat.le_antisymm) (pairwise_map.mpr h)
    (pairwise_map.mpr h')

end ByOffset

/-- Marks whose offsets are known are known from the marks at every single offset. -/
lemma eq_of_filter_eq {marks marks' : List LengthMark}
    (hoffsets : marks.map (·.offset) = marks'.map (·.offset))
    (h : ∀ offset, marks.filter (·.offset = offset) = marks'.filter (·.offset = offset)) :
    marks = marks' := by
  induction marks generalizing marks' with
  | nil => exact (map_eq_nil_iff.mp hoffsets.symm).symm
  | cons m marks ih =>
    cases marks' with
    | nil => simp at hoffsets
    | cons m' marks' =>
      obtain ⟨hoffset, htail⟩ := cons.inj hoffsets
      have hm : m = m' := by
        have hhere := h m.offset
        simp only [filter_cons, hoffset, decide_true, if_true] at hhere
        exact (cons.inj hhere).1
      subst hm
      congr 1
      apply ih htail
      intro offset
      have hhere := h offset
      simp only [filter_cons] at hhere
      split_ifs at hhere with ho
      · exact (cons.inj hhere).2
      · exact hhere

lemma filter_insertMark (m : LengthMark) (marks : List LengthMark) (offset : Nat) :
    (insertMark m marks).filter (·.offset = offset) =
      (m :: marks).filter (·.offset = offset) := by
  induction marks with
  | nil => rfl
  | cons n marks ih =>
    unfold insertMark
    split_ifs with hlt
    · rw [filter_cons, ih]
      by_cases hm : m.offset = offset
      · have hn : ¬ n.offset = offset := by omega
        simp [hm, hn]
      · simp [filter_cons, hm]
    · rfl

lemma filter_insertMarks (marks kept : List LengthMark) (offset : Nat) :
    (insertMarks marks kept).filter (·.offset = offset) =
      marks.reverse.filter (·.offset = offset) ++ kept.filter (·.offset = offset) := by
  induction marks generalizing kept with
  | nil => rfl
  | cons m marks ih =>
    change (insertMarks marks (insertMark m kept)).filter _ = _
    rw [ih, filter_insertMark, reverse_cons, ← filter_append, ← filter_append,
      append_assoc, singleton_append]

/-- The places of the lengths are known, and a length shows where it ends, so the woven bytes tell
every length. -/
lemma weave_injective {copied : Nat} {body : List UInt8} {marks marks' : List LengthMark}
    (hoffsets : marks.map (·.offset) = marks'.map (·.offset))
    (hmarks : ∀ m ∈ marks, ∃ n, m.bytes = lengthBytes n)
    (hmarks' : ∀ m ∈ marks', ∃ n, m.bytes = lengthBytes n)
    (h : weave copied body marks = weave copied body marks') : marks = marks' := by
  induction marks generalizing copied body marks' with
  | nil => exact (map_eq_nil_iff.mp hoffsets.symm).symm
  | cons m marks ih =>
    cases marks' with
    | nil => simp at hoffsets
    | cons m' marks' =>
      obtain ⟨hoffset, htail⟩ := cons.inj hoffsets
      obtain ⟨offset, bytes⟩ := m
      obtain ⟨offset', bytes'⟩ := m'
      obtain rfl : offset = offset' := hoffset
      obtain ⟨n, rfl⟩ : ∃ n, bytes = lengthBytes n := hmarks _ mem_cons_self
      obtain ⟨n', rfl⟩ : ∃ n, bytes' = lengthBytes n := hmarks' _ mem_cons_self
      simp only [weave, append_assoc, append_cancel_left_eq] at h
      obtain ⟨hbytes, hrest⟩ := lengthBytes_append_inj h
      rw [hbytes, ih htail (fun m hm => hmarks m (mem_cons_of_mem _ hm))
        (fun m hm => hmarks' m (mem_cons_of_mem _ hm)) hrest]

end Protobuf.Wire
