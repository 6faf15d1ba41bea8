import Protobuf.Proofs.Wire.DirectEncoding

/-!
# What the writer counts

The writer counts the bytes of the lengths that it keeps aside. A block that closes takes
its length from what was counted when it opened and what is counted now. Along all calls
the counts are those of the blocks that were closed, and each length is the shortest
varint of what its block holds, the lengths of the blocks in it included.
-/

namespace Protobuf.Wire

open List

/-! ## Shortest varints -/

/-- The bytes are a varint of the number, and no varint of it is shorter. -/
def IsShortest (n : Nat) (bytes : List UInt8) : Prop :=
  IsVarint bytes ∧ varintValue bytes = n ∧
    ∀ other, IsVarint other → varintValue other = n → bytes.length ≤ other.length

lemma varintValue_lt (bytes : List UInt8) : varintValue bytes < Nat.pow 128 bytes.length := by
  induction bytes with
  | nil => decide
  | cons b bytes ih =>
    have hpow : Nat.pow 128 (bytes.length + 1) = 128 * Nat.pow 128 bytes.length := Nat.pow_succ'
    rw [varintValue, length_cons]
    omega

lemma length_varintBytes_le {more n k : Nat} (hn : n < Nat.pow 128 (k + 1)) :
    (varintBytes more n).length ≤ k + 1 := by
  induction more generalizing n k with
  | zero => exact Nat.le_add_left 1 k
  | succ more ih =>
    have hpow : Nat.pow 128 (k + 1) = 128 * Nat.pow 128 k := Nat.pow_succ'
    unfold varintBytes
    split_ifs with hsmall
    · exact Nat.le_add_left 1 k
    · cases k with
      | zero => exact absurd hn hsmall
      | succ k => exact Nat.succ_le_succ (ih (by omega))

lemma isShortest_lengthBytes {n : Nat} (hn : n < UInt64.size) : IsShortest n (lengthBytes n) := by
  have hbytes : lengthBytes n = varint (.ofNat n) := by
    rw [lengthBytes, varint, UInt64.toNat_ofNat_of_lt' hn]
  obtain ⟨hvarint, hvalue⟩ := isVarint_varint (.ofNat n)
  rw [UInt64.toNat_ofNat_of_lt' hn] at hvalue
  refine ⟨hbytes ▸ hvarint, hbytes ▸ hvalue, ?_⟩
  rintro _ ⟨init, last, rfl, -⟩ rfl
  have hlt := varintValue_lt (init ++ [last])
  rw [length_append] at hlt ⊢
  exact length_varintBytes_le hlt

/-! ## Lengths in their places -/

lemma ByOffset.placed {low high : Nat} {marks : List LengthMark} (h : ByOffset marks)
    (hle : low ≤ high) (hmarks : ∀ m ∈ marks, low ≤ m.offset ∧ m.offset ≤ high) :
    Placed low high marks := by
  induction marks generalizing low with
  | nil => exact hle
  | cons m marks ih =>
    obtain ⟨hfirst, hrest⟩ := pairwise_cons.mp h
    obtain ⟨hm, hothers⟩ := forall_mem_cons.mp hmarks
    exact ⟨hm.1, ih hrest hm.2 fun n hn => ⟨hfirst n hn, (hothers n hn).2⟩⟩

namespace Writer

/-- Closing the open blocks puts in one length for each of them, and counts it. -/
lemma closeAll_adds (w : Writer) : ∃ added, added.length = w.blocks.length ∧
    (closeAll w.blocks.length w).marks.Perm (added ++ w.marks) ∧
    (closeAll w.blocks.length w).size = w.size + marksLength added := by
  obtain ⟨body, blocks, marks, marked⟩ := w
  induction blocks generalizing marks marked with
  | nil => exact ⟨[], rfl, .refl _, rfl⟩
  | cons b blocks ih =>
    let mark : LengthMark :=
      ⟨b.start, lengthBytes (body.length - b.start + (marked - b.marked))⟩
    obtain ⟨added, hlength, hperm, hsize⟩ :=
      ih (insertMark mark marks) (marked + mark.bytes.length)
    refine ⟨added ++ [mark], by simp [hlength], ?_, hsize.trans ?_⟩
    · rw [append_assoc]
      exact hperm.trans ((insertMark_perm mark marks).append_left added)
    · simp [size, marksLength]
      omega

end Writer

namespace Outline

/-- What was written, without the bounds of the blocks that are still open. -/
def written (o : Outline) : List Piece :=
  o.outer.reverse.flatten ++ o.inner

/-- Open blocks leave no trace in what is kept of the blocks that were closed. -/
lemma writer_eq (inner : List Piece) (outer : List (List Piece)) :
    writer inner outer =
      { Writer.empty.writePieces (written ⟨inner, outer⟩) with
        blocks := (writer inner outer).blocks } := by
  induction outer generalizing inner with
  | nil => rfl
  | cons before outer ih =>
    have hwritten : written ⟨inner, before :: outer⟩ = written ⟨before, outer⟩ ++ inner := by
      simp [written]
    rw [hwritten, Writer.writePieces_append, writer, ih]
    rfl

/-- What was counted when a block was opened is not more than what is counted now. -/
lemma counted_le (inner : List Piece) (outer : List (List Piece)) :
    ∀ b ∈ (writer inner outer).blocks, b.start ≤ (writer inner outer).body.length ∧
      b.marked ≤ (writer inner outer).marked := by
  induction outer generalizing inner with
  | nil => exact forall_mem_nil _
  | cons before outer ih =>
    have hbody : (writer before outer).body.length ≤
        (writer inner (before :: outer)).body.length := by
      simp [writer, Writer.writePieces, Writer.openBlock]
    have hmarked : (writer before outer).marked ≤ (writer inner (before :: outer)).marked :=
      Nat.le_add_right ..
    refine forall_mem_cons.mpr ⟨⟨hbody, hmarked⟩, fun b hb => ?_⟩
    obtain ⟨hstart, hcount⟩ := ih before b hb
    exact ⟨hstart.trans hbody, hcount.trans hmarked⟩

end Outline

/-- What some calls wrote: a block each that was closed, and what else there is. -/
def writtenBy (calls : List Call) : List Piece :=
  (calls.foldl Outline.step .empty).written

section

variable (calls : List Call)

lemma run_eq_writer :
    Writer.empty.run calls = Outline.writer (calls.foldl Outline.step .empty).inner
      (calls.foldl Outline.step .empty).outer :=
  Outline.foldl_writer calls .empty

lemma run_eq_writePieces :
    Writer.empty.run calls = { Writer.empty.writePieces (writtenBy calls) with
      blocks := (Writer.empty.run calls).blocks } := by
  rw [run_eq_writer]
  exact Outline.writer_eq ..

lemma length_finish_run :
    (Writer.empty.run calls).finish.length =
      (Writer.closeAll (Writer.empty.run calls).blocks.length (Writer.empty.run calls)).size := by
  have hperm := insertMarks_closed_perm (layout calls)
  have hplaced := Piece.placed_opened 0 (layout calls)
  have hmarks := (ByOffset.insertMarks .nil (Piece.closed 0 (layout calls))).placed
    (Nat.zero_le (0 + (Piece.bodies (layout calls)).length))
    fun m hm => ⟨Nat.zero_le _, hplaced.offset_le m (hperm.mem_iff.mp hm)⟩
  rw [finish_run, weave_length hmarks, marksLength, (hperm.map _).sum_eq,
    ← ((Piece.closed_perm_opened 0 (layout calls)).map _).sum_eq, run_eq_writer,
    Outline.blocks_writer, Outline.closeAll_writer, Writer.size]
  exact congrArg _ (Nat.zero_add _).symm

end

/-- What the writer keeps of some pieces: a block each that was closed, and what else was
written. -/
structure Accounts (w : Writer) (pieces : List Piece) : Prop where
  /-- Closing a block never takes a count from a lesser one. -/
  counted : ∀ b ∈ w.blocks, b.start ≤ w.body.length ∧ b.marked ≤ w.marked
  /-- The bytes without lengths. -/
  body : w.body = Piece.bodies pieces
  /-- One length for each closed block. -/
  marks : w.marks.Perm (Piece.closed 0 pieces)
  marked : w.marked = marksLength w.marks
  /-- The output has what is counted, and the lengths of the blocks that the end closes. -/
  finished : ∃ added, added.length = w.blocks.length ∧
    (Writer.closeAll w.blocks.length w).marks.Perm (added ++ w.marks) ∧
    w.finish.length = w.size + marksLength added

/-- Whatever the calls, the writer accounts for all lengths. That of a block is the shortest varint
of the number of its bytes and those of the lengths in it. If no block is open, the output has as
many bytes as are counted. -/
theorem run_accounts (calls : List Call) :
    Accounts (Writer.empty.run calls) (writtenBy calls) ∧
    (∀ offset inner, Piece.closed offset [.block inner] = Piece.closed offset inner ++
      [⟨offset, lengthBytes
        ((Piece.bodies inner).length + marksLength (Piece.closed offset inner))⟩]) ∧
    (∀ n < UInt64.size, IsShortest n (lengthBytes n)) ∧
    ((Writer.empty.run calls).blocks = [] →
      (Writer.empty.run calls).finish.length = (Writer.empty.run calls).size) := by
  have hkept := run_eq_writePieces calls
  have hmarks : (Writer.empty.run calls).marks.Perm (Piece.closed 0 (writtenBy calls)) := by
    rw [hkept]
    exact (insertMarks_perm ..).trans (.of_eq (append_nil _))
  refine ⟨⟨?_, ?_, hmarks, ?_, ?_⟩, ?_, fun n hn => isShortest_lengthBytes hn, ?_⟩
  · rw [run_eq_writer]
    exact fun b hb => Outline.counted_le _ _ b hb
  · rw [hkept]
    rfl
  · rw [marksLength, (hmarks.map _).sum_eq, hkept]
    exact Nat.zero_add _
  · obtain ⟨added, hlength, hperm, hsize⟩ := (Writer.empty.run calls).closeAll_adds
    exact ⟨added, hlength, hperm, (length_finish_run calls).trans hsize⟩
  · intro offset inner
    rw [Piece.closed_block, Piece.length_flatten offset]
  · intro hblocks
    rw [length_finish_run, hblocks]
    rfl

end Protobuf.Wire
