import Protobuf.Proofs.Wire.Numbers
import Protobuf.Wire.Writer

/-!
# What a writing step adds to the output

The writer keeps lengths of blocks aside until the end, so what a step adds is
not visible in the body alone. `Emits` says that a step adds given bytes to the
finished output. Blocks that follow a tag compose: the bytes of such a block are
its length and the bytes of its content.
-/

namespace Protobuf.Wire

open List

/-- The marks lie between two offsets, in order. -/
def Placed (low high : Nat) : List LengthMark → Prop
  | [] => low ≤ high
  | m :: marks => low ≤ m.offset ∧ Placed m.offset high marks

def marksLength (marks : List LengthMark) : Nat :=
  (marks.map fun m => m.bytes.length).sum

lemma marksLength_append (marks more : List LengthMark) :
    marksLength (marks ++ more) = marksLength marks + marksLength more := by
  simp only [marksLength, map_append, sum_append]

namespace Placed

variable {low mid high : Nat} {marks marks' : List LengthMark}

lemma low_le_high (h : Placed low high marks) : low ≤ high := by
  induction marks generalizing low with
  | nil => exact h
  | cons m marks ih => exact h.1.trans (ih h.2)

lemma of_le (hle : low ≤ mid) (h : Placed mid high marks) : Placed low high marks := by
  cases marks with
  | nil => exact le_trans hle h
  | cons m marks => exact ⟨hle.trans h.1, h.2⟩

lemma append (h₁ : Placed low mid marks) (h₂ : Placed mid high marks') :
    Placed low high (marks ++ marks') := by
  induction marks generalizing low with
  | nil => exact of_le h₁ h₂
  | cons m marks ih => exact ⟨h₁.1, ih h₁.2⟩

lemma le_offset (h : Placed low high marks) : ∀ m ∈ marks, low ≤ m.offset := by
  induction marks generalizing low with
  | nil => simp
  | cons m marks ih =>
    intro m' hm'
    rcases mem_cons.mp hm' with rfl | hm'
    · exact h.1
    · exact h.1.trans (ih h.2 m' hm')

lemma offset_le (h : Placed low high marks) : ∀ m ∈ marks, m.offset ≤ high := by
  induction marks generalizing low with
  | nil => simp
  | cons m marks ih =>
    intro m' hm'
    rcases mem_cons.mp hm' with rfl | hm'
    · exact h.2.low_le_high
    · exact ih h.2 m' hm'

end Placed

/-- The mark of a block goes after all marks before the block and before those in it. -/
lemma insertMark_append {m : LengthMark} {before inside : List LengthMark} {high : Nat}
    (hbefore : ∀ n ∈ before, n.offset < m.offset) (hinside : Placed m.offset high inside) :
    insertMark m (before ++ inside) = before ++ m :: inside := by
  induction before with
  | nil =>
    cases inside with
    | nil => rfl
    | cons n inside =>
      have hnot : ¬ n.offset < m.offset := Nat.not_lt.mpr hinside.1
      simp only [nil_append, insertMark, hnot, if_false]
  | cons n before ih =>
    have hlt : n.offset < m.offset := hbefore n (by simp)
    simp only [cons_append, insertMark, hlt, if_true,
      ih fun n' hn' => hbefore n' (mem_cons_of_mem n hn')]

/-- A part of the body with its marks can be woven on its own. -/
lemma weave_append {copied high : Nat} {body more : List UInt8} {marks marks' : List LengthMark}
    (hmarks : Placed copied (copied + body.length) marks)
    (hmarks' : Placed (copied + body.length) high marks') :
    weave copied (body ++ more) (marks ++ marks') =
      weave copied body marks ++ weave (copied + body.length) more marks' := by
  induction marks generalizing copied body with
  | nil =>
    cases marks' with
    | nil => rfl
    | cons m marks' =>
      have hle := hmarks'.1
      have hskip : m.offset - copied = body.length + (m.offset - (copied + body.length)) := by omega
      simp only [nil_append, weave, hskip, take_length_add_append,
        drop_length_add_append, append_assoc]
  | cons m marks ih =>
    obtain ⟨hlow, hrest⟩ := hmarks
    have hhigh := hrest.low_le_high
    have hend : m.offset + (body.drop (m.offset - copied)).length = copied + body.length := by
      simp only [length_drop]
      omega
    have htake : m.offset - copied ≤ body.length := by omega
    simp only [cons_append, weave, take_append_of_le_length htake,
      drop_append_of_le_length htake]
    rw [ih (by rwa [hend]) (by rwa [hend]), hend]
    simp only [append_assoc]

lemma weave_length {copied : Nat} {body : List UInt8} {marks : List LengthMark}
    (hmarks : Placed copied (copied + body.length) marks) :
    (weave copied body marks).length = body.length + marksLength marks := by
  induction marks generalizing copied body with
  | nil => simp [weave, marksLength]
  | cons m marks ih =>
    obtain ⟨hlow, hrest⟩ := hmarks
    have hhigh := hrest.low_le_high
    have hend : m.offset + (body.drop (m.offset - copied)).length = copied + body.length := by
      simp only [length_drop]
      omega
    simp only [weave, length_append, ih (by rwa [hend]), length_take, length_drop,
      marksLength, map_cons, sum_cons]
    omega

namespace Writer

/-- No mark lies beyond the end of the body. -/
def Tidy (w : Writer) : Prop :=
  ∀ m ∈ w.marks, m.offset ≤ w.body.length

/-- The second writer has `bytes` more in its output than the first one, and the same open
blocks. -/
def Adds (w w' : Writer) (bytes : List UInt8) : Prop :=
  ∃ body marks, w' = ⟨w.body ++ body, w.blocks, w.marks ++ marks, w.marked + marksLength marks⟩ ∧
    Placed w.body.length (w.body.length + body.length) marks ∧
    weave w.body.length body marks = bytes

lemma Adds.tidy {w w' : Writer} {bytes : List UInt8} (h : w.Adds w' bytes) (hw : w.Tidy) :
    w'.Tidy := by
  obtain ⟨body, marks, rfl, hplaced, -⟩ := h
  intro m hm
  simp only [mem_append] at hm
  simp only [length_append]
  rcases hm with hm | hm
  · have := hw m hm
    omega
  · exact hplaced.offset_le m hm

/-- No mark lies at the end of the body, so that a block that begins there comes after all of
them. -/
def Clear (w : Writer) : Prop :=
  ∀ m ∈ w.marks, m.offset < w.body.length

lemma Clear.tidy {w : Writer} (h : w.Clear) : w.Tidy :=
  fun m hm => (h m hm).le

lemma Tidy.clear_append {w : Writer} {bytes : List UInt8} (h : w.Tidy) (hne : bytes ≠ []) :
    (w.append bytes).Clear := by
  intro m hm
  have hle := h m hm
  have hpos := length_pos_iff.mpr hne
  simp only [append, length_append]
  omega

namespace Adds

variable {w w' w'' : Writer} {bytes more : List UInt8}

protected lemma refl (w : Writer) : w.Adds w [] :=
  ⟨[], [], by simp [marksLength], Nat.le_add_right .., rfl⟩

protected lemma append (w : Writer) (bytes : List UInt8) : w.Adds (w.append bytes) bytes :=
  ⟨bytes, [], by simp [Writer.append, marksLength], Nat.le_add_right .., rfl⟩

protected lemma trans (h : w.Adds w' bytes) (h' : w'.Adds w'' more) :
    w.Adds w'' (bytes ++ more) := by
  obtain ⟨body, marks, rfl, hplaced, hweave⟩ := h
  obtain ⟨body', marks', rfl, hplaced', hweave'⟩ := h'
  simp only [length_append] at hplaced' hweave'
  refine ⟨body ++ body', marks ++ marks', by simp [marksLength, Nat.add_assoc], ?_, ?_⟩
  · rw [length_append, ← Nat.add_assoc]
    exact hplaced.append hplaced'
  · rw [weave_append hplaced hplaced', hweave, hweave']

/-- Closing a block puts the length of its content before the content, if no mark was at the place
where it began. -/
lemma close (hw : w.Clear) (h : w.openBlock.Adds w' bytes) :
    w.Adds w'.closeBlock (lengthBytes bytes.length ++ bytes) := by
  obtain ⟨body, marks, rfl, hplaced, hweave⟩ := h
  simp only [openBlock] at hplaced hweave
  have hlength : bytes.length = body.length + marksLength marks := by
    rw [← hweave, weave_length hplaced]
  let mark : LengthMark := ⟨w.body.length, lengthBytes bytes.length⟩
  have hinsert : insertMark mark (w.marks ++ marks) = w.marks ++ mark :: marks :=
    insertMark_append hw hplaced
  have hsize : (w.body ++ body).length - w.body.length +
      (w.marked + marksLength marks - w.marked) = bytes.length := by
    simp only [length_append]
    omega
  refine ⟨body, mark :: marks, ?_, ⟨Nat.le_refl _, hplaced⟩, ?_⟩
  · simp only [openBlock, closeBlock, hsize]
    rw [hinsert]
    simp [marksLength, mark]
    omega
  · simp [weave, mark, hweave]

end Adds

end Writer

/-- The writing step adds `bytes` to the output, whatever was written before. -/
def Emits (f : Writer → Writer) (bytes : List UInt8) : Prop :=
  ∀ w : Writer, w.Tidy → w.Adds (f w) bytes

namespace Emits

variable {f g : Writer → Writer} {bytes more : List UInt8}

protected lemma id : Emits (fun w => w) [] :=
  fun w _ => .refl w

protected lemma append (bytes : List UInt8) : Emits (fun w => w.append bytes) bytes :=
  fun w _ => .append w bytes

protected lemma comp (hf : Emits f bytes) (hg : Emits g more) :
    Emits (fun w => g (f w)) (bytes ++ more) := by
  intro w hw
  have hfw := hf w hw
  exact hfw.trans (hg (f w) (hfw.tidy hw))

protected lemma left_out {c : Prop} [Decidable c] (hf : Emits f bytes) :
    Emits (fun w => if c then w else f w) (if c then [] else bytes) := by
  by_cases hc : c
  · simpa only [hc, if_true] using Emits.id
  · simpa only [hc, if_false] using hf

/-- A block after a tag adds the tag, the length of its content and its content. The tag keeps the
block apart from everything written before: no mark lies at its start yet. -/
protected lemma message (tag : UInt32) (hf : Emits f bytes) :
    Emits (fun w => w.message tag f)
      (varint tag.toUInt64 ++ lengthBytes bytes.length ++ bytes) := by
  intro w hw
  have hclear : (w.uint32 tag).Clear := hw.clear_append (varint_ne_nil _)
  have hcontent := hf (w.uint32 tag).openBlock hclear.tidy
  rw [append_assoc]
  exact (Writer.Adds.append w _).trans (hcontent.close hclear)

lemma finish_eq (hf : Emits f bytes) : (f .empty).finish = bytes := by
  obtain ⟨body, marks, heq, -, hweave⟩ := hf .empty (by simp [Writer.Tidy, Writer.empty])
  rw [heq]
  simpa [Writer.finish, Writer.closeAll, Writer.empty] using hweave

end Emits

/-! ## Blocks within blocks -/

/-- Wire data by its structure: bytes as they are, and blocks that begin with their length. -/
inductive Piece where
  | raw (bytes : List UInt8)
  /-- The length of some data and the data. -/
  | block (pieces : List Piece)

namespace Piece

mutual

def bytes : Piece → List UInt8
  | .raw bytes => bytes
  | .block pieces => lengthBytes (flatten pieces).length ++ flatten pieces

def flatten : List Piece → List UInt8
  | [] => []
  | p :: ps => p.bytes ++ flatten ps

end

mutual

def blockLengths : Piece → List Nat
  | .raw _ => []
  | .block pieces => (flatten pieces).length :: lengths pieces

def lengths : List Piece → List Nat
  | [] => []
  | p :: ps => p.blockLengths ++ lengths ps

end

/-- Every block is short enough for its length to be read back. -/
def Short (pieces : List Piece) : Prop :=
  ∀ n ∈ lengths pieces, n < UInt32.size

lemma flatten_append (ps qs : List Piece) : flatten (ps ++ qs) = flatten ps ++ flatten qs := by
  induction ps with
  | nil => rfl
  | cons p ps ih => simp only [cons_append, flatten, ih, append_assoc]

lemma lengths_append (ps qs : List Piece) : lengths (ps ++ qs) = lengths ps ++ lengths qs := by
  induction ps with
  | nil => rfl
  | cons p ps ih => simp only [cons_append, lengths, ih, append_assoc]

variable {ps qs inner : List Piece}

lemma short_append : Short (ps ++ qs) ↔ Short ps ∧ Short qs := by
  simp only [Short, lengths_append, forall_mem_append]

lemma short_raw_cons {bytes : List UInt8} : Short (.raw bytes :: ps) ↔ Short ps :=
  Iff.rfl

lemma short_block_cons :
    Short (.block inner :: ps) ↔
      (flatten inner).length < UInt32.size ∧ Short inner ∧ Short ps := by
  simp only [Short, lengths, blockLengths, cons_append, forall_mem_cons,
    forall_mem_append]

mutual

theorem le_of_mem_blockLengths (p : Piece) : ∀ n ∈ p.blockLengths, n ≤ p.bytes.length := by
  cases p with
  | raw bytes => simp [blockLengths]
  | block inner =>
    intro n hn
    have hinner : n ≤ (flatten inner).length := by
      rcases mem_cons.mp hn with rfl | hn
      · exact le_refl _
      · exact le_of_mem_lengths inner n hn
    simp only [bytes, length_append]
    omega

theorem le_of_mem_lengths (ps : List Piece) : ∀ n ∈ lengths ps, n ≤ (flatten ps).length := by
  cases ps with
  | nil => simp [lengths]
  | cons p ps =>
    intro n hn
    simp only [flatten, length_append]
    rcases mem_append.mp hn with hn | hn
    · have := le_of_mem_blockLengths p n hn
      omega
    · have := le_of_mem_lengths ps n hn
      omega

end

lemma short_of_length_lt (h : (flatten ps).length < UInt32.size) : Short ps :=
  fun n hn => (le_of_mem_lengths ps n hn).trans_lt h

end Piece

namespace Emits

variable {f : Writer → Writer} {pieces : List Piece}

protected lemma raw (bytes : List UInt8) :
    Emits (fun w => w.append bytes) (Piece.flatten [.raw bytes]) := by
  simpa only [Piece.flatten, Piece.bytes, append_nil] using Emits.append bytes

protected lemma raw_cons (bytes : List UInt8) (hf : Emits f (Piece.flatten pieces)) :
    Emits (fun w => f (w.append bytes)) (Piece.flatten (.raw bytes :: pieces)) :=
  (Emits.append bytes).comp hf

protected lemma block (tag : UInt32) (hf : Emits f (Piece.flatten pieces)) :
    Emits (fun w => w.message tag f)
      (Piece.flatten [.raw (varint tag.toUInt64), .block pieces]) := by
  have h := Emits.message tag hf
  simpa only [Piece.flatten, Piece.bytes, append_nil, append_assoc] using h

protected lemma ite_id {c : Prop} [Decidable c] (hf : Emits f (Piece.flatten pieces)) :
    Emits (fun w => if c then w else f w) (Piece.flatten (if c then [] else pieces)) := by
  rw [apply_ite Piece.flatten]
  exact hf.left_out

end Emits

end Protobuf.Wire
