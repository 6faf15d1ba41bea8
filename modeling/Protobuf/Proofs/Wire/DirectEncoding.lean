import Protobuf.Proofs.Wire.Marks
import Protobuf.Proofs.Wire.Scalars

/-!
# Deferred lengths and the direct encoding

A client writes values and opens and closes blocks, in any order. The direct
encoding of its calls puts the length of every block where the block begins. The
writer notes the lengths when blocks close and puts them in place at the end, by
their offsets; at one offset the block closed last comes first. That is right for
blocks within each other, and wrong for a block that follows a block without
content. The two encodings are equal exactly if, at every offset, the lengths of
the blocks are the same from the first opened on as from the last closed on.
-/

open Protobuf.Wire.Piece

namespace Protobuf.Wire

open List

/-- A call of a client of the writer. -/
inductive Call where
  /-- Write a value of a scalar type. -/
  | write (t : Scalar) (p : Primitive) (holds : t.holds p = true)
  | openBlock
  | closeBlock

namespace Call

def run (w : Writer) : Call → Writer
  | write t p _ => t.write p w
  | openBlock => w.openBlock
  | closeBlock => w.closeBlock

end Call

def Writer.run (w : Writer) (calls : List Call) : Writer :=
  calls.foldl Call.run w

/-! ## The direct encoding -/

/-- The structure of what was written, while some blocks are still open. -/
structure Outline where
  /-- The content of the innermost open block so far, or of no block. -/
  inner : List Piece
  /-- What precedes each open block in the block around it, innermost first. -/
  outer : List (List Piece)

namespace Outline

def empty : Outline := ⟨[], []⟩

/-- Close the innermost block, which becomes a piece of the block around it. -/
def closeBlock : Outline → Outline
  | ⟨inner, []⟩ => ⟨inner, []⟩
  | ⟨inner, before :: outer⟩ => ⟨before ++ [.block inner], outer⟩

def step (o : Outline) : Call → Outline
  | .write t p _ => { o with inner := o.inner ++ [.raw (Piece.flatten (t.pieces p))] }
  | .openBlock => ⟨[], o.inner :: o.outer⟩
  | .closeBlock => o.closeBlock

/-- All pieces, when the open blocks are closed from the innermost on. -/
def close (inner : List Piece) : List (List Piece) → List Piece
  | [] => inner
  | before :: outer => close (before ++ [.block inner]) outer

end Outline

/-- The values and blocks of some calls. Blocks that are left open end with the calls. -/
def layout (calls : List Call) : List Piece :=
  let o := calls.foldl Outline.step .empty
  Outline.close o.inner o.outer

/-- The direct encoding of some calls: values in their order, and every block after its length. -/
def directEncoding (calls : List Call) : List UInt8 :=
  Piece.flatten (layout calls)

/-! ## Bodies and lengths -/

namespace Piece

mutual

/-- The bytes of a piece without the lengths of its blocks. -/
def body : Piece → List UInt8
  | .raw bytes => bytes
  | .block pieces => bodies pieces

/-- The bytes of pieces in a row without the lengths of their blocks. -/
def bodies : List Piece → List UInt8
  | [] => []
  | p :: ps => p.body ++ bodies ps

end

mutual

/-- The marks of the blocks in a piece at an offset. The mark of a block is placed among the marks
of the blocks in it. -/
def marksOf (place : LengthMark → List LengthMark → List LengthMark) (offset : Nat) :
    Piece → List LengthMark
  | .raw _ => []
  | .block pieces =>
    place ⟨offset, lengthBytes (flatten pieces).length⟩ (marksOfAll place offset pieces)

def marksOfAll (place : LengthMark → List LengthMark → List LengthMark) (offset : Nat) :
    List Piece → List LengthMark
  | [] => []
  | p :: ps => p.marksOf place offset ++ marksOfAll place (offset + p.body.length) ps

end

/-- The marks in the order in which the blocks are opened: a block before the blocks in it. -/
def opened (offset : Nat) (pieces : List Piece) : List LengthMark :=
  marksOfAll List.cons offset pieces

/-- The marks in the order in which the blocks are closed: a block after the blocks in it. -/
def closed (offset : Nat) (pieces : List Piece) : List LengthMark :=
  marksOfAll (fun m marks => marks ++ [m]) offset pieces

lemma bodies_append (ps qs : List Piece) : bodies (ps ++ qs) = bodies ps ++ bodies qs := by
  induction ps with
  | nil => rfl
  | cons p ps ih => simp only [cons_append, bodies, ih, append_assoc]

variable (offset : Nat)

lemma closed_append (ps qs : List Piece) :
    closed offset (ps ++ qs) = closed offset ps ++ closed (offset + (bodies ps).length) qs := by
  induction ps generalizing offset with
  | nil => rfl
  | cons p ps ih =>
    simp only [closed] at ih
    simp only [closed, cons_append, marksOfAll, bodies, ih, length_append,
      append_assoc, Nat.add_assoc]

lemma closed_raw (bytes : List UInt8) : closed offset [.raw bytes] = [] := rfl

lemma closed_block (ps : List Piece) :
    closed offset [.block ps] =
      closed offset ps ++ [⟨offset, lengthBytes (flatten ps).length⟩] := by
  simp only [closed, marksOfAll, marksOf, append_nil]

mutual

private theorem marksOf_perm (offset : Nat) : ∀ p : Piece,
    (p.marksOf (fun m marks => marks ++ [m]) offset).Perm (p.marksOf cons offset)
  | .raw _ => .refl _
  | .block ps => (perm_append_singleton _ _).trans ((marksOfAll_perm offset ps).cons _)

private theorem marksOfAll_perm (offset : Nat) : ∀ ps : List Piece,
    (marksOfAll (fun m marks => marks ++ [m]) offset ps).Perm (marksOfAll cons offset ps)
  | [] => .refl _
  | p :: ps => (marksOf_perm offset p).append (marksOfAll_perm _ ps)

end

lemma closed_perm_opened (ps : List Piece) : (closed offset ps).Perm (opened offset ps) :=
  marksOfAll_perm offset ps

mutual

private theorem placed_marksOf (offset : Nat) : ∀ p : Piece,
    Placed offset (offset + p.body.length) (p.marksOf cons offset)
  | .raw _ => Nat.le_add_right ..
  | .block ps => ⟨Nat.le_refl _, placed_opened offset ps⟩

theorem placed_opened (offset : Nat) : ∀ ps : List Piece,
    Placed offset (offset + (bodies ps).length) (opened offset ps)
  | [] => Nat.le_refl _
  | p :: ps => by
    have hps := placed_opened (offset + p.body.length) ps
    rw [bodies, length_append, ← Nat.add_assoc]
    exact (placed_marksOf offset p).append hps

end

mutual

private theorem weave_marksOf (offset : Nat) : ∀ p : Piece,
    weave offset p.body (p.marksOf cons offset) = p.bytes
  | .raw _ => rfl
  | .block ps => by
    have hps := weave_opened offset ps
    rw [opened] at hps
    simp only [marksOf, body, bytes, weave, Nat.sub_self, take_zero, drop_zero,
      nil_append, hps]

theorem weave_opened (offset : Nat) : ∀ ps : List Piece,
    weave offset (bodies ps) (opened offset ps) = flatten ps
  | [] => rfl
  | p :: ps => by
    have hps := weave_opened (offset + p.body.length) ps
    rw [bodies, flatten, ← hps, ← weave_marksOf offset p]
    exact weave_append (placed_marksOf offset p) (placed_opened _ ps)

end

mutual

private theorem exists_length_marksOf (offset : Nat) : ∀ p : Piece,
    ∀ m ∈ p.marksOf cons offset, ∃ n, m.bytes = lengthBytes n
  | .raw _ => by simp [marksOf]
  | .block ps => by
    intro m hm
    rcases mem_cons.mp hm with rfl | hm
    · exact ⟨_, rfl⟩
    · exact exists_length_opened offset ps m hm

/-- Every mark holds a length. -/
theorem exists_length_opened (offset : Nat) : ∀ ps : List Piece,
    ∀ m ∈ opened offset ps, ∃ n, m.bytes = lengthBytes n
  | [] => by simp [opened, marksOfAll]
  | p :: ps => by
    intro m hm
    rcases mem_append.mp hm with hm | hm
    · exact exists_length_marksOf offset p m hm
    · exact exists_length_opened _ ps m hm

end

/-- The length of a block counts its body and the lengths of the blocks in it. -/
lemma length_flatten (ps : List Piece) :
    (flatten ps).length = (bodies ps).length + marksLength (closed offset ps) := by
  have hsum : marksLength (closed offset ps) = marksLength (opened offset ps) :=
    ((closed_perm_opened offset ps).map _).sum_eq
  rw [hsum, ← weave_length (placed_opened offset ps), weave_opened]

end Piece

/-! ## The writer along its calls -/

namespace Writer

/-- The writer after pieces were written in a row, their blocks opened and closed. -/
def writePieces (w : Writer) (ps : List Piece) : Writer :=
  let marks := Piece.closed w.body.length ps
  ⟨w.body ++ Piece.bodies ps, w.blocks, insertMarks marks w.marks, w.marked + marksLength marks⟩

variable (w : Writer)

lemma writePieces_nil : w.writePieces [] = w := by
  simp [writePieces, bodies, closed, marksOfAll, insertMarks, marksLength]

lemma writePieces_append (ps qs : List Piece) :
    w.writePieces (ps ++ qs) = (w.writePieces ps).writePieces qs := by
  simp only [writePieces, bodies_append, closed_append, insertMarks_append,
    marksLength_append, append_assoc, length_append, Nat.add_assoc]

lemma append_eq_writePieces (bytes : List UInt8) : w.append bytes = w.writePieces [.raw bytes] := by
  simp [writePieces, append, Piece.bodies, Piece.body, Piece.closed_raw, insertMarks, marksLength]

/-- Closing a block makes one piece of what was written since it was opened. -/
lemma closeBlock_writePieces (ps : List Piece) :
    (w.openBlock.writePieces ps).closeBlock = w.writePieces [.block ps] := by
  have hlength : (w.body ++ bodies ps).length - w.body.length +
      (w.marked + marksLength (closed w.body.length ps) - w.marked) =
        (flatten ps).length := by
    rw [length_flatten w.body.length, length_append]
    omega
  simp only [openBlock, writePieces, closeBlock, hlength, closed_block, bodies,
    append_nil, insertMarks_append, marksLength_append, Nat.add_assoc]
  rfl

end Writer

namespace Outline

def writer (inner : List Piece) : List (List Piece) → Writer
  | [] => Writer.empty.writePieces inner
  | before :: outer => (writer before outer).openBlock.writePieces inner

variable {inner : List Piece} {outer : List (List Piece)}

lemma writePieces_writer (ps : List Piece) :
    (writer inner outer).writePieces ps = writer (inner ++ ps) outer := by
  cases outer <;> simp only [writer, Writer.writePieces_append]

lemma closeBlock_writer {before : List Piece} :
    (writer inner (before :: outer)).closeBlock = writer (before ++ [.block inner]) outer := by
  rw [writer, Writer.closeBlock_writePieces, writePieces_writer]

lemma blocks_writer : (writer inner outer).blocks.length = outer.length := by
  induction outer generalizing inner with
  | nil => rfl
  | cons before outer ih => exact congrArg (· + 1) ih

lemma run_writer (o : Outline) (c : Call) :
    c.run (writer o.inner o.outer) = writer (o.step c).inner (o.step c).outer := by
  obtain ⟨inner, outer⟩ := o
  cases c with
  | write t p hp =>
    rw [Call.run, Scalar.write_eq_append, Writer.append_eq_writePieces, writePieces_writer]
    rfl
  | openBlock => exact (Writer.writePieces_nil _).symm
  | closeBlock =>
    cases outer with
    | nil => rfl
    | cons before outer => exact closeBlock_writer

lemma foldl_writer (calls : List Call) (o : Outline) :
    (writer o.inner o.outer).run calls =
      writer (calls.foldl step o).inner (calls.foldl step o).outer := by
  induction calls generalizing o with
  | nil => rfl
  | cons c calls ih =>
    rw [Writer.run, foldl_cons, run_writer]
    exact ih (o.step c)

lemma closeAll_writer :
    Writer.closeAll outer.length (writer inner outer) =
      Writer.empty.writePieces (close inner outer) := by
  induction outer generalizing inner with
  | nil => rfl
  | cons before outer ih =>
    rw [length_cons, Writer.closeAll, closeBlock_writer, ih, close]

end Outline

/-- The writer puts in place the lengths of all blocks, from those closed first on. -/
lemma finish_run (calls : List Call) :
    (Writer.empty.run calls).finish =
      weave 0 (Piece.bodies (layout calls)) (insertMarks (Piece.closed 0 (layout calls)) []) := by
  have hempty : Writer.empty = Outline.writer Outline.empty.inner Outline.empty.outer :=
    (Writer.writePieces_nil _).symm
  rw [hempty, Outline.foldl_writer, Writer.finish, Outline.blocks_writer, Outline.closeAll_writer]
  rfl

/-- At every offset the lengths of the blocks are the same from the first opened on as from the
last closed on. -/
def LengthsInOrder (calls : List Call) : Prop :=
  ∀ m ∈ Piece.opened 0 (layout calls),
    (Piece.closed 0 (layout calls)).reverse.filter (·.offset = m.offset) =
      (Piece.opened 0 (layout calls)).filter (·.offset = m.offset)

instance (calls : List Call) : Decidable (LengthsInOrder calls) :=
  inferInstanceAs (Decidable (∀ m ∈ Piece.opened 0 (layout calls), _))

lemma insertMarks_closed_perm (ps : List Piece) :
    (insertMarks (Piece.closed 0 ps) []).Perm (Piece.opened 0 ps) := by
  have hperm := insertMarks_perm (closed 0 ps) []
  rw [append_nil] at hperm
  exact hperm.trans (closed_perm_opened 0 ps)

/-- The order of the marks can only be wrong among marks at one offset. -/
lemma offsets_insertMarks_closed (ps : List Piece) :
    (insertMarks (Piece.closed 0 ps) []).map (·.offset) =
      (Piece.opened 0 ps).map (·.offset) :=
  ByOffset.offsets_eq (.insertMarks .nil _) (placed_opened 0 ps).byOffset
    (insertMarks_closed_perm ps)

lemma lengthsInOrder_iff (calls : List Call) :
    LengthsInOrder calls ↔
      insertMarks (Piece.closed 0 (layout calls)) [] = Piece.opened 0 (layout calls) := by
  have hfilter (offset : Nat) := filter_insertMarks (closed 0 (layout calls)) [] offset
  simp only [filter_nil, append_nil] at hfilter
  constructor
  · intro h
    apply eq_of_filter_eq (offsets_insertMarks_closed _)
    intro offset
    by_cases hoffset : ∃ m ∈ opened 0 (layout calls), m.offset = offset
    · obtain ⟨m, hm, rfl⟩ := hoffset
      rw [hfilter]
      exact h m hm
    · have hnone : (opened 0 (layout calls)).filter (·.offset = offset) = [] := by
        simpa using hoffset
      have hperm := (insertMarks_closed_perm (layout calls)).filter (·.offset = offset)
      rw [hnone] at hperm ⊢
      exact hperm.eq_nil
  · intro h m _
    rw [← hfilter, h]

/-- The writer gives the direct encoding of some calls exactly if the lengths at every offset are
in order. Closing without an open block does nothing, and blocks left open are closed at the end. -/
theorem finish_eq_directEncoding_iff (calls : List Call) :
    (Writer.empty.run calls).finish = directEncoding calls ↔ LengthsInOrder calls := by
  rw [finish_run, directEncoding, ← Piece.weave_opened 0, lengthsInOrder_iff]
  constructor
  · intro h
    have hlengths := Piece.exists_length_opened 0 (layout calls)
    refine weave_injective (offsets_insertMarks_closed _) (fun m hm => hlengths m ?_) hlengths h
    exact (insertMarks_closed_perm _).mem_iff.mp hm
  · intro h
    rw [h]

/-- Nested blocks at one offset, a sibling after a value, and two blocks that stay open. -/
example : LengthsInOrder
    [.closeBlock, .openBlock, .openBlock, .closeBlock, .write .uint32 (.uint32 7) rfl,
      .closeBlock, .write .bool (.bool true) rfl, .openBlock, .openBlock,
      .write .string (.string "a") rfl] := by
  decide

/-- A block without content and a block right after it, in which one value is written: the writer
puts the length of the second block before that of the first. -/
theorem finish_ne_directEncoding :
    (Writer.empty.run
        [.openBlock, .closeBlock, .openBlock, .write .uint32 (.uint32 1) rfl, .closeBlock]).finish =
        [1, 0, 1] ∧
      directEncoding
        [.openBlock, .closeBlock, .openBlock, .write .uint32 (.uint32 1) rfl, .closeBlock] =
        [0, 1, 1] := by
  decide

end Protobuf.Wire
