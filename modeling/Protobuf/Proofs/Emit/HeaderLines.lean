import Mathlib
import Protobuf.Emit.Module

/-!
# The lines of a header

No line of a comment holds a line break or a control other than the tab, whatever text it
was made from. The path of a schema file is put into the header as it is, so that what
follows a line feed in it stands on a line of its own.
-/

open List

namespace Protobuf.Schema

/-- What stands between two separators holds none, and nothing that the text does not hold. -/
lemma mem_of_mem_splitOn {x : Char} {cs part : List Char} (h : part ∈ cs.splitOn x) :
    ∀ c ∈ part, c ∈ cs ∧ c ≠ x := by
  induction cs generalizing part with
  | nil => simp_all
  | cons d cs ih =>
    obtain ⟨first, rest, hcs⟩ := exists_cons_of_ne_nil (splitOn_ne_nil x cs)
    rw [splitOn_cons_eq_if_modifyHead, hcs, modifyHead_cons] at h
    rw [hcs] at ih
    grind

def HasNoBreak (line : String) : Prop :=
  ∀ c ∈ line.toList, isControl c = true → c = '\t'

lemma commentLines_hasNoBreak (text : String) : ∀ line ∈ commentLines text, HasNoBreak line := by
  intro line hline c hc hcontrol
  rw [commentLines] at hline
  split_ifs at hline
  · cases hline
  · obtain ⟨part, hpart, rfl⟩ := mem_map.mp hline
    rw [String.toList_ofList, Text.trimEndChars, mem_reverse] at hc
    have hmem := mem_reverse.mp ((dropWhile_sublist _).mem hc)
    obtain ⟨hbody, hfeed⟩ := mem_of_mem_splitOn hpart c hmem
    rw [stripLineFeeds, mem_reverse] at hbody
    have hclean := (dropWhile_sublist _).mem
      (mem_reverse.mp ((dropWhile_sublist _).mem hbody))
    simpa [cleanChars, hcontrol, hfeed] using (mem_filter.mp hclean).2

lemma Comments.lines_hasNoBreak (comments : Comments) (path : SourcePath) :
    ∀ line ∈ comments.lines path, HasNoBreak line := by
  have hlines (text : Option String) :
      ∀ line ∈ (text.map commentLines).getD [], HasNoBreak line := by
    cases text with
    | none => simp
    | some text =>
      rw [Option.map_some, Option.getD_some]
      exact commentLines_hasNoBreak text
  rw [Comments.lines]
  split
  · exact forall_mem_nil _
  · rw [joinLines]
    split_ifs
    · exact forall_mem_append.mpr ⟨hlines _, hlines _⟩
    · exact forall_mem_append.mpr
        ⟨hlines _, forall_mem_cons.mpr ⟨by simp [HasNoBreak], hlines _⟩⟩

end Protobuf.Schema

namespace Protobuf.Emit

open Protobuf.Schema

def IsCommentLine (line : List Char) : Prop :=
  line = [] ∨ "//".toList <+: line

def linesOf (text : String) : List (List Char) :=
  text.toList.splitOn '\n'

def IsComments (text : String) : Prop :=
  ∀ line ∈ linesOf text, IsCommentLine line

lemma linesOf_join (lines : List String) (rest : String) :
    linesOf (String.join (lines.map (· ++ "\n")) ++ rest) =
      lines.flatMap linesOf ++ linesOf rest := by
  induction lines with
  | nil => simp [linesOf, String.join]
  | cons line lines ih =>
    have hjoin : String.join ((line :: lines).map (· ++ "\n")) ++ rest =
        line ++ "\n" ++ (String.join (lines.map (· ++ "\n")) ++ rest) := by
      simp [String.join_cons, String.append_assoc]
    rw [hjoin, flatMap_cons, append_assoc, ← ih]
    simp only [linesOf, String.toList_append]
    rw [show "\n".toList = ['\n'] by decide, append_assoc, singleton_append,
      splitOn_append_cons_self]

lemma isComments_of_prefix {text : String} (hstart : "//".toList <+: text.toList)
    (hfeed : '\n' ∉ text.toList) : IsComments text := by
  rw [IsComments, linesOf, splitOn_eq_singleton hfeed]
  exact forall_mem_singleton.mpr (.inr hstart)

lemma isComments_headerLine {line : String} (h : HasNoBreak line) :
    IsComments (headerLine line) := by
  rw [headerLine]
  split_ifs
  · exact isComments_of_prefix prefix_rfl (by decide)
  · refine isComments_of_prefix ?_ ?_
    · rw [String.toList_append]
      exact (show "//".toList <+: "// ".toList by decide).trans (prefix_append ..)
    · rw [String.toList_append, mem_append, not_or]
      refine ⟨by decide, fun hmem => ?_⟩
      rw [String.toList_ofList] at hmem
      exact absurd (h '\n' ((dropWhile_sublist _).mem hmem) rfl) (by decide)

def sourceLine (f : File) : String :=
  "// source: " ++ f.path ++ " (" ++ f.dialect.name ++ ")"

/-- No line of a comment has a line break or a control other than the tab. A header has comments
only exactly if the line that says where the file comes from does, with the path of the schema file
in it, and so it has if the path holds no line feed. -/
theorem header_comments_iff (f : File) :
    (∀ path, ∀ line ∈ f.comments.lines path, HasNoBreak line) ∧
    (IsComments (header f) ↔ IsComments (sourceLine f)) ∧
    ('\n' ∉ f.path.toList → IsComments (header f)) := by
  have hcomments : ∀ line ∈ ((f.comments.lines dialectPath).map headerLine).flatMap linesOf,
      IsCommentLine line := by
    refine forall_mem_flatMap.mpr (forall_mem_map.mpr fun comment hcomment => ?_)
    exact isComments_headerLine (f.comments.lines_hasNoBreak dialectPath comment hcomment)
  have hiff : IsComments (header f) ↔ IsComments (sourceLine f) := by
    have hmark : IsComments "// @generated by protoforge-build. DO NOT EDIT." :=
      isComments_of_prefix (by decide) (by decide)
    have hend : ∀ line ∈ linesOf "\n", IsCommentLine line := by
      rw [show linesOf "\n" = [[], []] by decide]
      simp [IsCommentLine]
    unfold IsComments at hmark ⊢
    rw [sourceLine, header, linesOf_join, flatMap_cons, flatMap_cons, forall_mem_append,
      forall_mem_append, forall_mem_append]
    exact ⟨fun h => h.1.2.1, fun h => ⟨⟨hmark, h, hcomments⟩, hend⟩⟩
  refine ⟨f.comments.lines_hasNoBreak, hiff, fun hpath => hiff.mpr ?_⟩
  have hdialect : '\n' ∉ f.dialect.name.toList := by cases f.dialect <;> decide
  refine isComments_of_prefix ?_ (by simp [sourceLine, hpath, hdialect])
  have hmark : "//".toList <+: "// source: ".toList := by decide
  simp only [sourceLine, String.toList_append, append_assoc]
  exact hmark.trans (prefix_append ..)

/-- The path of a schema file that ends the comment it is put into. -/
theorem header_escapes :
    linesOf (header ⟨"a\n#![allow(unused)]//", "", .proto3, [], [], [], [], .empty⟩) =
      ["// @generated by protoforge-build. DO NOT EDIT.".toList, "// source: a".toList,
        "#![allow(unused)]// (proto3)".toList, [], []] := by
  decide

end Protobuf.Emit
