import Protobuf.Schema.Descriptor
import Protobuf.Text.Blank

/-!
# Comments of a schema

Comments are looked up by the place they stand at. Their text is cleaned before
it is used: line endings become line feeds and other controls than the tab
disappear, so no line of a comment contains a line break.
-/

namespace Protobuf.Schema

/-- A place in a file: field numbers of the descriptor and indices in turn. -/
abbrev SourcePath := List Int

structure Comments where
  /-- Places that have a comment, latest first. -/
  locations : List Descriptor.Location
  deriving DecidableEq

def Comments.empty : Comments := ⟨[]⟩

/-- The comments of some locations. Of two at one place the later one counts; a location without
a comment does not. -/
def Comments.ofLocations (locations : List Descriptor.Location) : Comments :=
  ⟨(locations.filter fun l => l.leading.isSome || l.trailing.isSome).reverse⟩

/-- Line endings as line feeds: a carriage return, with a line feed after it or not, is one. -/
def unifyLineEnds : List Char → List Char
  | '\r' :: '\n' :: cs => '\n' :: unifyLineEnds cs
  | '\r' :: cs => '\n' :: unifyLineEnds cs
  | c :: cs => c :: unifyLineEnds cs
  | [] => []

def isControl (c : Char) : Bool :=
  c.toNat < 0x20 || (0x7F ≤ c.toNat && c.toNat ≤ 0x9F)

/-- Text with line feeds and tabs as its only controls. -/
def cleanChars (cs : List Char) : List Char :=
  (unifyLineEnds cs).filter fun c => !isControl c || c == '\n' || c == '\t'

def clean (s : String) : String :=
  String.ofList (cleanChars s.toList)

def stripLineFeeds (cs : List Char) : List Char :=
  ((cs.dropWhile (· == '\n')).reverse.dropWhile (· == '\n')).reverse

/-- The lines of one comment, without blanks at their ends. A comment of blanks has none. -/
def commentLines (text : String) : List String :=
  let body := stripLineFeeds (cleanChars text.toList)
  if (Text.trimChars body).isEmpty then []
  else (body.splitOn '\n').map fun line => String.ofList (Text.trimEndChars line)

/-- Two groups of lines with an empty line between them. -/
def joinLines (first second : List String) : List String :=
  if first.isEmpty || second.isEmpty then first ++ second else first ++ "" :: second

/-- The lines of the comments at a place: the one before it, then the one after it. -/
def Comments.lines (c : Comments) (path : SourcePath) : List String :=
  match c.locations.find? fun l => l.path == path with
  | none => []
  | some l =>
    joinLines ((l.leading.map commentLines).getD []) ((l.trailing.map commentLines).getD [])

/-- A line as documentation shows it: with a space in front, unless it is empty or has one. -/
def docText (line : String) : String :=
  match line.toList with
  | [] => line
  | ' ' :: _ => line
  | _ => " " ++ line

end Protobuf.Schema
