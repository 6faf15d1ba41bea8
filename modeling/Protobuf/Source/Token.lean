import Protobuf.Source.Ident
import Protobuf.Text.Numeral

/-!
# Tokens of the generated source

Generated source is a list of tokens; its layout carries no meaning. Templates
are written as text and cut into tokens; identifiers and string literals that
come from a schema are tokens of their own kinds, so that no text of a schema is
ever read as source.
-/

namespace Protobuf.Source

inductive Token where
  /-- A word, number or mark of a template. -/
  | plain (text : String)
  /-- An identifier made from a schema name. -/
  | ident (i : Ident)
  | literal (text : String)
  deriving DecidableEq

abbrev Code := List Token

def literalChar (c : Char) : List Char :=
  if c = '\\' || c = '"' then ['\\', c]
  else if c = '\t' then ['\\', 't']
  else [c]

def Token.text : Token → String
  | .plain s => s
  | .ident i => i.text
  | .literal s => String.ofList ('"' :: s.toList.flatMap literalChar ++ ['"'])

def isWordChar (c : Char) : Bool :=
  ('a' ≤ c && c ≤ 'z') || ('A' ≤ c && c ≤ 'Z') || ('0' ≤ c && c ≤ '9') || c == '_'

/-- Two characters that make one mark. -/
def isDouble (a b : Char) : Bool :=
  [(':', ':'), ('-', '>'), ('=', '>'), ('=', '='), ('!', '='), ('>', '>'), ('&', '&')].contains
    (a, b)

/-- Cut a template into tokens, at most `fuel` of them. The braces of the source are written `⦃`
and `⦄` in a template. -/
def lexFrom (fuel : Nat) (cs : List Char) : Code :=
  match fuel with
  | 0 => []
  | fuel + 1 =>
    match cs with
    | [] => []
    | ' ' :: rest => lexFrom fuel rest
    | '⦃' :: rest => .plain "\x7b" :: lexFrom fuel rest
    | '⦄' :: rest => .plain "\x7d" :: lexFrom fuel rest
    | '\'' :: rest =>
      .plain (String.ofList ('\'' :: rest.takeWhile isWordChar)) ::
        lexFrom fuel (rest.dropWhile isWordChar)
    | c :: rest =>
      if isWordChar c then
        .plain (String.ofList (cs.takeWhile isWordChar)) :: lexFrom fuel (cs.dropWhile isWordChar)
      else
        match rest with
        | d :: tail =>
          if isDouble c d then .plain (String.ofList [c, d]) :: lexFrom fuel tail
          else .plain (String.ofList [c]) :: lexFrom fuel rest
        | [] => [.plain (String.ofList [c])]

def code (template : String) : Code :=
  let cs := template.toList
  lexFrom cs.length cs

/-- Put stretches of source in the places of the holes of a template, in turn. -/
def fillHoles : Code → List Code → Code
  | .plain "$" :: rest, part :: parts => part ++ fillHoles rest parts
  | t :: rest, parts => t :: fillHoles rest parts
  | [], _ => []

/-- The tokens of a template whose holes, marked `$`, are filled in turn. -/
def fill (template : String) (parts : List Code) : Code :=
  fillHoles (code template) parts

def word (text : String) : Code := [.plain text]

def name (i : Ident) : Code := [.ident i]

def quote (s : String) : Code := [.literal s]

def natural (n : Nat) : Code := [.plain (Text.natText n)]

def integer (n : Int) : Code :=
  if n < 0 then .plain "-" :: natural n.natAbs else natural n.natAbs

def docLine (line : String) : Code := fill "#[doc = $]" [quote line]

/-- Marks before which a comma is left out. -/
def closes (t : Token) : Bool :=
  [Token.plain ")", .plain "]", .plain "\x7d", .plain ">", .plain "\x7b"].contains t

/-- Leave out commas that nothing follows. -/
def dropCommas : Code → Code
  | .plain "," :: t :: rest =>
    if closes t then dropCommas (t :: rest) else .plain "," :: dropCommas (t :: rest)
  | t :: rest => t :: dropCommas rest
  | [] => []

def render (c : Code) : String :=
  " ".intercalate ((dropCommas c).map Token.text)

/-- Source as text without spaces, for types and values. -/
def renderTight (c : Code) : String :=
  String.join ((dropCommas c).map Token.text)

/-- Whether a template word or an identifier of the source is the given name. -/
def mentions (c : Code) (word : String) : Bool :=
  c.any fun
    | .plain s => s == word
    | .ident i => i.text == word
    | .literal _ => false

/-- Whether an identifier of the source is the lone underscore, which is no name. -/
def hasWildcard (c : Code) : Bool :=
  c.any fun
    | .ident i => i.isWildcard
    | _ => false

end Protobuf.Source
