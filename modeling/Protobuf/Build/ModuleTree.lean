import Protobuf.Naming

/-!
# The tree of generated modules

Generated files are nested by the parts of their paths. One more file declares
the modules and includes the generated files in them, so that a path from one
module to another found by counting parts leads there.
-/

namespace Protobuf.Build

/-- A module: the file that it includes, and the modules in it by name. -/
inductive ModuleTree where
  | node (included : Option String) (children : List (String × ModuleTree))

/-- How included files are named. -/
inductive IncludeBase where
  /-- By the variable of the environment that names the output directory. -/
  | environment
  /-- By the absolute path of the output directory. -/
  | directory (path : String)
  deriving DecidableEq

def IncludeBase.expression (base : IncludeBase) (file : String) : String :=
  match base with
  | environment => "concat!(env!(\"OUT_DIR\"), \"/" ++ file ++ "\")"
  | directory path => Text.quoted (path ++ "/" ++ file)

namespace ModuleTree

def empty : ModuleTree := .node none []

/-- Change the child with a name, which is made if it is missing. Children are in the order of
their names. -/
def modifyChild (name : String) (f : ModuleTree → ModuleTree) :
    List (String × ModuleTree) → List (String × ModuleTree)
  | [] => [(name, f empty)]
  | (n, t) :: children =>
    if name < n then (name, f empty) :: (n, t) :: children
    else if name = n then (n, f t) :: children
    else (n, t) :: modifyChild name f children

def insert (file : String) : List String → ModuleTree → ModuleTree
  | [], .node _ children => .node (some file) children
  | part :: parts, .node included children =>
    .node included (modifyChild part (insert file parts) children)

/-- The path of the module of a generated file; empty for files that are none. -/
def segments (file : String) : List String :=
  match Naming.withoutEnding? ".rs" file with
  | none => []
  | some stem =>
    ((stem.toList.splitOn '/').filter fun part => !part.isEmpty).map String.ofList

def insertFile (t : ModuleTree) (file : String) : ModuleTree :=
  match segments file with
  | [] => t
  | parts => t.insert file parts

def ofFiles (files : List String) : ModuleTree :=
  files.foldl insertFile empty

/-- Four spaces for each level. -/
def indent (depth : Nat) : String :=
  String.ofList (List.replicate (4 * depth) ' ')

mutual

def lines (base : IncludeBase) (depth : Nat) : ModuleTree → List String
  | .node _ children => childrenLines base depth children

def childrenLines (base : IncludeBase) (depth : Nat) :
    List (String × ModuleTree) → List String
  | [] => []
  | (name, .node included children) :: rest =>
    let own :=
      match included with
      | some file => [indent (depth + 1) ++ "include!(" ++ base.expression file ++ ");"]
      | none => []
    (indent depth ++ "pub mod " ++ name ++ " \x7b") ::
      (own ++ childrenLines base (depth + 1) children ++ [indent depth ++ "\x7d"]) ++
      childrenLines base depth rest

end

def render (base : IncludeBase) (files : List String) : String :=
  String.join <|
    ("// @generated by protoforge-build" :: (ofFiles files).lines base 0).map (· ++ "\n")

end ModuleTree

end Protobuf.Build
