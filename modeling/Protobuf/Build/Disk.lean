import Protobuf.Schema.Error

/-!
# Files and directories

The part of a file system that compiling reads and writes: files with contents,
and directories. A path is the list of its parts.
-/

namespace Protobuf.Build

abbrev Path := List String

def pathText (p : Path) : String :=
  "/".intercalate p

def nameParts (name : String) : List String :=
  (name.toList.splitOn '/').map String.ofList

/-- The path that a relative name stands for if it does not climb. -/
def pathOf (name : String) : Path :=
  (nameParts name).filter fun part => !part.isEmpty && part != "."

def enter (here : Path) (part : String) : Path :=
  if part.isEmpty || part == "." then here
  else if part == ".." then here.dropLast
  else here ++ [part]

/-- Where a name is looked up that is given in a directory: one that starts with a slash does not
depend on the directory. -/
def startOf (directory : Path) (name : String) : Path :=
  if name.toList.head? = some '/' then [] else directory

def resolve (directory : Path) (name : String) : Path :=
  (nameParts name).foldl enter (startOf directory name)

/-- Files and directories. -/
structure Disk where
  /-- Files with their contents, each path once. -/
  files : List (Path × String)
  directories : List Path
  deriving DecidableEq

namespace Disk

def read? (d : Disk) (p : Path) : Option String :=
  d.files.lookup p

def isFile (d : Disk) (p : Path) : Bool :=
  (d.read? p).isSome

/-- Whether a directory exists: the root, one that was made, or one around another one or around a
file. -/
def isDirectory (d : Disk) (p : Path) : Bool :=
  p.isEmpty || d.directories.any p.isPrefixOf ||
    d.files.any fun f => p.isPrefixOf f.1 && p != f.1

def leadsToFile (d : Disk) (p : Path) : Bool :=
  (List.range (p.length + 1)).any fun n => d.isFile (p.take n)

/-- Put a content under a path; an earlier one is replaced. -/
def put (p : Path) (content : String) : List (Path × String) → List (Path × String)
  | [] => [(p, content)]
  | f :: files => if f.1 = p then (p, content) :: files else f :: put p content files

def makeDirectory (d : Disk) (p : Path) : Except FileFault Disk :=
  if d.isFile p then .error .isFile
  else if d.leadsToFile p then .error .notDirectory
  else .ok { d with directories := d.directories ++ [p] }

/-- Write a file into a directory that exists. -/
def write (d : Disk) (p : Path) (content : String) : Except FileFault Disk :=
  if d.isDirectory p then .error .isDirectory
  else if d.isDirectory p.dropLast then .ok { d with files := put p content d.files }
  else if d.leadsToFile p.dropLast then .error .notDirectory
  else .error .notFound

/-- Write a file, making the directories around it. -/
def writeDeep (d : Disk) (p : Path) (content : String) : Except FileFault Disk := do
  (← d.makeDirectory p.dropLast).write p content

/-- Follow the parts of a name to the path of a file, through directories that exist. -/
def locate (d : Disk) : (here : Path) → List String → Except FileFault Path
  | here, [] => .ok here
  | here, part :: parts =>
    if parts.all String.isEmpty then
      -- A name that ends in a slash or in dots is not that of a file.
      if !parts.isEmpty || part.isEmpty || part == "." || part == ".." then .error .isDirectory
      else .ok (enter here part)
    else if d.isDirectory (enter here part) then d.locate (enter here part) parts
    else if d.leadsToFile (enter here part) then .error .notDirectory
    else .error .notFound

def writeNamed (d : Disk) (directory : Path) (name content : String) : Except FileFault Disk := do
  d.write (← d.locate (startOf directory name) (nameParts name)) content

/-- What follows the last dot of a file name that has something before that dot. -/
def extension? (name : String) : Option String :=
  let tail := name.toList.reverse.takeWhile (· ≠ '.')
  let stem := name.toList.reverse.drop (tail.length + 1)
  if stem.isEmpty then none else some (String.ofList tail.reverse)

/-- Whether a path comes before another one, part by part. -/
def pathLe : Path → Path → Bool
  | [], _ => true
  | _ :: _, [] => false
  | a :: p, b :: q => a < b || (a == b && pathLe p q)

/-- The schema files in a directory at any depth, in the order of their paths, relative to it. -/
def schemaFiles (d : Disk) (directory : Path) : Except FileFault (List Path) :=
  if !d.isDirectory directory then .error (.noDirectory (pathText directory))
  else
    let found := d.files.filterMap fun f =>
      if directory.isPrefixOf f.1 then some (f.1.drop directory.length) else none
    let schemas := found.filter fun p => p.getLast?.bind extension? = some "proto"
    if schemas.isEmpty then .error (.noSchemas (pathText directory))
    else .ok (schemas.mergeSort pathLe)

end Disk

end Protobuf.Build
