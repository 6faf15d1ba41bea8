import Protobuf.Warning

/-!
# Call contexts

A context keeps loaders by their identities, for as long as it lives. Asking for a
loader of another type than the one that is kept replaces it, with a warning.
-/

namespace Protobuf.Rpc

/-- Something kept in a context, with the name of its type. -/
structure Kept (α : Type) where
  type : String
  value : α
  deriving DecidableEq

structure Context (α : Type) where
  /-- What is kept, each identity once. -/
  loaders : List (String × Kept α)
  deriving DecidableEq

namespace Context

variable {α : Type}

def empty : Context α := ⟨[]⟩

def size (c : Context α) : Nat :=
  c.loaders.length

/-- Put something in the place of what has the same identity, or at the end. -/
def put (identity : String) (kept : Kept α) :
    List (String × Kept α) → List (String × Kept α)
  | [] => [(identity, kept)]
  | (i, k) :: rest =>
    if i = identity then (identity, kept) :: rest else (i, k) :: put identity kept rest

/-- Keep something under an identity. -/
def set (c : Context α) (identity type : String) (value : α) : Context α :=
  ⟨put identity ⟨type, value⟩ c.loaders⟩

/-- What is kept under an identity if it has the given type; else `value`, which is kept then. -/
def get (c : Context α) (identity type : String) (value : α) : Logged (α × Context α) :=
  match c.loaders.lookup identity with
  | none => return (value, c.set identity type value)
  | some kept =>
    if kept.type = type then return (kept.value, c)
    else do
      Logged.warn (.loaderReplaced identity)
      return (value, c.set identity type value)

def text (c : Context α) : String :=
  "CallContext \x7b loaders: " ++ Text.quotedList (c.loaders.map Prod.fst) ++ " \x7d"

end Context

end Protobuf.Rpc
