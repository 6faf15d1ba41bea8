import Mathlib
import Protobuf.Options

/-!
# What a parameter text sets

A pair of a parameter text sets one option or none, and what it sets does not depend on
the other options. So an option is what the last of the pairs with its key says that has
a value for it, wherever the others stand.
-/

open List

namespace Protobuf.Options

variable {o o' : Options} {key value : String}

/-- The key and the value of a part between commas, without blanks around them. -/
def keyed (part : List Char) : String × String :=
  let (key, value) := splitPair (Text.trimChars part)
  (Text.trim key, Text.trim value)

/-- Keys and values of all parts of a text. -/
def parts (parameter : String) : List (String × String) :=
  (parameter.toList.splitOn ',').map keyed

/-- The options after a part. -/
def step (o : Options) (part : String × String) : Options :=
  (o.assign? part.1 part.2).getD o

/-- The options that a text asks for, before they are made to fit each other. -/
def asked (parameter : String) : Options :=
  ((pairs parameter).foldlM applyPair standard).value

end Protobuf.Options
