/-!
# Sets of code points as runs

A property of code points is stored as run lengths: how many code points from
zero lack it, how many have it, how many lack it again, and so on. After the
last run no code point has the property.
-/

namespace Protobuf.Text

/-- Whether the `n`-th position from here is in the set, when the runs begin with one that is
inside (`inside = true`) or outside. -/
def inRunsFrom (inside : Bool) : List Nat → Nat → Bool
  | [], _ => false
  | run :: runs, n => if n < run then inside else inRunsFrom (!inside) runs (n - run)

/-- Whether a code point has the property with these runs. -/
def inRuns (runs : List Nat) (n : Nat) : Bool :=
  inRunsFrom false runs n

end Protobuf.Text
