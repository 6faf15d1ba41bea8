import Protobuf.Text.Cluster
import Protobuf.Text.LetterCase

/-!
# Words of a name

A name is cut into words at separators, at changes of case and around digits, and
put together again in another style. Cutting looks at clusters, so a letter and
its combining marks count as one.
-/

namespace Protobuf.Text

/-- Whether a cluster is an underscore, a hyphen or a space. -/
def isSeparator (g : List Char) : Bool :=
  g == ['_'] || g == ['-'] || g == [' ']

def isDigitCluster : List Char → Bool
  | [c] => '0' ≤ c && c ≤ '9'
  | _ => false

/-- Whether a word ends between the cluster `g` and the clusters `rest` after it: at a change
from lower to upper case, around digits, and before the last of several capitals when a small
letter follows it. -/
def cutsAfter (g : List Char) (rest : List (List Char)) : Bool :=
  match rest with
  | [] => false
  | h :: rest =>
    (isLower g && isUpper h) ||
      ((isLower g || isUpper g) && isDigitCluster h) ||
      (isDigitCluster g && (isLower h || isUpper h)) ||
      (isUpper g && isUpper h && (rest.head?.map isLower).getD false)

/-- The words of a text that goes on after the clusters `current` of a word, last one first. -/
def wordsFrom (current : List (List Char)) : List (List Char) → List (List (List Char))
  | [] => [current.reverse]
  | g :: rest =>
    if isSeparator g then current.reverse :: wordsFrom [] rest
    else if cutsAfter g rest then (g :: current).reverse :: wordsFrom [] rest
    else wordsFrom (g :: current) rest

/-- The words of a text, each as a list of clusters. Two separators in a row enclose an empty
word; the empty text has no words. -/
def words (cs : List Char) : List (List (List Char)) :=
  if cs.isEmpty then [] else wordsFrom [] (clusters cs)

/-- Words in lower case, joined by underscores. -/
def snakeWords (cs : List Char) : List Char :=
  ['_'].intercalate ((words cs).map fun w => lower w.flatten)

/-- A word whose first character is in upper case and the rest in lower case. A mark on the first
character belongs to the rest. -/
def capitalized (word : List Char) : List Char :=
  match word with
  | [] => []
  | c :: cs => upperChar c ++ lower cs

/-- Capitalized words, joined without a separator. -/
def pascalWords (cs : List Char) : List Char :=
  (words cs).flatMap fun w => capitalized w.flatten

end Protobuf.Text
