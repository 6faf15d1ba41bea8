/-!
# Blank characters

Surrounding blanks are dropped from numerals, map keys and option texts. Blank
means the Unicode property White_Space, so the no-break space and the
ideographic space are blank, and the zero-width space is not.
-/

namespace Protobuf.Text

/-- Characters with the Unicode property White_Space. -/
def isBlank (c : Char) : Bool :=
  let n := c.toNat
  (9 ≤ n && n ≤ 13) || n == 0x20 || n == 0x85 || n == 0xA0 || n == 0x1680 ||
    (0x2000 ≤ n && n ≤ 0x200A) || n == 0x2028 || n == 0x2029 || n == 0x202F ||
    n == 0x205F || n == 0x3000

/-- Drop the blanks after the last character that is not blank. -/
def trimEndChars (cs : List Char) : List Char :=
  (cs.reverse.dropWhile isBlank).reverse

/-- Drop the blanks at both ends. -/
def trimChars (cs : List Char) : List Char :=
  trimEndChars (cs.dropWhile isBlank)

def trimEnd (s : String) : String :=
  String.ofList (trimEndChars s.toList)

/-- Drop the blanks at both ends of a text. -/
def trim (s : String) : String :=
  String.ofList (trimChars s.toList)

end Protobuf.Text
