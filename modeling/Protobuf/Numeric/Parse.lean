import Protobuf.Numeric.Double
import Protobuf.Text.Numeral

/-!
# Reading a double from decimal text

A decimal is an optional sign, digits with an optional point, and an optional
exponent. The result is the double nearest to the written number. The words for
infinity and not-a-number are accepted in any case.
-/

namespace Protobuf.Numeric

/-- Leading digits of a text, with the rest. -/
def spanDigits (cs : List Char) : List Char × List Char :=
  cs.span fun c => (Text.digit? c).isSome

/-- An unsigned decimal: its digits as one number, and the power of ten they are counted in. -/
structure Numeral where
  /-- The digits before and after the point, read as one number. -/
  digits : Nat
  /-- The power of ten of the last digit. -/
  exponent : Int
  deriving DecidableEq

/-- The exponent part: nothing, or a mark, an optional sign and digits. -/
def exponentPart? : List Char → Option Int
  | [] => some 0
  | 'e' :: cs | 'E' :: cs => Text.integer? true cs
  | _ => none

/-- Read digits, an optional point and an optional exponent; a digit must stand on one side of
the point. -/
def numeral? (cs : List Char) : Option Numeral :=
  let (whole, rest) := spanDigits cs
  let (part, rest) : List Char × List Char :=
    match rest with
    | '.' :: rest => spanDigits rest
    | _ => ([], rest)
  match Text.natural? (whole ++ part), exponentPart? rest with
  | some n, some e => some ⟨n, e - part.length⟩
  | _, _ => none

/-- The double nearest to an unsigned decimal. Numbers far outside the range of doubles are
decided by their size alone, so that a huge exponent costs nothing. -/
def Numeral.toDouble (negative : Bool) (d : Numeral) : Double :=
  let size := d.exponent + (Text.natDigits d.digits).length
  if d.digits = 0 || size < -400 then Double.ofMagnitude negative 0
  else if 400 < size then Double.infinity negative
  else if 0 ≤ d.exponent then Double.ofRatio negative (d.digits * Nat.pow 10 d.exponent.toNat) 1
  else Double.ofRatio negative d.digits (Nat.pow 10 d.exponent.natAbs)

/-- Whether a text is a word, in any mixture of cases of ASCII letters. -/
def isWord (word : String) (cs : List Char) : Bool :=
  cs.map Char.toLower == word.toList

/-- An unsigned decimal or one of the words `inf`, `infinity`, `nan`. -/
def unsignedDouble? (negative : Bool) (cs : List Char) : Option Double :=
  if isWord "inf" cs || isWord "infinity" cs then some (Double.infinity negative)
  else if isWord "nan" cs then some (Double.nan negative)
  else (numeral? cs).map (Numeral.toDouble negative)

def Double.parse? : List Char → Option Double
  | '-' :: cs => unsignedDouble? true cs
  | '+' :: cs => unsignedDouble? false cs
  | cs => unsignedDouble? false cs

end Protobuf.Numeric
