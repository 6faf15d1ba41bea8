import Protobuf.Text.Blank

/-!
# Decimal numerals

An integer is written as an optional sign and one or more ASCII digits. Reading
accepts leading zeros and a plus sign; writing produces neither.
-/

namespace Protobuf.Text

def digit? (c : Char) : Option Nat :=
  if '0' ≤ c ∧ c ≤ '9' then some (c.toNat - '0'.toNat) else none

/-- The number that `acc` becomes when the digits `cs` are written after it. -/
def appendDigits? (acc : Nat) : List Char → Option Nat
  | [] => some acc
  | c :: cs => (digit? c).bind fun d => appendDigits? (10 * acc + d) cs

/-- The value of one or more digits. -/
def natural? : List Char → Option Nat
  | [] => none
  | c :: cs => appendDigits? 0 (c :: cs)

/-- The integer written by an optional sign and digits. A minus sign is accepted only where
`signed` holds, so that `-0` is no unsigned numeral. -/
def integer? (signed : Bool) : List Char → Option Int
  | '+' :: cs => (natural? cs).map Int.ofNat
  | '-' :: cs => if signed then (natural? cs).map fun n => -(n : Int) else none
  | cs => (natural? cs).map Int.ofNat

/-- The digits of a natural number, without leading zeros. -/
def natDigits (n : Nat) : List Char :=
  Nat.toDigits 10 n

def intChars (n : Int) : List Char :=
  if n < 0 then '-' :: natDigits n.natAbs else natDigits n.natAbs

def natText (n : Nat) : String :=
  String.ofList (natDigits n)

def intText (n : Int) : String :=
  String.ofList (intChars n)

/-- Digits of a number, padded with zeros in front to at least `width` of them. -/
def padded (width n : Nat) : List Char :=
  let ds := natDigits n
  List.replicate (width - ds.length) '0' ++ ds

end Protobuf.Text
