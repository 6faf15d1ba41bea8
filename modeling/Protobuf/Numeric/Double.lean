import Protobuf.Numeric.Rounding

/-!
# Floating-point values

Doubles and singles are their bit patterns, so that a value read from the wire
keeps every bit, the sign of a zero and the payload of a not-a-number included.
Comparison follows the arithmetic meaning: the two zeros are equal and a
not-a-number equals nothing.
-/

namespace Protobuf.Numeric

/-- A 64-bit floating-point value. -/
structure Double where
  /-- The bit pattern: sign, exponent field, fraction. -/
  bits : UInt64
  deriving DecidableEq

/-- A 32-bit floating-point value. -/
structure Single where
  bits : UInt32
  deriving DecidableEq

namespace Double

/-- The bit pattern with a sign and a magnitude. -/
def ofMagnitude (negative : Bool) (magnitude : Nat) : Double :=
  ⟨UInt64.ofNat (magnitude + if negative then Nat.pow 2 63 else 0)⟩

/-- Whether the sign bit is set. -/
def negative (x : Double) : Bool :=
  Nat.pow 2 63 ≤ x.bits.toNat

/-- The bits below the sign. -/
def magnitude (x : Double) : Nat :=
  x.bits.toNat % Nat.pow 2 63

def zero : Double := ⟨0⟩

def isZero (x : Double) : Bool :=
  x.magnitude == 0

def isNaN (x : Double) : Bool :=
  Format.double.infinity < x.magnitude

def isInfinite (x : Double) : Bool :=
  x.magnitude == Format.double.infinity

/-- Whether the value is a number and not an infinity. -/
def isFinite (x : Double) : Bool :=
  x.magnitude < Format.double.infinity

def nan (negative : Bool) : Double :=
  ofMagnitude negative (Format.double.infinity + Nat.pow 2 51)

def infinity (negative : Bool) : Double :=
  ofMagnitude negative Format.double.infinity

/-- Equality as arithmetic has it: zeros are equal and nothing equals a not-a-number. -/
def numericEq (x y : Double) : Bool :=
  !x.isNaN && !y.isNaN && (x.bits == y.bits || (x.isZero && y.isZero))

def ofRatio (negative : Bool) (n d : Nat) : Double :=
  ofMagnitude negative (Format.double.ofRatio n d)

def ofInt (n : Int) : Double :=
  ofRatio (n < 0) n.natAbs 1

/-- The integer that a finite double without fraction is. -/
def integer? (x : Double) : Option Int :=
  if x.isFinite then
    let units := Format.double.units x.magnitude
    let one := Nat.pow 2 Format.double.lowest
    if units % one = 0 then
      let n : Int := units / one
      some (if x.negative then -n else n)
    else none
  else none

end Double

namespace Single

def ofMagnitude (negative : Bool) (magnitude : Nat) : Single :=
  ⟨UInt32.ofNat (magnitude + if negative then Nat.pow 2 31 else 0)⟩

def negative (x : Single) : Bool :=
  Nat.pow 2 31 ≤ x.bits.toNat

def magnitude (x : Single) : Nat :=
  x.bits.toNat % Nat.pow 2 31

def zero : Single := ⟨0⟩

def isZero (x : Single) : Bool :=
  x.magnitude == 0

def isNaN (x : Single) : Bool :=
  Format.single.infinity < x.magnitude

def numericEq (x y : Single) : Bool :=
  !x.isNaN && !y.isNaN && (x.bits == y.bits || (x.isZero && y.isZero))

/-- The double with the same value; a not-a-number becomes quiet and keeps its payload. -/
def toDouble (x : Single) : Double :=
  let m := x.magnitude
  if Format.single.infinity < m then
    Double.ofMagnitude x.negative
      (Format.double.infinity + Nat.pow 2 51 + m % Nat.pow 2 22 * Nat.pow 2 29)
  else if m = Format.single.infinity then Double.infinity x.negative
  else Double.ofRatio x.negative (Format.single.units m) (Nat.pow 2 Format.single.lowest)

end Single

/-- The single nearest to a double; a not-a-number becomes quiet and keeps the top of its
payload. -/
def Double.toSingle (x : Double) : Single :=
  let m := x.magnitude
  if Format.double.infinity < m then
    Single.ofMagnitude x.negative (Format.single.infinity + Nat.pow 2 22 + m % Nat.pow 2 51 / Nat.pow 2 29)
  else if m = Format.double.infinity then
    Single.ofMagnitude x.negative Format.single.infinity
  else
    Single.ofMagnitude x.negative
      (Format.single.ofRatio (Format.double.units m) (Nat.pow 2 Format.double.lowest))

end Protobuf.Numeric
