/-!
# Rounding to a binary format

A binary floating-point format stores a magnitude as one number: the exponent
field above the fraction bits. Counting magnitudes in units of the least
subnormal number makes rounding a single division, and a carry out of the
fraction bits runs into the exponent field by itself.
-/

namespace Protobuf.Numeric

/-- The nearest integer to `n / d`; of two nearest ones the even one. -/
def roundDiv (n d : Nat) : Nat :=
  let q := n / d
  let r := n % d
  if d < 2 * r ∨ (2 * r = d ∧ q % 2 = 1) then q + 1 else q

/-- A binary interchange format: the number of fraction bits and of exponent bits. -/
structure Format where
  /-- Stored bits of the significand. -/
  fraction : Nat
  /-- Bits of the exponent field. -/
  exponent : Nat
  deriving DecidableEq

namespace Format

def double : Format := ⟨52, 11⟩

def single : Format := ⟨23, 8⟩

/-- The least subnormal number is two to the power of minus `lowest`. -/
def lowest (f : Format) : Nat :=
  Nat.pow 2 (f.exponent - 1) - 2 + f.fraction

/-- The magnitude that stands for infinity; greater ones are not numbers. -/
def infinity (f : Format) : Nat :=
  (Nat.pow 2 f.exponent - 1) * Nat.pow 2 f.fraction

/-- The significand of a finite magnitude, with the implicit leading bit. -/
def significand (f : Format) (magnitude : Nat) : Nat :=
  if magnitude / Nat.pow 2 f.fraction = 0 then magnitude
  else Nat.pow 2 f.fraction + magnitude % Nat.pow 2 f.fraction

/-- The power of two by which the significand counts units of the least subnormal number. -/
def scale (f : Format) (magnitude : Nat) : Nat :=
  magnitude / Nat.pow 2 f.fraction - 1

/-- A finite magnitude in units of the least subnormal number. -/
def units (f : Format) (magnitude : Nat) : Nat :=
  f.significand magnitude * Nat.pow 2 (f.scale magnitude)

/-- The magnitude nearest to `n / d`, ties to even; beyond the greatest one it is infinity. -/
def ofRatio (f : Format) (n d : Nat) : Nat :=
  let scaled := n * Nat.pow 2 f.lowest
  let shift := Nat.log2 (scaled / d) - f.fraction
  min f.infinity (shift * Nat.pow 2 f.fraction + roundDiv scaled (d * Nat.pow 2 shift))

end Format

end Protobuf.Numeric
