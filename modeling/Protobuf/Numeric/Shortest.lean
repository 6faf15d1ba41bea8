import Protobuf.Numeric.Double
import Protobuf.Text.Numeral

/-!
# Shortest decimal text of a double

The digits written for a finite double are the fewest that read back as the same
double, and of those the nearest to its value. The search tries grids of one,
two, up to seventeen digits, and on each grid the two neighbours of the value.
-/

namespace Protobuf.Numeric

/-- A positive decimal number: `digits` times ten to the power `exponent`. -/
structure Decimal where
  digits : Nat
  /-- The power of ten. -/
  exponent : Int
  deriving DecidableEq

/-- Move the trailing zeros of the digits into the exponent. -/
def Decimal.normalize (fuel : Nat) (d : Decimal) : Decimal :=
  match fuel with
  | 0 => d
  | fuel + 1 =>
    if d.digits ≠ 0 ∧ d.digits % 10 = 0 then
      Decimal.normalize fuel ⟨d.digits / 10, d.exponent + 1⟩
    else d

/-- The reals that round to a finite positive double, in quarters of the unit of its last place.
The interval includes its ends when the significand is even. -/
structure Interval where
  /-- Lower end. -/
  low : Nat
  /-- The value itself. -/
  mid : Nat
  /-- Upper end. -/
  high : Nat
  /-- Whether the ends belong to the interval. -/
  closed : Bool

/-- The interval of a magnitude, in quarters of the least subnormal number. Below a power of two
the gap to the next smaller double is half as wide. -/
def Interval.ofMagnitude (magnitude : Nat) : Interval :=
  let m := Format.double.significand magnitude
  let unit := Nat.pow 2 (Format.double.scale magnitude)
  let narrow := m = Nat.pow 2 Format.double.fraction ∧
    1 < magnitude / Nat.pow 2 Format.double.fraction
  { low := (4 * m - if narrow then 1 else 2) * unit
    mid := 4 * m * unit
    high := (4 * m + 2) * unit
    closed := m % 2 = 0 }

/-- Whether `n / d`, counted in quarters of the least subnormal number, lies in the interval. -/
def Interval.holds (i : Interval) (n d : Nat) : Bool :=
  if i.closed then i.low * d ≤ n && n ≤ i.high * d
  else i.low * d < n && n < i.high * d

/-- Quarters of the least subnormal number in ten to the power `k`, as a fraction. -/
def gridStep (k : Int) : Nat × Nat :=
  let one := 4 * Nat.pow 2 Format.double.lowest
  if 0 ≤ k then (one * Nat.pow 10 k.toNat, 1) else (one, Nat.pow 10 k.natAbs)

/-- The best point of the grid of multiples of ten to the power `k`: one that lies in the
interval, and of two the nearer one, at equal distance the even one. -/
def Interval.onGrid? (i : Interval) (k : Int) : Option Decimal :=
  let (num, den) := gridStep k
  let below := i.mid * den / num
  let above := below + 1
  let belowFits := below ≠ 0 && i.holds (below * num) den
  let aboveFits := i.holds (above * num) den
  let toBelow := i.mid * den - below * num
  let toAbove := above * num - i.mid * den
  let preferBelow := toBelow < toAbove || (toBelow == toAbove && below % 2 == 0)
  if belowFits && (preferBelow || !aboveFits) then some ⟨below, k⟩
  else if aboveFits then some ⟨above, k⟩
  else none

/-- The first grid with a point in the interval, from the power `k` of ten downwards. -/
def Interval.search (i : Interval) (fuel : Nat) (k : Int) : Decimal :=
  match fuel with
  | 0 => ⟨0, 0⟩
  | fuel + 1 => (i.onGrid? k).getD (i.search fuel (k - 1))

/-- An exponent of ten from which the search can start: the value lies below ten to that power,
and the grids skipped above it have no point in the interval. -/
def decimalExponent (magnitude : Nat) : Int :=
  let log2 : Int :=
    Nat.log2 (Format.double.significand magnitude) + Format.double.scale magnitude -
      Format.double.lowest
  (log2 + 1) * 30103 / 100000 + 1

/-- The fewest decimal digits that read back as the double with this finite magnitude. -/
def shortest (magnitude : Nat) : Decimal :=
  if magnitude = 0 then ⟨0, 0⟩
  else
    ((Interval.ofMagnitude magnitude).search 22 (decimalExponent magnitude)).normalize 20

/-- How a decimal is laid out as text. -/
structure Layout where
  /-- Least scientific exponent written positionally. -/
  positionalFrom : Int
  /-- Greatest scientific exponent written positionally. -/
  positionalTo : Int

/-- Numbers from 0.00001 up to 16 digits before the point are written positionally, all others
with a signed exponent. -/
def Layout.standard : Layout := ⟨-5, 15⟩

/-- The text of a positive decimal or zero. Positional notation keeps one digit on each side of
the point; an exponent is signed and follows a mantissa without a trailing zero. -/
def Layout.text (l : Layout) (d : Decimal) : List Char :=
  let ds := Text.natDigits d.digits
  let count : Int := ds.length
  let sci := d.exponent + count - 1
  if l.positionalFrom ≤ sci ∧ sci ≤ l.positionalTo then
    if 0 ≤ d.exponent then
      ds ++ List.replicate d.exponent.toNat '0' ++ ['.', '0']
    else if 0 ≤ sci then
      ds.take (sci.toNat + 1) ++ '.' :: ds.drop (sci.toNat + 1)
    else
      '0' :: '.' :: List.replicate (sci.natAbs - 1) '0' ++ ds
  else
    let mantissa := if ds.length = 1 then ds else ds.take 1 ++ '.' :: ds.drop 1
    let sign := if sci < 0 then '-' else '+'
    mantissa ++ 'e' :: sign :: Text.natDigits sci.natAbs

def Double.text (x : Double) : String :=
  let body := Layout.standard.text (shortest x.magnitude)
  String.ofList (if x.negative then '-' :: body else body)

end Protobuf.Numeric
