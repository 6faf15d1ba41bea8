/-!
# Instants

An instant is a number of seconds from the epoch and nanoseconds within the
second. During a leap second, which only the last second of a minute can be
followed by, the nanoseconds run past one thousand million.
-/

namespace Protobuf.Time

/-- The least second, at the start of the year -262143. -/
def firstSecond : Int := -8334601228800

/-- The greatest second, at the end of the year 262142. -/
def lastSecond : Int := 8210266876799

def IsInstant (seconds : Int) (nanos : Nat) : Prop :=
  firstSecond ≤ seconds ∧ seconds ≤ lastSecond ∧ nanos < 2000000000 ∧
    (1000000000 ≤ nanos → seconds % 60 = 59)

instance (seconds : Int) (nanos : Nat) : Decidable (IsInstant seconds nanos) :=
  inferInstanceAs (Decidable (_ ∧ _ ∧ _ ∧ _))

/-- A moment in universal time. -/
structure Instant where
  /-- Whole seconds from the epoch. -/
  seconds : Int
  /-- Nanoseconds within the second, past 1000000000 in a leap second. -/
  nanos : Nat
  /-- The parts are in range. -/
  valid : IsInstant seconds nanos
  deriving DecidableEq

def Instant.epoch : Instant :=
  ⟨0, 0, by decide⟩

def Instant.ofParts? (seconds nanos : Int) : Option Instant :=
  if h : 0 ≤ nanos ∧ IsInstant seconds nanos.toNat then some ⟨seconds, nanos.toNat, h.2⟩ else none

end Protobuf.Time
