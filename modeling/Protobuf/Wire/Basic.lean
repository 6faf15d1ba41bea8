/-!
# Numbers as bytes

A varint holds seven bits per byte, lowest first, every byte but the last with
its high bit set. Signed numbers that are often small in size are folded to
natural numbers first. Fixed-width numbers are written lowest byte first.
-/

namespace Protobuf.Wire

def varintBytes : (more : Nat) → Nat → List UInt8
  | 0, n => [UInt8.ofNat n]
  | more + 1, n =>
    if n < 128 then [UInt8.ofNat n]
    else UInt8.ofNat (n % 128 + 128) :: varintBytes more (n / 128)

/-- The varint of a 64-bit number, of one to ten bytes. -/
def varint (n : UInt64) : List UInt8 :=
  varintBytes 9 n.toNat

def lengthBytes (n : Nat) : List UInt8 :=
  varintBytes 9 n

/-- Fold an integer to a natural number: 0, -1, 1, -2, ... become 0, 1, 2, 3, ... -/
def zigzag (n : Int) : Nat :=
  if 0 ≤ n then 2 * n.natAbs else 2 * n.natAbs - 1

def unzigzag (n : Nat) : Int :=
  if n % 2 = 0 then n / 2 else -(n / 2 : Nat) - 1

/-- The lowest `count` bytes of a number, lowest first. -/
def littleEndian : (count : Nat) → Nat → List UInt8
  | 0, _ => []
  | count + 1, n => UInt8.ofNat (n % 256) :: littleEndian count (n / 256)

/-- The number whose bytes are given, lowest first. -/
def ofLittleEndian : List UInt8 → Nat
  | [] => 0
  | b :: bytes => b.toNat + 256 * ofLittleEndian bytes

def utf8Bytes (s : String) : List UInt8 :=
  s.toUTF8.data.toList

def utf8Text? (bytes : List UInt8) : Option String :=
  String.fromUTF8? ⟨bytes.toArray⟩

end Protobuf.Wire
