/-!
# Base64

Bytes are written with the standard alphabet and padding. Reading accepts four
spellings, either alphabet with or without padding, and is strict within each:
no other character, no mixture, padding exactly where it is due, and no bits
left over at the end.
-/

namespace Protobuf.Base64

/-- The last two characters of the alphabet; letters and digits are shared. -/
structure Alphabet where
  plus : Char
  slash : Char

def Alphabet.standard : Alphabet := ⟨'+', '/'⟩

/-- The alphabet that is safe in file names and links. -/
def Alphabet.urlSafe : Alphabet := ⟨'-', '_'⟩

def Alphabet.char (a : Alphabet) (n : Nat) : Char :=
  if n < 26 then Char.ofNat (n + 'A'.toNat)
  else if n < 52 then Char.ofNat (n - 26 + 'a'.toNat)
  else if n < 62 then Char.ofNat (n - 52 + '0'.toNat)
  else if n = 62 then a.plus
  else a.slash

/-- The six-bit number of a character. -/
def Alphabet.value? (a : Alphabet) (c : Char) : Option Nat :=
  if 'A' ≤ c ∧ c ≤ 'Z' then some (c.toNat - 'A'.toNat)
  else if 'a' ≤ c ∧ c ≤ 'z' then some (c.toNat - 'a'.toNat + 26)
  else if '0' ≤ c ∧ c ≤ '9' then some (c.toNat - '0'.toNat + 52)
  else if c = a.plus then some 62
  else if c = a.slash then some 63
  else none

/-- The characters of some bytes, with `padding` after an incomplete group. -/
def encodeChars (a : Alphabet) (padding : Bool) : List UInt8 → List Char
  | [] => []
  | [x] =>
    let n := x.toNat
    [a.char (n / 4), a.char (n % 4 * 16)] ++ if padding then ['=', '='] else []
  | [x, y] =>
    let n := x.toNat * 256 + y.toNat
    [a.char (n / 1024), a.char (n / 16 % 64), a.char (n % 16 * 4)] ++
      if padding then ['='] else []
  | x :: y :: z :: rest =>
    let n := (x.toNat * 256 + y.toNat) * 256 + z.toNat
    a.char (n / 262144) :: a.char (n / 4096 % 64) :: a.char (n / 64 % 64) :: a.char (n % 64) ::
      encodeChars a padding rest

/-- The bytes of six-bit numbers; bits that do not fill a byte must be zero. -/
def bytesOfSextets : List Nat → Option (List UInt8)
  | [] => some []
  | [_] => none
  | [a, b] =>
    if b % 16 = 0 then some [UInt8.ofNat (a * 4 + b / 16)] else none
  | [a, b, c] =>
    if c % 4 = 0 then
      let n := (a * 64 + b) * 16 + c / 4
      some [UInt8.ofNat (n / 256), UInt8.ofNat (n % 256)]
    else none
  | a :: b :: c :: d :: rest =>
    let n := ((a * 64 + b) * 64 + c) * 64 + d
    (bytesOfSextets rest).map fun bytes =>
      UInt8.ofNat (n / 65536) :: UInt8.ofNat (n / 256 % 256) :: UInt8.ofNat (n % 256) :: bytes

/-- Read a text without padding. -/
def decodeBody? (a : Alphabet) (cs : List Char) : Option (List UInt8) :=
  (cs.mapM a.value?).bind bytesOfSextets

/-- Read a text in one alphabet. With padding, the text is filled up to groups of four by equals
signs; without, it holds none. -/
def decodeIn? (a : Alphabet) (padding : Bool) (cs : List Char) : Option (List UInt8) :=
  if padding then
    let body := cs.takeWhile (· != '=')
    let fill := cs.dropWhile (· != '=')
    if fill = List.replicate ((4 - body.length % 4) % 4) '=' then decodeBody? a body else none
  else decodeBody? a cs

def encode (bytes : List UInt8) : String :=
  String.ofList (encodeChars .standard true bytes)

/-- The bytes of a text in the first of the four spellings that fits. -/
def decode? (s : String) : Option (List UInt8) :=
  let cs := s.toList
  decodeIn? .standard true cs <|> decodeIn? .standard false cs <|>
    decodeIn? .urlSafe true cs <|> decodeIn? .urlSafe false cs

end Protobuf.Base64
