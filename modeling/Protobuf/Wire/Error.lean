import Protobuf.Text.Numeral

/-!
# Malformed wire data

Each cause keeps the offset at which it was noticed; `message` words it.
-/

namespace Protobuf.Wire

/-- What is wrong with the bytes being read. -/
inductive DecodeError where
  /-- The buffer ends inside a value. -/
  | truncated (offset : Nat)
  /-- A varint has no end within ten bytes. -/
  | varintOverflow (offset : Nat)
  /-- A value of this wire type cannot stand here. -/
  | invalidWireType (wireType offset : Nat)
  /-- A length reaches past the end of the buffer. -/
  | frameOverrun (offset length : Nat)
  /-- The last field of a frame ends past the frame. -/
  | fieldOverrun (position frameEnd : Nat)
  | invalidUtf8 (offset : Nat)
  | unterminatedGroup (offset : Nat)
  /-- Messages or groups are nested too deeply. -/
  | recursionLimit (offset limit : Nat)
  deriving DecidableEq

/-- The wording of a cause, without the words common to all. -/
def DecodeError.detail : DecodeError → String
  | .truncated offset => "unexpected end of buffer at offset " ++ Text.natText offset
  | .varintOverflow offset =>
    "varint at offset " ++ Text.natText offset ++ " is longer than 10 bytes"
  | .invalidWireType wireType offset =>
    "invalid wire type " ++ Text.natText wireType ++ " at offset " ++ Text.natText offset
  | .frameOverrun offset length =>
    "length " ++ Text.natText length ++ " at offset " ++ Text.natText offset ++
      " overruns the frame"
  | .fieldOverrun position frameEnd =>
    "field ended at offset " ++ Text.natText position ++ ", frame ends at " ++
      Text.natText frameEnd
  | .invalidUtf8 offset =>
    "string field at offset " ++ Text.natText offset ++ " is not valid UTF-8"
  | .unterminatedGroup offset =>
    "unterminated group starting at offset " ++ Text.natText offset
  | .recursionLimit offset limit =>
    "nesting at offset " ++ Text.natText offset ++ " exceeds " ++ Text.natText limit ++ " levels"

def DecodeError.message (e : DecodeError) : String :=
  "malformed wire data: " ++ e.detail

end Protobuf.Wire
