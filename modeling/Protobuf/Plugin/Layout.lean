import Protobuf.Plugin.Record

/-!
# The layout of a request

Which fields the messages of a request have, and how each is written. A request is
readable if all its records agree with this layout, also those that nothing looks
at: options, reserved names, positions in the source. Fields without a place in
the layout are passed over. Messages and groups nest up to a limit.
-/

namespace Protobuf.Plugin

/-- The messages of which a request is made. -/
inductive Part where
  | request
  | version
  | file
  | message
  | field
  | oneof
  | enum
  | enumValue
  | service
  | method
  | extensionRange
  | reservedRange
  | sourceInfo
  | location
  | fileOptions
  | messageOptions
  | fieldOptions
  | enumOptions
  | enumValueOptions
  | serviceOptions
  | methodOptions
  | otherOptions
  | customOption
  | namePart
  deriving DecidableEq

/-- How the content of a field is written. -/
inductive Writing where
  /-- A number or a truth value. -/
  | varint
  /-- Numbers of a repeated field, packed or not. -/
  | varints
  /-- Eight bytes. -/
  | fixed64
  | bytes
  | text
  | part (p : Part)
  deriving DecidableEq

/-- The numbers of the fields of a message, and how they are written. -/
def Part.layout : Part → List (Nat × Writing)
  | .request => [(1, .text), (2, .text), (3, .part .version), (15, .part .file)]
  | .version => [(1, .varint), (2, .varint), (3, .varint), (4, .text)]
  | .file =>
    [(1, .text), (2, .text), (3, .text), (4, .part .message), (5, .part .enum),
     (6, .part .service), (7, .part .field), (8, .part .fileOptions), (9, .part .sourceInfo),
     (10, .varints), (11, .varints), (12, .text)]
  | .message =>
    [(1, .text), (2, .part .field), (3, .part .message), (4, .part .enum),
     (5, .part .extensionRange), (6, .part .field), (7, .part .messageOptions), (8, .part .oneof),
     (9, .part .reservedRange), (10, .text)]
  | .field =>
    [(1, .text), (2, .text), (3, .varint), (4, .varint), (5, .varint), (6, .text), (7, .text),
     (8, .part .fieldOptions), (9, .varint), (10, .text), (17, .varint)]
  | .oneof => [(1, .text), (2, .part .otherOptions)]
  | .enum =>
    [(1, .text), (2, .part .enumValue), (3, .part .enumOptions), (4, .part .reservedRange),
     (5, .text)]
  | .enumValue => [(1, .text), (2, .varint), (3, .part .enumValueOptions)]
  | .service => [(1, .text), (2, .part .method), (3, .part .serviceOptions)]
  | .method =>
    [(1, .text), (2, .text), (3, .text), (4, .part .methodOptions), (5, .varint), (6, .varint)]
  | .extensionRange => [(1, .varint), (2, .varint), (3, .part .otherOptions)]
  | .reservedRange => [(1, .varint), (2, .varint)]
  | .sourceInfo => [(1, .part .location)]
  | .location => [(1, .varints), (2, .varints), (3, .text), (4, .text), (6, .text)]
  | .fileOptions =>
    [(1, .text), (8, .text), (9, .varint), (10, .varint), (11, .text), (16, .varint),
     (17, .varint), (18, .varint), (20, .varint), (23, .varint), (27, .varint), (31, .varint),
     (36, .text), (37, .text), (39, .text), (40, .text), (41, .text), (42, .varint), (44, .text),
     (45, .text), (999, .part .customOption)]
  | .messageOptions =>
    [(1, .varint), (2, .varint), (3, .varint), (7, .varint), (999, .part .customOption)]
  | .fieldOptions =>
    [(1, .varint), (2, .varint), (3, .varint), (5, .varint), (6, .varint), (10, .varint),
     (999, .part .customOption)]
  | .enumOptions => [(2, .varint), (3, .varint), (999, .part .customOption)]
  | .enumValueOptions => [(1, .varint), (999, .part .customOption)]
  | .serviceOptions => [(33, .varint), (999, .part .customOption)]
  | .methodOptions => [(33, .varint), (34, .varint), (999, .part .customOption)]
  | .otherOptions => [(999, .part .customOption)]
  | .customOption =>
    [(2, .part .namePart), (3, .text), (4, .varint), (5, .varint), (6, .fixed64), (7, .bytes),
     (8, .text)]
  | .namePart => [(1, .text), (2, .varint)]

/-- Whether a record agrees with the layout of a message that may hold `levels` more levels of
messages or groups. Messages inside it are judged by `inner`. -/
def Part.admitsRecord (inner : Part → List UInt8 → Bool) (levels : Nat) (p : Part)
    (r : Record) : Bool :=
  match p.layout.lookup r.number, r.payload with
  | none, payload => payload.depth ≤ levels
  | some .varint, .varint _ => true
  | some .varints, .varint _ => true
  | some .varints, .block bytes => (varints? bytes.length bytes).isSome
  | some .fixed64, .fixed64 _ => true
  | some .bytes, .block _ => true
  | some .text, .block bytes => (Wire.utf8Text? bytes).isSome
  | some (.part q), .block bytes => inner q bytes
  | _, _ => false

/-- Whether all records of some bytes agree with the layout of a message. -/
def Part.admitsAll (inner : Part → List UInt8 → Bool) (levels : Nat) (p : Part)
    (bytes : List UInt8) : Bool :=
  match records? bytes with
  | some records => records.all (p.admitsRecord inner levels)
  | none => false

/-- Whether some bytes are a message with at most `levels` levels of messages or groups inside. -/
def Part.admits : (levels : Nat) → Part → List UInt8 → Bool
  | 0, p, bytes => p.admitsAll (fun _ _ => false) 0 bytes
  | levels + 1, p, bytes => p.admitsAll (Part.admits levels) (levels + 1) bytes

end Protobuf.Plugin
