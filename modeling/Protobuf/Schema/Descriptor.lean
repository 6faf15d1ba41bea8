/-!
# Descriptors as they arrive

What a schema compiler's front end hands over: files with their messages, enums
and services, unchecked. Numbers can be out of range, types unknown and names
missing; a missing name is the empty text.
-/

namespace Protobuf.Descriptor

structure Field where
  name : String := ""
  number : Int := 0
  type : Option Int := none
  label : Option Int := none
  /-- Qualified name of the enum or message type. -/
  typeName : Option String := none
  /-- Index of the oneof that the field belongs to. -/
  oneofIndex : Option Int := none
  /-- Whether presence is tracked for a scalar. -/
  proto3Optional : Bool := false
  deriving DecidableEq

structure EnumValue where
  name : String := ""
  number : Int32 := 0
  deriving DecidableEq

structure Enum where
  name : String := ""
  values : List EnumValue := []
  deriving DecidableEq

/-- A message, with the types nested in it. -/
structure Message where
  name : String := ""
  fields : List Field := []
  messages : List Message := []
  enums : List Enum := []
  oneofs : List String := []
  /-- Whether the message is marked as the entry of a map. -/
  mapEntry : Bool := false
  deriving Inhabited

structure Method where
  name : String := ""
  /-- Qualified name of the request type. -/
  input : String := ""
  /-- Qualified name of the response type. -/
  output : String := ""
  clientStreaming : Bool := false
  serverStreaming : Bool := false
  deriving DecidableEq

structure Service where
  name : String := ""
  methods : List Method := []
  deriving DecidableEq

/-- A place in a file with the comments around it. The path names the place by field numbers of
the descriptor and indices in turn. -/
structure Location where
  path : List Int := []
  /-- Comment before it. -/
  leading : Option String := none
  /-- Comment after it. -/
  trailing : Option String := none
  deriving DecidableEq

structure File where
  /-- Path of the file. -/
  name : String := ""
  package : String := ""
  /-- Name of the language version. -/
  dialect : String := ""
  /-- Imported files. -/
  dependencies : List String := []
  messages : List Message := []
  enums : List Enum := []
  services : List Service := []
  locations : List Location := []

end Protobuf.Descriptor
