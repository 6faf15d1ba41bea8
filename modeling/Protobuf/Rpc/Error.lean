import Protobuf.Wire.Error

/-!
# Why a call fails

A failure of a batch is given to every load that shared it.
-/

namespace Protobuf.Rpc

/-- Why a call fails. -/
inductive RpcError where
  /-- The transport did not deliver the request or the response. -/
  | transport (text : String)
  /-- The response is not a message. -/
  | decode (e : Wire.DecodeError)
  /-- A batch gave another number of results than it had keys. -/
  | batchMismatch (expected actual : Nat)
  /-- The transport does not know the call. -/
  | unimplemented (text : String)
  /-- The load was given up before its batch was done. -/
  | canceled
  deriving DecidableEq

def RpcError.message : RpcError → String
  | transport text => "transport error: " ++ text
  | decode e => "decode error: " ++ e.message
  | batchMismatch expected actual =>
    "batch returned " ++ Text.natText actual ++ " results for " ++ Text.natText expected ++ " keys"
  | unimplemented text => "unimplemented: " ++ text
  | canceled => "request canceled before the batch completed"

end Protobuf.Rpc
