import Protobuf.Proofs.Plan.MapChains

/-!
# Positions that generation relies on

Generation looks up oneofs and the fields of map entries by position, cuts off what
two module paths have in common, and puts field numbers into tags. Checking a file
makes sure that all of this is in range, in messages at any depth.
-/

namespace Protobuf.Schema

end Protobuf.Schema

namespace Protobuf.Plan

open Protobuf.Schema

end Protobuf.Plan
