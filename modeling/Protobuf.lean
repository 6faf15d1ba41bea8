import Protobuf.Json.Text
import Protobuf.Main
import Protobuf.Proofs.Build.ModuleFile
import Protobuf.Proofs.Codec.Concatenation
import Protobuf.Proofs.Codec.JsonRoundTrip
import Protobuf.Proofs.Codec.LastWins
import Protobuf.Proofs.Codec.LongStyles
import Protobuf.Proofs.Codec.OptionIndependence
import Protobuf.Proofs.Codec.PackedRuns
import Protobuf.Proofs.Codec.ReaderSafety
import Protobuf.Proofs.Codec.Textbook
import Protobuf.Proofs.Emit.EnumConversions
import Protobuf.Proofs.Json.LiteralIntegers
import Protobuf.Proofs.Rpc.Eviction
import Protobuf.Proofs.Rpc.Remembered
import Protobuf.Sample.AcmeBuild
import Protobuf.Sample.AcmeHandlers
import Protobuf.Sample.Sink
import Protobuf.Proofs.Base64.Spellings
import Protobuf.Proofs.Wire.Sequences
import Protobuf.Proofs.Codec.Dates
import Protobuf.Proofs.Codec.FloatPlaces
import Protobuf.Proofs.Codec.DecimalTexts
import Protobuf.Proofs.Codec.FieldNames
import Protobuf.Proofs.Codec.Partials
import Protobuf.Proofs.Plan.OneofMembers
import Protobuf.Proofs.Emit.References
import Protobuf.Proofs.Schema.Declarations
import Protobuf.Proofs.Build.Confined
import Protobuf.Proofs.Wire.Varints
import Protobuf.Proofs.Schema.SourcePaths
import Protobuf.Proofs.Emit.HeaderLines
import Protobuf.Proofs.Parameters
import Protobuf.Proofs.Emit.Accessors
