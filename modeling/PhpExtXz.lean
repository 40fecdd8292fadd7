import PhpExtXz.Lib.FuelLoop
import PhpExtXz.Lib.Buffer
import PhpExtXz.Lib.Delivery
import PhpExtXz.Lib.Runs
import PhpExtXz.Lib.CString
import PhpExtXz.Lib.Store
import PhpExtXz.Lib.Components
import PhpExtXz.Php
import PhpExtXz.Liblzma
import PhpExtXz.CoderSpec
import PhpExtXz.StoredCoder
import PhpExtXz.ConcreteCoders
import PhpExtXz.ZendString
import PhpExtXz.XzEncode
import PhpExtXz.XzDecode
import PhpExtXz.Xz
import PhpExtXz.RoundTrip
import PhpExtXz.XzOptions
import PhpExtXz.ContextProcess
import PhpExtXz.XzEncodeContext
import PhpExtXz.XzDecodeContext
import PhpExtXz.DecodeChunks
import PhpExtXz.DecodeStatus
import PhpExtXz.XzFopenWrapper
import PhpExtXz.WriteStream
import PhpExtXz.StreamXzopen
import PhpExtXz.LevelHonoured
import PhpExtXz.WriteRuns
import PhpExtXz.WriteDelivery
import PhpExtXz.WriteReports
import PhpExtXz.WriteHealthy
import PhpExtXz.EncodePaths
import PhpExtXz.InitOptions
import PhpExtXz.Narrowing
import PhpExtXz.OptionsHonoured
import PhpExtXz.OptionsValid
import PhpExtXz.RawPair
import PhpExtXz.EncodeEmpty
import PhpExtXz.ReadStream
import PhpExtXz.Direction
import PhpExtXz.ReadRuns
import PhpExtXz.ReadErrors
import PhpExtXz.ReadFile
import PhpExtXz.DecodePaths
import PhpExtXz.ReadExact
import PhpExtXz.Truncation
import PhpExtXz.CoderBudget
import PhpExtXz.StringsEnd
import PhpExtXz.StreamsEnd
import PhpExtXz.LoopsEnd
import PhpExtXz.ContextStalls
import PhpExtXz.Objects
import PhpExtXz.ObjectsOwned
import PhpExtXz.ObjectsEnd
import PhpExtXz.ObjectsApart
import PhpExtXz.ObjectsRoundTrip
import PhpExtXz.Lib.Steps
import PhpExtXz.WriteCuts
import PhpExtXz.ReadCuts
import PhpExtXz.Files
import PhpExtXz.Lib.Splits
import PhpExtXz.Members
import PhpExtXz.DecodeAny
import PhpExtXz.RawProperties
import PhpExtXz.ReadAny
import PhpExtXz.Interchange
import PhpExtXz.Streams
import PhpExtXz.StreamsOwned
import PhpExtXz.StreamsApart
