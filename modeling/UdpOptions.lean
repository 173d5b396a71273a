import UdpOptions.Api
import UdpOptions.Library.Intervals
import UdpOptions.Proofs.PartialInvariant
import UdpOptions.Proofs.CacheInvariant
import UdpOptions.Proofs.CacheIsolation
import UdpOptions.Proofs.TlvFraming
import UdpOptions.Proofs.SplitShape
import UdpOptions.Proofs.Reordering
import UdpOptions.Proofs.Headers
import UdpOptions.Proofs.Datagrams
import UdpOptions.Proofs.OptionScan
import UdpOptions.Proofs.OptionLoop
import UdpOptions.Proofs.ReceivePath
import UdpOptions.Proofs.ReceiveSafety
import UdpOptions.Proofs.Footprint
import UdpOptions.Proofs.LegacyData
import UdpOptions.Proofs.Assembly
import UdpOptions.Library.StableSort
import UdpOptions.Proofs.SerializedArea
import UdpOptions.Proofs.CanonicalOptions
import UdpOptions.Proofs.RoundTrip
import UdpOptions.Proofs.FragmentDatagrams
import UdpOptions.Proofs.SendPath
import UdpOptions.Proofs.FragmentedRoundTrip
import UdpOptions.Proofs.HandOver
import UdpOptions.Proofs.Provenance
import UdpOptions.Proofs.ReassembledDelivery
import UdpOptions.Proofs.FatalOptions
import UdpOptions.Proofs.Prefilter
import UdpOptions.Proofs.ReportedOptions
import UdpOptions.Proofs.PartialLife
import UdpOptions.Proofs.Duplicates
import UdpOptions.Proofs.ArrivalOrder
import UdpOptions.Proofs.RequiredOcs
import UdpOptions.Library.PrefixCode
import UdpOptions.Proofs.OptionGrammar
import UdpOptions.Proofs.CanonicalForm
import UdpOptions.Proofs.SendBudget
import UdpOptions.Proofs.Identifications
import UdpOptions.Library.Divisions
import UdpOptions.Proofs.SplitMinimal
import UdpOptions.Cli
import UdpOptions.Proofs.IdentificationUse
import UdpOptions.Proofs.OcsDetection
import UdpOptions.Proofs.SerializerAcceptance
import UdpOptions.Proofs.Coalescing
import UdpOptions.Proofs.CoalescedRuns
import UdpOptions.Proofs.PendingCap
import UdpOptions.Proofs.AgeBound
import UdpOptions.Proofs.TrailingBytes
import UdpOptions.Proofs.FragmentBoundary
import UdpOptions.Proofs.Checksums
import UdpOptions.Options.Typed
import UdpOptions.Proofs.AssembledDatagrams
import UdpOptions.Proofs.TypedCodecs
import UdpOptions.Proofs.Demultiplexer
import UdpOptions.Proofs.HexInput
import UdpOptions.Proofs.FirstInstance
import UdpOptions.Proofs.Transparency
import UdpOptions.EvalCheck
import UdpOptions.Proofs.CheckerTotality
import UdpOptions.Proofs.CheckedPackets
import UdpOptions.Proofs.CheckedSequences
import UdpOptions.RawSocket
import UdpOptions.Peer
import UdpOptions.Proofs.Shipments
import UdpOptions.Proofs.RawReceive
import UdpOptions.Proofs.Imprints
import UdpOptions.Proofs.Link
import UdpOptions.Proofs.LinkInvariant
import UdpOptions.Proofs.LinkSafety
import UdpOptions.Proofs.LinkProgress
import UdpOptions.Cli.Send
import UdpOptions.Proofs.WireFaults
import UdpOptions.Library.Accounts
import UdpOptions.Proofs.LinkAccounts
import UdpOptions.Proofs.LinkComplete
import UdpOptions.Library.Json
import UdpOptions.Cli.Recv
import UdpOptions.EvalCheck.Artifacts
import UdpOptions.Proofs.Artifacts
import UdpOptions.Proofs.ToolRuns
import UdpOptions.Proofs.Evaluation
import UdpOptions.Library.Crc
import UdpOptions.EvalCheck.Crc
import UdpOptions.Proofs.Crc32c
import UdpOptions.Proofs.AlteredData
import UdpOptions.Proofs.RequiredApc
import UdpOptions.Proofs.AcceptedAreas
import UdpOptions.Proofs.AcceptedOptions
