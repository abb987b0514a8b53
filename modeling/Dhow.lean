import Dhow.Lib.Bytes
import Dhow.Lib.Bitmap
import Dhow.Lib.SystemCalls
import Dhow.Crc32c
import Dhow.Chunker
import Dhow.Session
import Dhow.Frame
import Dhow.Blake3Reference
import Dhow.Resume
import Dhow.Pipeline
import Dhow.Decoder
import Dhow.ReceiverRecord
import Dhow.RaptorQSystematic
import Dhow.ReferenceSession
import Dhow.Delivery
import Dhow.Poisoning
import Dhow.Rejection
import Dhow.Binding
import Dhow.CrashConsistency
import Dhow.ManifestVerify
import Dhow.XChaCha20Poly1305
import Dhow.Dataset
import Dhow.Pack
import Dhow.PackRoundTrip
import Dhow.Send
import Dhow.Receive
import Dhow.Inspect
import Dhow.Partition
import Dhow.Recordable
import Dhow.EndToEnd
import Dhow.NameRules
import Dhow.Reconciliation
import Dhow.HostExtraction
import Dhow.HostStore
import Dhow.HostReceive
import Dhow.HostQuiet
import Dhow.NoOutput
import Dhow.Lib.BerlekampMassey
import Dhow.Qr.Correct
import Dhow.SessionState
import Dhow.CaptureAccounting
import Dhow.Deduplication
import Dhow.ResumeGrammar
import Dhow.IndexCoverage
import Dhow.FailClosed
import Dhow.KeyFile
import Dhow.Qr.Decode
import Dhow.Qr.Capacity
import Dhow.Prefiltering
import Dhow.FrameCodec
import Dhow.DamageDetection
import Dhow.InterleaveFairness
import Dhow.Planning
import Dhow.JournalReplay
import Dhow.Containment
import Dhow.Discrepancies
import Dhow.KeyExpansion
import Dhow.SessionHeader
import Dhow.SymbolTotal
import Dhow.ManifestBuild
import Dhow.ArchiveExact
import Dhow.BoundedExtraction
import Dhow.Lib.Image
import Dhow.Optical.Bitmap
import Dhow.Optical.Thresholds
import Dhow.Optical.Rendering
import Dhow.Lib.ByteReader
import Dhow.Netpbm
import Dhow.Netpbm.Grammar
import Dhow.Netpbm.Images
import Dhow.Netpbm.RoundTrip
import Dhow.Netpbm.Exhaustion
import Dhow.Lib.Quoting
import Dhow.CaptureCommand
import Dhow.Lib.Bisection
import Dhow.QrSizing
import Dhow.Lib.Recorded
import Dhow.Lib.MachineNat
import Dhow.ResumeOverflow
import Dhow.Optical.Sampling
import Dhow.OpticalLink
import Dhow.Lib.PaddedDecimal
import Dhow.FrameDirectory
import Dhow.DirectoryTransfer
import Dhow.OpticalTransfer
import Dhow.KeyLoading
import Dhow.Keygen
import Dhow.RecordedProgress
import Dhow.Sittings
import Dhow.Lib.ThreadLocal
import Dhow.Abi.Threads
