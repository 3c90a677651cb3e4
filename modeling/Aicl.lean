import Aicl.CoreRust.DecoderProperties
import Aicl.CoreRust.HeaderCorruption
import Aicl.CoreRust.ViewAccess
import Aicl.CoreRust.PacketRoundTrip
import Aicl.CoreRust.CallerBuffer
import Aicl.CoreRust.Capability
import Aicl.CoreRust.Gate
import Aicl.CoreRust.LocalRingQueue
import Aicl.CoreRust.SessionRuns
import Aicl.CoreRust.SessionClosing
import Aicl.CoreRust.Dispatch
import Aicl.CoreRust.BufferRuns
import Aicl.CoreCpp.Adapter
import Aicl.CoreCpp.Cancel
import Aicl.CoreCpp.Context
import Aicl.Transport.SharedMemoryRuns
import Aicl.Foundation.Regex
import Aicl.Transport.Address
import Aicl.Bin.StreamRuns
import Aicl.Bin.OperandRoundTrip
import Aicl.Bin.ReadBack
import Aicl.Bin.Trailers
import Aicl.Bin.Consumption
import Aicl.Bin.DecodeErrors
import Aicl.Semantic.Inputs
import Aicl.Semantic.Envelope
import Aicl.Semantic.Mediation
import Aicl.Sdk.Model
import Aicl.Sdk.Runtime
import Aicl.Interop.Decoders
import Aicl.Interop.PythonToRust
import Aicl.Interop.RustToPython
import Aicl.CoreRust.GatePolicy
import Aicl.Bin.PacketSizes
import Aicl.CoreRust.PayloadBound
import Aicl.Bin.NameLists
import Aicl.Bin.Accessors
import Aicl.Bin.StreamBuffer
import Aicl.Bin.EncodeErrors
import Aicl.Semantic.EncodingErrors
import Aicl.Foundation.Truncation
import Aicl.Semantic.FastSections
import Aicl.Foundation.Hex
import Aicl.Semantic.FastCodec
import Aicl.Semantic.FastActionCodec
import Aicl.Semantic.FastTruncation
import Aicl.CoreRust.Router
import Aicl.CoreRust.Connection
import Aicl.CoreCpp.BufferRegistry
import Aicl.CoreRust.BufferPool
import Aicl.CoreRust.RingSlots
import Aicl.CoreRust.SlotMetadata
import Aicl.CoreRust.Instruction
import Aicl.CoreRust.PacketBuilder
import Aicl.CoreCpp.Labels
import Aicl.Foundation.Ledger
import Aicl.NativeCpp.Llama
import Aicl.Sdk.Connect
import Aicl.Sdk.NativeViews
import Aicl.Sdk.Cancellation
import Aicl.Foundation.SparseDict
import Aicl.Semantic.DictForm
import Aicl.Foundation.PrefixFree
import Aicl.CoreRust.OperandLocality
import Aicl.Foundation.Checked
import Aicl.Foundation.Logged
import Aicl.CoreRust.OperandItems
import Aicl.CoreRust.OverflowChecks
import Aicl.CoreRust.Reservations
import Aicl.Interop.Varints
import Aicl.CoreCpp.Tensor
import Aicl.CoreRust.LocalChannel
import Aicl.Foundation.CellRelations
import Aicl.Foundation.PartialService
import Aicl.CoreRust.BufferOwners
import Aicl.CoreRust.AbiHeap
import Aicl.Interop.Streams
import Aicl.CoreRust.Admission
import Aicl.Interop.Relay
import Aicl.Foundation.Depths
import Aicl.CoreRust.SizeChecks
import Aicl.Interop.Actions
import Aicl.Foundation.NumberedStore
import Aicl.CoreCpp.AdapterRuns
import Aicl.Interop.Corruption
import Aicl.CoreRust.DirectDispatch
import Aicl.Sdk.Exchange
import Aicl.Sdk.Closing
import Aicl.Sdk.Numbering
import Aicl.Semantic.Conversation
import Aicl.Semantic.ActionRing
