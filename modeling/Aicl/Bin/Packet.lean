import Aicl.Bin.Operands
import Aicl.Isa.Frame

/-!
# Packets of the Python package

{lit}`Packet` of {lit}`aicl/bin/codec_packet.py` with its rich fields, and the
encoder: {lit}`build_payload`, {lit}`_append_extensions`, {lit}`pack_header` of
{lit}`aicl/bin/header.py` and {lit}`encode` of {lit}`aicl/bin/codec_api.py`.
Integers are unbounded, floats are doubles kept as bit patterns, and strings have
no lone surrogates.  The native byte order is little-endian.  The checksum
function is a parameter.

Main definitions:

- Definition {lit}`Packet.appendExtensions`: the vendor operands of the rich
  fields.
- Definition {lit}`encode`: a packet to its frame.
-/

namespace Aicl.Bin

/-! ## Operations -/

/-- The opcodes of {lit}`OPERATION_NAMES`. -/
def operationNames : List Int :=
  [0x00, 0x01, 0x02, 0x03, 0x04, 0x05, 0x06, 0x07, 0x08, 0x09, 0x0A,
   0x10, 0x11, 0x12, 0x13,
   0x20, 0x21, 0x22, 0x23, 0x24,
   0x30, 0x31, 0x32,
   0x40, 0x41, 0x42, 0x43, 0x44, 0x45, 0x46,
   0x50, 0x51, 0x52,
   0x60, 0x61, 0x62]

/-- {lit}`is_vendor` of {lit}`ops.py`. -/
def isVendorOp (opcode : Int) : Bool := 0xF0 ≤ opcode ∧ opcode ≤ 0xFF

/-- {lit}`is_assigned`. -/
def isAssigned (opcode : Int) : Bool := opcode ∈ operationNames ∨ isVendorOp opcode

/-! ## Rich fields -/

/-- A participant in the AICL network. -/
structure Identity where
  idType : Int
  name : Utf8String
  instanceId : Int := 0
deriving DecidableEq

/-- Quality-of-service parameters. -/
structure QoS where
  priorityClass : Int
  reliability : Int
  ordering : Int
  deliveryMode : Int
  maxRetries : Int
  retryDelayMs : Int
deriving DecidableEq

/-- A single provenance entry. -/
structure TraceEntry where
  actorType : Int
  actorName : Utf8String
  action : Utf8String
  timestampMs : Int
  durationUs : Int
deriving DecidableEq

/-- Chunking metadata for fragmented messages. -/
structure ChunkInfo where
  totalChunks : Int
  chunkIndex : Int
  originalSize : Int
  chunkOffset : Int
  chunkSize : Int
deriving DecidableEq

/-- Error information carried in error packets. -/
structure ErrorInfo where
  errorCode : Int
  severity : Int
  message : Utf8String
  details : Option Utf8String := none
deriving DecidableEq

/-- The default {lit}`ack_type`. -/
def ackName : Utf8String := ⟨[0x61, 0x63, 0x6B], by decide⟩

/-- Acknowledgement information; its type is not written. -/
structure AckInfo where
  ackType : Utf8String := ackName
  message : Utf8String := .empty
deriving DecidableEq

/-- Reference to external data. -/
structure BlobRef where
  refType : Int
  size : Int
  offset : Int
  identifier : Utf8String
deriving DecidableEq

/-- Backpressure information. -/
structure Backpressure where
  queueDepth : Int
  maxQueue : Int
  dropReason : Int
  retryAfterMs : Int
deriving DecidableEq

/-- Descriptor for invoking an AI model. -/
structure ModelInvocation where
  modelName : Utf8String
  task : Utf8String
  parametersJson : Utf8String
  timeoutMs : Int := 5000
deriving DecidableEq

/-- Descriptor for invoking an external tool. -/
structure ToolInvocation where
  toolName : Utf8String
  parametersJson : Utf8String
  timeoutMs : Int := 5000
deriving DecidableEq

/-! ## Packets -/

/-- {lit}`CURRENT_VERSION`. -/
def currentVersion : Int := 0x0100

/-- {lit}`SUPPORTED_VERSIONS`. -/
def supportedVersions : List Int := [0x0100]

/-- {lit}`FLAG_REQUEST`. -/
def FLAG_REQUEST : Int := 0x0001

/-- {lit}`FLAG_HAS_TRAILER`. -/
def FLAG_HAS_TRAILER : Int := 0x0100

/-- A packet after {lit}`__post_init__`: its three identifiers are there and have
sixteen bytes, and its symbols are values that the language can build.  A value of
{lit}`metadata` is kept as its {lit}`str`. -/
structure Packet where
  version : Int := currentVersion
  flags : Int := FLAG_REQUEST
  sessionId : Bytes
  messageId : Bytes
  correlationId : Bytes := List.replicate 16 0
  origin : Option Identity := none
  targets : List Utf8String := []
  operation : Int := 0
  intent : Utf8String := .empty
  symbols : List Symbol := []
  responseSymbols : List Symbol := []
  confidence : UInt64 := 0x3FF0000000000000
  priority : Int := 128
  deadlineMs : Int := 0
  capabilities : List Utf8String := []
  qos : Option QoS := none
  security : Option Bytes := none
  trace : List TraceEntry := []
  chunkInfo : Option ChunkInfo := none
  blobRefs : List BlobRef := []
  backpressure : Option Backpressure := none
  errorInfo : Option ErrorInfo := none
  ackInfo : Option AckInfo := none
  targetCaps : List Utf8String := []
  schemaId : Utf8String := .empty
  streamId : Option Bytes := none
  partialResult : Option Bytes := none
  modelInvocation : Option ModelInvocation := none
  toolInvocation : Option ToolInvocation := none
  metadata : List (Utf8String × Utf8String) := []
  sessionId_length : sessionId.length = 16
  messageId_length : messageId.length = 16
  correlationId_length : correlationId.length = 16
  symbols_wellFormed : ∀ s ∈ symbols, s.All Symbol.WellFormed
  responseSymbols_wellFormed : ∀ s ∈ responseSymbols, s.All Symbol.WellFormed
  metadata_nodupKeys : Dict.NodupKeys metadata

/-- An empty list of symbols is well formed. -/
theorem noSymbols_wellFormed : ∀ s ∈ ([] : List Symbol), s.All Symbol.WellFormed := by simp

/-- Empty metadata has no key twice. -/
theorem noMetadata_nodupKeys : Dict.NodupKeys ([] : List (Utf8String × Utf8String)) :=
  List.nodup_nil

/-! ## Extensions -/

def EXT_SESSION_ID : UInt8 := 0x80
def EXT_ORIGIN : UInt8 := 0x81
def EXT_TARGETS : UInt8 := 0x82
def EXT_INTENT : UInt8 := 0x83
def EXT_RESPONSE_SYMBOLS : UInt8 := 0x84
def EXT_CONFIDENCE : UInt8 := 0x85
def EXT_PRIORITY : UInt8 := 0x86
def EXT_CAPABILITIES : UInt8 := 0x87
def EXT_QOS : UInt8 := 0x88
def EXT_SECURITY : UInt8 := 0x89
def EXT_TRACE_ENTRY : UInt8 := 0x8A
def EXT_CHUNK_INFO : UInt8 := 0x8B
def EXT_BLOB_REF : UInt8 := 0x8C
def EXT_BACKPRESSURE : UInt8 := 0x8D
def EXT_ERROR_INFO : UInt8 := 0x8E
def EXT_ACK_INFO : UInt8 := 0x8F
def EXT_TARGET_CAPS : UInt8 := 0x90
def EXT_SCHEMA_ID : UInt8 := 0x91
def EXT_STREAM_ID : UInt8 := 0x92
def EXT_PARTIAL_RESULT : UInt8 := 0x93
def EXT_MODEL_INVOCATION : UInt8 := 0x94
def EXT_TOOL_INVOCATION : UInt8 := 0x95
def EXT_METADATA : UInt8 := 0x96

/-- A field of a {lit}`struct` format: sign and width. -/
abbrev Format := Bool × Nat

/-- {lit}`B`. -/
def fmtB : Format := (false, 1)

/-- {lit}`H`. -/
def fmtH : Format := (false, 2)

/-- {lit}`I`. -/
def fmtI : Format := (false, 4)

/-- {lit}`i`. -/
def fmti : Format := (true, 4)

/-- {lit}`q`. -/
def fmtq : Format := (true, 8)

/-- {lit}`struct.pack` of several big-endian fields. -/
def pack : List (Format × Int) → PyResult Bytes
  | [] => pure []
  | (f, v) :: fields => do
      let raw ← packInt f.1 f.2 v
      let rest ← pack fields
      pure (raw ++ rest)

/-- {lit}`struct.pack("BBI", …)` in native layout: the third field is aligned to
four bytes and little-endian. -/
def packNativeBBI (a b c : Int) : PyResult Bytes := do
  let a ← packInt false 1 a
  let b ← packInt false 1 b
  let c ← packInt false 4 c
  pure (a ++ (b ++ ([0, 0] ++ c.reverse)))

/-- {lit}`b",".join(…)` of encoded strings. -/
def joinComma (names : List Utf8String) : Bytes :=
  ([0x2C] : Bytes).intercalate (names.map (·.bytes))

/-- {lit}`Identity.to_bytes`. -/
def Identity.toBytes (o : Identity) : PyResult Bytes := do
  if 255 < o.name.length then
    .err (.valueError s!"Identity name too long: {o.name.length} > 255")
  else
    let head ← pack [(fmtB, o.idType), (fmtB, o.name.length)]
    let tail ← pack [(fmtI, o.instanceId)]
    pure (head ++ (o.name.bytes ++ tail))

/-- The bytes of a {lit}`QoS`. -/
def QoS.toBytes (q : QoS) : PyResult Bytes :=
  pack [(fmtB, q.priorityClass), (fmtB, q.reliability), (fmtB, q.ordering), (fmtB, q.deliveryMode),
    (fmtI, q.maxRetries), (fmtI, q.retryDelayMs)]

/-- The bytes of a {lit}`TraceEntry`. -/
def TraceEntry.toBytes (e : TraceEntry) : PyResult Bytes := do
  let head ← pack [(fmtB, e.actorType), (fmtB, e.actorName.length), (fmtB, e.action.length)]
  let tail ← pack [(fmtq, e.timestampMs), (fmti, e.durationUs)]
  pure (head ++ (e.actorName.bytes ++ (e.action.bytes ++ tail)))

/-- The bytes of a {lit}`ChunkInfo`. -/
def ChunkInfo.toBytes (c : ChunkInfo) : PyResult Bytes :=
  pack [(fmtB, c.totalChunks), (fmtB, c.chunkIndex), (fmtI, c.originalSize),
    (fmtI, c.chunkOffset), (fmtI, c.chunkSize)]

/-- The bytes of a {lit}`BlobRef`. -/
def BlobRef.toBytes (br : BlobRef) : PyResult Bytes := do
  let head ← packNativeBBI br.refType br.identifier.length br.size
  let offset ← pack [(fmtI, br.offset)]
  pure (head ++ (offset ++ br.identifier.bytes))

/-- The bytes of a {lit}`Backpressure`. -/
def Backpressure.toBytes (bp : Backpressure) : PyResult Bytes :=
  pack [(fmtI, bp.queueDepth), (fmtI, bp.maxQueue), (fmtH, bp.dropReason), (fmtH, bp.retryAfterMs)]

/-- The bytes of an {lit}`ErrorInfo`. -/
def ErrorInfo.toBytes (e : ErrorInfo) : PyResult Bytes := do
  let details := e.details.getD .empty
  let head ← pack [(fmtH, e.errorCode), (fmtH, e.severity), (fmtB, e.message.length)]
  let len ← pack [(fmtH, details.length)]
  pure (head ++ (e.message.bytes ++ (len ++ details.bytes)))

/-- The bytes of an {lit}`AckInfo`. -/
def AckInfo.toBytes (a : AckInfo) : PyResult Bytes := do
  let head ← pack [(fmtB, 0)]
  pure (head ++ a.message.bytes)

/-- The bytes of a {lit}`ModelInvocation`. -/
def ModelInvocation.toBytes (m : ModelInvocation) : PyResult Bytes := do
  let head ← pack [(fmtB, m.modelName.length), (fmtB, m.task.length), (fmtB, m.parametersJson.length)]
  let timeout ← pack [(fmtI, m.timeoutMs)]
  pure (head ++ (m.modelName.bytes ++ (m.task.bytes ++ (m.parametersJson.bytes ++ timeout))))

/-- The bytes of a {lit}`ToolInvocation`. -/
def ToolInvocation.toBytes (ti : ToolInvocation) : PyResult Bytes := do
  let head ← pack [(fmtB, ti.toolName.length), (fmtB, ti.parametersJson.length)]
  let timeout ← pack [(fmtI, ti.timeoutMs)]
  pure (head ++ (ti.toolName.bytes ++ (ti.parametersJson.bytes ++ timeout)))

/-- The bytes of {lit}`metadata`. -/
def metadataToBytes : List (Utf8String × Utf8String) → PyResult Bytes
  | [] => pure []
  | (k, v) :: items => do
      let klen ← pack [(fmtB, k.length)]
      let vlen ← pack [(fmtH, v.length)]
      let rest ← metadataToBytes items
      pure (klen ++ (k.bytes ++ (vlen ++ (v.bytes ++ rest))))

/-- {lit}`if c: ext(tag, raw)`. -/
def extIf (c : Bool) (tag : UInt8) (raw : PyResult Bytes) : PyResult (List Symbol) :=
  if c then do
    let raw ← raw
    pure [.other tag raw]
  else pure []

/-- {lit}`ext` for a field that may be missing. -/
def extOption {α : Type} (tag : UInt8) (toBytes : α → PyResult Bytes) :
    Option α → PyResult (List Symbol)
  | some a => extIf true tag (toBytes a)
  | none => pure []

/-- {lit}`ext` for a byte string that may be missing; an empty one is left out. -/
def extBytes (tag : UInt8) (value : Option Bytes) : PyResult (List Symbol) :=
  let raw := value.getD []
  extIf (!raw.isEmpty) tag (.ok raw)

/-- {lit}`ext` for every element of a list. -/
def extEach {α : Type} (tag : UInt8) (toBytes : α → PyResult Bytes) :
    List α → PyResult (List Symbol)
  | [] => pure []
  | a :: as => do
      let first ← extIf true tag (toBytes a)
      let rest ← extEach tag toBytes as
      pure (first ++ rest)

/-- Steps that append operands, one after the other. -/
def appendAll : List (PyResult (List Symbol)) → PyResult (List Symbol)
  | [] => pure []
  | step :: steps => do
      let first ← step
      let rest ← appendAll steps
      pure (first ++ rest)

namespace Packet

/-- {lit}`_append_extensions`: the operands that are appended. -/
def appendExtensions (p : Packet) : PyResult (List Symbol) :=
  appendAll
    [ extBytes EXT_SESSION_ID (some p.sessionId),
      extOption EXT_ORIGIN Identity.toBytes p.origin,
      extIf (!p.targets.isEmpty) EXT_TARGETS (.ok (joinComma p.targets)),
      extBytes EXT_INTENT (some p.intent.bytes),
      extIf (!p.responseSymbols.isEmpty) EXT_RESPONSE_SYMBOLS (encodeSymbols p.responseSymbols),
      extIf (p.confidence != 0x3FF0000000000000) EXT_CONFIDENCE (.ok (packF64 p.confidence)),
      extIf (p.priority != 128) EXT_PRIORITY (pack [(fmtB, p.priority)]),
      extIf (!p.capabilities.isEmpty) EXT_CAPABILITIES (.ok (joinComma p.capabilities)),
      extOption EXT_QOS QoS.toBytes p.qos,
      extBytes EXT_SECURITY p.security,
      extEach EXT_TRACE_ENTRY TraceEntry.toBytes p.trace,
      extOption EXT_CHUNK_INFO ChunkInfo.toBytes p.chunkInfo,
      extEach EXT_BLOB_REF BlobRef.toBytes p.blobRefs,
      extOption EXT_BACKPRESSURE Backpressure.toBytes p.backpressure,
      extOption EXT_ERROR_INFO ErrorInfo.toBytes p.errorInfo,
      extOption EXT_ACK_INFO AckInfo.toBytes p.ackInfo,
      extIf (!p.targetCaps.isEmpty) EXT_TARGET_CAPS (.ok (joinComma p.targetCaps)),
      extBytes EXT_SCHEMA_ID (some p.schemaId.bytes),
      extBytes EXT_STREAM_ID p.streamId,
      extBytes EXT_PARTIAL_RESULT p.partialResult,
      extOption EXT_MODEL_INVOCATION ModelInvocation.toBytes p.modelInvocation,
      extOption EXT_TOOL_INVOCATION ToolInvocation.toBytes p.toolInvocation,
      extIf (!p.metadata.isEmpty) EXT_METADATA (metadataToBytes p.metadata) ]

/-- {lit}`self.operation & 0xFF`. -/
def opcodeByte (p : Packet) : UInt8 := UInt8.ofNat (p.operation % 256).toNat

/-- {lit}`build_payload`. -/
def buildPayload (p : Packet) : PyResult Bytes := do
  let extensions ← p.appendExtensions
  let operands := p.symbols ++ extensions
  let count ← encodeVarint operands.length
  let body ← encodeItems operands
  pure (p.opcodeByte :: (count ++ body))

end Packet

/-! ## Frames -/

section Checksum

variable (crc32 : Bytes → UInt32)

/-- {lit}`pack_header`.  Its assertion on the length of the prefix cannot fail
after the checks before it. -/
def packHeader (version flags : Int) (messageId correlationId : Bytes) (deadlineMs : Int)
    (payloadLength : Nat) : PyResult Bytes := do
  raiseIf (version ∉ supportedVersions) .headerError s!"Unsupported version: {version}"
  raiseIf (messageId.length ≠ 16) .headerError s!"message_id must be 16 bytes, got {messageId.length}"
  raiseIf (correlationId.length ≠ 16) .headerError
    s!"correlation_id must be 16 bytes, got {correlationId.length}"
  raiseIf (0xFFFFFFFF < payloadLength) .headerError s!"payload_length too large: {payloadLength}"
  raiseIf (0xFFFFFFFF < deadlineMs) .headerError s!"deadline_ms too large: {deadlineMs}"
  let words ← pack [(fmtH, version), (fmtH, flags)]
  let tail ← pack [(fmtI, deadlineMs), (fmtI, payloadLength)]
  let covered := Isa.Frame.magic ++ (words ++ (messageId ++ (correlationId ++
    (tail ++ List.replicate 4 0))))
  pure (covered ++ BigEndian.toBytes 4 (crc32 covered).toNat)

/-- {lit}`encode`. -/
def encode (packet : Packet) (checksum : Bool) : PyResult Bytes := do
  let payload ← packet.buildPayload
  let flags := if checksum then packet.flags.lor FLAG_HAS_TRAILER else packet.flags
  let header ← packHeader crc32 packet.version flags packet.messageId packet.correlationId
    packet.deadlineMs payload.length
  let result := header ++ payload
  pure (if checksum then result ++ BigEndian.toBytes 4 (crc32 result).toNat else result)

end Checksum

end Aicl.Bin
