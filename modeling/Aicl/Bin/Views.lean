import Aicl.Bin.Filing
import Aicl.Bin.OperandRoundTrip
import Aicl.Bin.Packet

/-!
# The fields of a view

The properties of {lit}`PacketView` of {lit}`aicl/bin/codec_view.py` that read the
rich fields back out of the vendor operands, with {lit}`Identity.from_bytes` of
{lit}`aicl/bin/types.py`.  A property returns or raises; it raises the exceptions
of indexing, {lit}`struct` and string decoding.

Main definitions:

- Definition {lit}`readOr`: a property of the first value under a tag.
- Definition {lit}`readEach`: a property of all values under a tag.
- The properties themselves, under the names of the source.
-/

namespace Aicl.Bin

/-! ## Reading the values of operands -/

/-- {lit}`data[i]` as a number. -/
def readByte (data : Bytes) (i : Nat) : PyResult Nat := do
  let b ← getItem data i
  pure b.toNat

/-- {lit}`struct.unpack_from` of one signed big-endian number. -/
def unpackSigned (w : Nat) (data : Bytes) (offset : Nat) : PyResult Int := do
  let raw ← unpackFrom w data offset
  pure (unpackInt true raw)

/-- {lit}`data[a:b].decode()`. -/
def readText (data : Bytes) (a b : Nat) : PyResult Utf8String := decodeUtf8 (getSlice data a b)

/-- {lit}`read(v) if v else default`, for a value that may be missing. -/
def readOr {α : Type} (default : α) (read : Bytes → PyResult α) : Option Bytes → PyResult α
  | some v => if v.isEmpty then pure default else read v
  | none => pure default

/-- The loop over all values under a tag. -/
def readEach {α : Type} (read : Bytes → PyResult α) : List Bytes → PyResult (List α)
  | [] => pure []
  | d :: ds => do
      let a ← read d
      let as ← readEach read ds
      pure (a :: as)

/-- {lit}`[t.decode() for t in parts if t]`. -/
def decodeNames : List Bytes → PyResult (List Utf8String)
  | [] => pure []
  | t :: ts =>
      if t.isEmpty then decodeNames ts
      else do
        let name ← decodeUtf8 t
        let names ← decodeNames ts
        pure (name :: names)

/-- {lit}`[t.decode() for t in v.split(b",") if t]`. -/
def splitNames (v : Bytes) : PyResult (List Utf8String) := decodeNames (v.splitOn 0x2C)

/-! ## Records -/

/-- {lit}`Identity.from_bytes`. -/
def Identity.fromBytes (data : Bytes) : PyResult Identity :=
  if data.length < 2 then .err (.valueError "Identity too short")
  else do
    let idType ← readByte data 0
    let nameLen ← readByte data 1
    if data.length < 2 + nameLen + 4 then .err (.valueError "Identity truncated")
    else do
      let name ← readText data 2 (2 + nameLen)
      let instanceId ← unpackWord 4 data (2 + nameLen)
      pure { idType, name, instanceId }

/-- The {lit}`QoS` of a value; a short one has none. -/
def QoS.ofValue (v : Bytes) : PyResult (Option QoS) :=
  if v.length < 12 then pure none
  else do
    let priorityClass ← readByte v 0
    let reliability ← readByte v 1
    let ordering ← readByte v 2
    let deliveryMode ← readByte v 3
    let maxRetries ← unpackWord 4 v 4
    let retryDelayMs ← unpackWord 4 v 8
    pure (some { priorityClass, reliability, ordering, deliveryMode, maxRetries, retryDelayMs })

/-- The {lit}`TraceEntry` of a value. -/
def TraceEntry.ofValue (d : Bytes) : PyResult TraceEntry := do
  let actorType ← readByte d 0
  let nl ← readByte d 1
  let al ← readByte d 2
  let off := 3
  let actorName ← readText d off (off + nl)
  let off := off + nl
  let action ← readText d off (off + al)
  let off := off + al
  let timestampMs ← unpackSigned 8 d off
  let off := off + 8
  let durationUs ← unpackSigned 4 d off
  pure { actorType, actorName, action, timestampMs, durationUs }

/-- The {lit}`ChunkInfo` of a value; a short one has none. -/
def ChunkInfo.ofValue (v : Bytes) : PyResult (Option ChunkInfo) :=
  if v.length < 14 then pure none
  else do
    let totalChunks ← readByte v 0
    let chunkIndex ← readByte v 1
    let originalSize ← unpackWord 4 v 2
    let chunkOffset ← unpackWord 4 v 6
    let chunkSize ← unpackWord 4 v 10
    pure (some { totalChunks, chunkIndex, originalSize, chunkOffset, chunkSize })

/-- A value of any of the types that the fields of a {lit}`BlobRef` document; the
constructor does not check which one it is given. -/
inductive PyValue where
  | int (value : Int)
  | str (value : Utf8String)
deriving DecidableEq

/-- A {lit}`BlobRef` with whatever values were assigned to its fields. -/
structure BlobRefObject where
  refType : PyValue
  size : PyValue
  offset : PyValue
  identifier : PyValue
deriving DecidableEq

/-- A {lit}`BlobRef` whose fields have the documented types. -/
def BlobRef.object (br : BlobRef) : BlobRefObject where
  refType := .int br.refType
  size := .int br.size
  offset := .int br.offset
  identifier := .str br.identifier

/-- The {lit}`BlobRef` of a value: the arguments of the constructor are positional
and in the order {lit}`ref_type`, {lit}`identifier`, {lit}`size`, {lit}`offset`. -/
def BlobRef.ofValue (d : Bytes) : PyResult BlobRefObject := do
  let refType ← readByte d 0
  let il ← readByte d 1
  let size ← unpackWord 4 d 2
  let offset ← unpackWord 4 d 6
  let identifier ← readText d 10 (10 + il)
  pure { refType := .int refType, size := .str identifier, offset := .int size, identifier := .int offset }

/-- The {lit}`Backpressure` of a value; a short one has none. -/
def Backpressure.ofValue (v : Bytes) : PyResult (Option Backpressure) :=
  if v.length < 12 then pure none
  else do
    let queueDepth ← unpackWord 4 v 0
    let maxQueue ← unpackWord 4 v 4
    let dropReason ← unpackWord 2 v 8
    let retryAfterMs ← unpackWord 2 v 10
    pure (some { queueDepth, maxQueue, dropReason, retryAfterMs })

/-- The {lit}`ErrorInfo` of a value; a short one has none. -/
def ErrorInfo.ofValue (v : Bytes) : PyResult (Option ErrorInfo) :=
  if v.length < 7 then pure none
  else do
    let ec ← unpackWord 2 v 0
    let sev ← unpackWord 2 v 2
    let ml ← readByte v 4
    let off := 5
    if v.length < off + ml then pure none
    else do
      let msg ← readText v off (off + ml)
      let off := off + ml
      let dl ← if off + 2 ≤ v.length then unpackWord 2 v off else pure 0
      let off := off + 2
      if dl = 0 then
        pure (some { errorCode := ec, severity := sev, message := msg, details := none })
      else do
        let det ← readText v off (off + dl)
        pure (some { errorCode := ec, severity := sev, message := msg, details := some det })

/-- The {lit}`AckInfo` of a value: the one argument of the constructor is its
{lit}`ack_type`. -/
def AckInfo.ofValue (v : Bytes) : PyResult (Option AckInfo) := do
  let text ← decodeUtf8 (v.drop 1)
  pure (some { ackType := text })

/-- The {lit}`ModelInvocation` of a value; a short one has none. -/
def ModelInvocation.ofValue (v : Bytes) : PyResult (Option ModelInvocation) :=
  if v.length < 3 then pure none
  else do
    let nl ← readByte v 0
    let tl ← readByte v 1
    let pl ← readByte v 2
    let off := 3
    let modelName ← readText v off (off + nl)
    let off := off + nl
    let task ← readText v off (off + tl)
    let off := off + tl
    let parametersJson ← readText v off (off + pl)
    let off := off + pl
    let timeoutMs ← if off + 4 ≤ v.length then unpackWord 4 v off else pure 0
    pure (some { modelName, task, parametersJson, timeoutMs })

/-- The {lit}`ToolInvocation` of a value; a short one has none. -/
def ToolInvocation.ofValue (v : Bytes) : PyResult (Option ToolInvocation) :=
  if v.length < 2 then pure none
  else do
    let nl ← readByte v 0
    let pl ← readByte v 1
    let off := 2
    let toolName ← readText v off (off + nl)
    let off := off + nl
    let parametersJson ← readText v off (off + pl)
    let off := off + pl
    let timeoutMs ← if off + 4 ≤ v.length then unpackWord 4 v off else pure 0
    pure (some { toolName, parametersJson, timeoutMs })

/-- The loop of {lit}`metadata`, for as many rounds as the fuel allows. -/
def metadataLoop (v : Bytes) : Nat → List (Utf8String × Utf8String) → Nat →
    PyResult (List (Utf8String × Utf8String))
  | 0, _, _ => .panic
  | fuel + 1, result, pos =>
      if pos < v.length then do
        let kl ← readByte v pos
        let pos := pos + 1
        if v.length < pos + kl then pure result
        else do
          let k ← readText v pos (pos + kl)
          let pos := pos + kl
          let vl ← unpackWord 2 v pos
          let pos := pos + 2
          if v.length < pos + vl then pure result
          else do
            let value ← readText v pos (pos + vl)
            metadataLoop v fuel (Dict.set k value result) (pos + vl)
      else pure result

/-- The metadata of a value: every round takes at least three bytes. -/
def metadataOfValue (v : Bytes) : PyResult (List (Utf8String × Utf8String)) :=
  metadataLoop v (v.length + 1) [] 0

/-- {lit}`_decode_symbol_seq`, the loop of {lit}`decode_symbols` from the start. -/
def decodeSymbolSeq (data : Bytes) : PyResult (List Symbol × Nat) := decodeSymbols data 0

/-! ## Properties -/

/-- {lit}`FLAG_RESPONSE`. -/
def FLAG_RESPONSE : Nat := 0x0002

/-- {lit}`FLAG_STREAM_CHUNK`. -/
def FLAG_STREAM_CHUNK : Nat := 0x0004

/-- {lit}`FLAG_STREAM_END`. -/
def FLAG_STREAM_END : Nat := 0x0008

/-- {lit}`FLAG_ERROR`. -/
def FLAG_ERROR : Nat := 0x0010

/-- {lit}`FLAG_CANCEL`. -/
def FLAG_CANCEL : Nat := 0x0020

namespace PacketView

variable (v : PacketView)

/-- {lit}`bool(self.flags & flag)`. -/
def hasFlag (flag : Nat) : Bool := v.flags &&& flag ≠ 0

/-- {lit}`has_trailer`. -/
def hasTrailer : Bool := v.hasFlag FLAG_HAS_TRAILER.toNat

/-- {lit}`is_request`. -/
def isRequest : Bool := v.hasFlag FLAG_REQUEST.toNat

/-- {lit}`is_response`. -/
def isResponse : Bool := v.hasFlag FLAG_RESPONSE

/-- {lit}`is_error`. -/
def isError : Bool := v.hasFlag FLAG_ERROR

/-- {lit}`is_stream_chunk`. -/
def isStreamChunk : Bool := v.hasFlag FLAG_STREAM_CHUNK

/-- {lit}`is_stream_end`. -/
def isStreamEnd : Bool := v.hasFlag FLAG_STREAM_END

/-- {lit}`_ext_one`. -/
def extOne (tag : UInt8) : Option Bytes := (v.extAll tag).head?

/-- {lit}`session_id`. -/
def sessionId : Option Bytes := v.extOne EXT_SESSION_ID

/-- {lit}`origin`. -/
def origin : PyResult (Option Identity) :=
  readOr none (fun raw => do
    let o ← Identity.fromBytes raw
    pure (some o)) (v.extOne EXT_ORIGIN)

/-- {lit}`targets`. -/
def targets : PyResult (List Utf8String) := readOr [] splitNames (v.extOne EXT_TARGETS)

/-- {lit}`intent`. -/
def intent : PyResult Utf8String := readOr .empty decodeUtf8 (v.extOne EXT_INTENT)

/-- {lit}`response_symbols`. -/
def responseSymbols : PyResult (List Symbol) :=
  readOr [] (fun raw => do
    let (syms, _) ← decodeSymbolSeq raw
    pure syms) (v.extOne EXT_RESPONSE_SYMBOLS)

/-- {lit}`confidence`. -/
def confidence : PyResult UInt64 :=
  readOr 0x3FF0000000000000 (fun raw => do
    let n ← unpackWord 8 raw 0
    pure (UInt64.ofNat n)) (v.extOne EXT_CONFIDENCE)

/-- {lit}`priority`. -/
def priority : PyResult Nat := readOr 128 (readByte · 0) (v.extOne EXT_PRIORITY)

/-- {lit}`capabilities`. -/
def capabilities : PyResult (List Utf8String) := readOr [] splitNames (v.extOne EXT_CAPABILITIES)

/-- {lit}`qos`. -/
def qos : PyResult (Option QoS) := readOr none QoS.ofValue (v.extOne EXT_QOS)

/-- {lit}`security`. -/
def security : Option Bytes := v.extOne EXT_SECURITY

/-- {lit}`trace`. -/
def trace : PyResult (List TraceEntry) := readEach TraceEntry.ofValue (v.extAll EXT_TRACE_ENTRY)

/-- {lit}`chunk_info`. -/
def chunkInfo : PyResult (Option ChunkInfo) := readOr none ChunkInfo.ofValue (v.extOne EXT_CHUNK_INFO)

/-- {lit}`blob_refs`. -/
def blobRefs : PyResult (List BlobRefObject) := readEach BlobRef.ofValue (v.extAll EXT_BLOB_REF)

/-- {lit}`backpressure`. -/
def backpressure : PyResult (Option Backpressure) :=
  readOr none Backpressure.ofValue (v.extOne EXT_BACKPRESSURE)

/-- {lit}`error_info`. -/
def errorInfo : PyResult (Option ErrorInfo) := readOr none ErrorInfo.ofValue (v.extOne EXT_ERROR_INFO)

/-- {lit}`ack_info`. -/
def ackInfo : PyResult (Option AckInfo) := readOr none AckInfo.ofValue (v.extOne EXT_ACK_INFO)

/-- {lit}`target_caps`. -/
def targetCaps : PyResult (List Utf8String) := readOr [] splitNames (v.extOne EXT_TARGET_CAPS)

/-- {lit}`schema_id`. -/
def schemaId : PyResult Utf8String := readOr .empty decodeUtf8 (v.extOne EXT_SCHEMA_ID)

/-- {lit}`stream_id`. -/
def streamId : Option Bytes := v.extOne EXT_STREAM_ID

/-- {lit}`partial_result`. -/
def partialResult : Option Bytes := v.extOne EXT_PARTIAL_RESULT

/-- {lit}`model_invocation`. -/
def modelInvocation : PyResult (Option ModelInvocation) :=
  readOr none ModelInvocation.ofValue (v.extOne EXT_MODEL_INVOCATION)

/-- {lit}`tool_invocation`. -/
def toolInvocation : PyResult (Option ToolInvocation) :=
  readOr none ToolInvocation.ofValue (v.extOne EXT_TOOL_INVOCATION)

/-- {lit}`metadata`. -/
def metadata : PyResult (List (Utf8String × Utf8String)) :=
  readOr [] metadataOfValue (v.extOne EXT_METADATA)

end PacketView

end Aicl.Bin
