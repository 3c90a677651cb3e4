import Aicl.CoreRust.Ffi
import Aicl.Foundation.Crc32
import Aicl.Foundation.Utf8

/-!
# Calls of a model through the native core

{lit}`Model.call` of {lit}`aicl/sdk/model.py` over {lit}`NativeTransport` of
{lit}`aicl/sdk/transport.py` and the bridge {lit}`aicl/sdk/_ffi.py`.  Arguments may
be of any type; the text that an f-string makes of one is a parameter.  A token may
be cancelled from elsewhere between the checks of a call.

Main results:

- Definition {lit}`encodeInstruction`: the frame of an instruction.
- Theorem {lit}`aiclDecode_instructionFrame`: what the core answers to such a frame.
- Theorem {lit}`Model.call_rejected`: no call gets past the core.
-/

namespace Aicl.Sdk

open CoreRust (AiclCodec AiclErrorCode FfiResult PacketView aiclDecode aiclPktViewOpcode
  aiclPktViewFlags aiclPktViewOperandCount headerSize)
open Isa.Frame

/-! ## Errors -/

/-- {lit}`_STATUS_NAMES`. -/
def statusNames : List (Nat × String) :=
  [(0, "OK"), (1, "BAD_HEADER"), (2, "UNSUPPORTED_VERSION"), (3, "TRUNCATED"), (4, "CHECKSUM"),
    (5, "PAYLOAD_TOO_LARGE"), (6, "OPCODE_INVALID"), (7, "OPERAND_COUNT"), (8, "UNKNOWN_TYPE"),
    (9, "NO_HANDLER"), (10, "EMPTY"), (11, "BUFFER_FULL"), (12, "TRANSPORT_CLOSED"),
    (13, "NULL_POINTER"), (14, "INVALID_LEN"), (100, "INTERNAL")]

/-- The name of a status code. -/
def statusName (code : Int) : String :=
  match statusNames.find? fun e => (e.1 : Int) = code with
  | some e => e.2
  | none => s!"UNKNOWN({code})"

/-- An exception of a call. -/
inductive SdkError where
  | transportError (message : String)
  | cancelledError (message : String)
  | nativeError (code : Int) (name message : String)
  | structError
deriving DecidableEq, Repr

/-- {lit}`NativeError(code, message)`. -/
def nativeError (code : Int) (message : String) : SdkError :=
  .nativeError code (statusName code) (s!"AICL native error: {statusName code} ({code})" ++
    if message = "" then "" else ": " ++ message)

/-- How a call ends. -/
abbrev SdkResult (α : Type) := Outcome SdkError α

/-- A call across the interface. -/
def liftFfi {α : Type} : FfiResult α → SdkResult α
  | .ok a => .ok a
  | .panic => .panic

/-- {lit}`check_status`. -/
def checkStatus (code : AiclErrorCode) (context : String) : SdkResult Unit :=
  Outcome.failIf (code.number ≠ 0) (nativeError code.number context)

/-! ## The native transport -/

/-- {lit}`AiclPacketView`. -/
structure AiclPacketView where
  opcode : Nat
  flags : Nat
  operandCount : Nat
deriving DecidableEq, Repr

/-- {lit}`NativeBuffer(data).as_bytes()`: the length crosses the interface as 32
bits, and there is no buffer of no bytes. -/
def nativeBuffer (data : Bytes) : SdkResult Bytes := do
  let length := data.length % 2 ^ 32
  Outcome.failIf (length = 0) (nativeError (-1) "Failed to create native buffer")
  pure (data.take length)

/-- {lit}`NativeTransport`, with the context that it owns. -/
structure NativeTransport where
  ctx : AiclCodec := .new
  closed : Bool := false

namespace NativeTransport

/-- The check of every method. -/
def checkOpen (self : NativeTransport) : SdkResult Unit :=
  Outcome.failIf (self.closed = true) (.transportError "Transport is closed")

/-- {lit}`encode`. -/
def encode (self : NativeTransport) (data : Bytes) : SdkResult Bytes := do
  self.checkOpen
  nativeBuffer data

/-- {lit}`decode`. -/
def decode (self : NativeTransport) (crc32 : Bytes → UInt32) (data : Bytes) :
    SdkResult AiclPacketView := do
  self.checkOpen
  let (status, view) ← liftFfi (aiclDecode crc32 (some self.ctx) (some data) true)
  checkStatus status "decode failed"
  let opcode ← liftFfi (aiclPktViewOpcode view)
  let flags ← liftFfi (aiclPktViewFlags view)
  let operandCount ← liftFfi (aiclPktViewOperandCount view)
  pure { opcode, flags, operandCount }

end NativeTransport

/-! ## Frames of instructions -/

/-- A decimal number, padded with zeros to eight digits. -/
def paddedText (n : Nat) : String :=
  let digits := Nat.toDigits 10 n
  String.ofList (List.replicate (8 - digits.length) '0' ++ digits)

/-- The message identifier of a count. -/
def messageIdText (counter : Nat) : Utf8String := .ofAscii ("msg-" ++ paddedText counter)

/-- {lit}`ljust(16, b"\0")[:16]`. -/
def ljust16 (bytes : Bytes) : Bytes := (bytes ++ List.replicate (16 - bytes.length) 0).take 16

/-- Sixteen bytes are left. -/
@[simp] theorem ljust16_length (bytes : Bytes) : (ljust16 bytes).length = 16 := by
  simp only [ljust16, List.length_take, List.length_append, List.length_replicate]
  omega

section

variable {α : Type} (text : α → Utf8String)

/-- The payload: the instruction and {lit}`key=value` for each argument, with zeros
between them. -/
def payloadOf (instruction : Utf8String) (kwargs : List (Utf8String × α)) : Bytes :=
  [0x00].intercalate
    (instruction.bytes :: kwargs.map fun e => e.1.bytes ++ (0x3D :: (text e.2).bytes))

/-- The frame of a payload: magic, version 1, message identifier, no flags, length. -/
def instructionFrame (msgId : Utf8String) (payload : Bytes) : Bytes :=
  magic ++ (BigEndian.toBytes 2 1 ++ (ljust16 msgId.bytes ++ (BigEndian.toBytes 2 0 ++
    (BigEndian.toBytes 4 payload.length ++ payload))))

/-- {lit}`_encode_instruction`. -/
def encodeInstruction (instruction msgId : Utf8String) (kwargs : List (Utf8String × α)) :
    SdkResult Bytes := do
  let payload := payloadOf text instruction kwargs
  Outcome.failIf (2 ^ 32 ≤ payload.length) .structError
  pure (instructionFrame msgId payload)

/-! ## Calls -/

/-- What is returned for a decoded response. -/
structure StructuredResult where
  opcode : Nat
  operands : Nat
  messageId : Utf8String

/-- A model over the native transport: the fields that a call uses. -/
structure Model where
  transport : NativeTransport := {}
  messageCounter : Nat := 0
  closed : Bool := false

/-- {lit}`token.check()`. -/
def checkToken (cancelled : Bool) : SdkResult Unit :=
  Outcome.failIf (cancelled = true) (.cancelledError "Operation cancelled")

/-- {lit}`call`: an exception becomes the data of the result.  {lit}`cancelled` says
at which of its three checks the token is cancelled. -/
def Model.call (self : Model) (crc32 : Bytes → UInt32) (instruction : Utf8String)
    (cancelled : Fin 3 → Bool) (kwargs : List (Utf8String × α)) :
    SdkResult StructuredResult × Model :=
  if self.closed then (.err (.transportError "Model is closed"), self)
  else
    let counter := self.messageCounter + 1
    let messageId := messageIdText counter
    (do
      checkToken (cancelled 0)
      let wire ← encodeInstruction text instruction messageId kwargs
      checkToken (cancelled 1)
      let responseData ← self.transport.encode wire
      checkToken (cancelled 2)
      let view ← self.transport.decode crc32 responseData
      pure { opcode := view.opcode, operands := view.operandCount, messageId },
      { self with messageCounter := counter })

end

/-! ## What the core makes of such frames -/

/-- The frame has 28 bytes more than its payload. -/
theorem instructionFrame_length (msgId : Utf8String) (payload : Bytes) :
    (instructionFrame msgId payload).length = 28 + payload.length := by
  simp [instructionFrame, magic]
  omega

/-- The frame starts with the magic. -/
theorem instructionFrame_magic (msgId : Utf8String) (payload : Bytes) :
    field (instructionFrame msgId payload) 0 4 = magic := rfl

/-- The version word is 1: minor version 1 of major version 0. -/
theorem instructionFrame_version (msgId : Utf8String) (payload : Bytes) :
    version (instructionFrame msgId payload) = 1 := by
  have h : field (instructionFrame msgId payload) 4 6 = BigEndian.toBytes 2 1 :=
    field_append rfl rfl
  rw [version, h]
  rfl

/-- The code that a payload is answered with: the frame is shorter than a header, or
its version is of another major version. -/
def rejectionCode (payload : Bytes) : AiclErrorCode :=
  if payload.length < 28 then .badHeader else .unsupportedVersion

/-- A framing error. -/
def IsFraming (code : AiclErrorCode) : Prop :=
  code = .badHeader ∨ code = .unsupportedVersion ∨ code = .truncated

/-- That code is one of a framing error. -/
theorem isFraming_rejectionCode (payload : Bytes) : IsFraming (rejectionCode payload) := by
  unfold rejectionCode
  split
  · exact Or.inl rfl
  · exact Or.inr (Or.inl rfl)

variable {crc32 : Bytes → UInt32}

/-- No frame of an instruction is accepted. -/
theorem aiclDecode_instructionFrame (codec : AiclCodec) (msgId : Utf8String) (payload : Bytes) :
    aiclDecode crc32 (some codec) (some (instructionFrame msgId payload)) true =
      .ok (rejectionCode payload, none) := by
  have hlength := instructionFrame_length msgId payload
  unfold rejectionCode
  split
  next hshort =>
    apply CoreRust.aiclDecode_short
    rw [hlength, headerSize]
    omega
  next hlong =>
    apply CoreRust.aiclDecode_version
    · rw [hlength, headerSize]
      omega
    · exact instructionFrame_magic msgId payload
    · rw [instructionFrame_version]
      decide

/-- A buffer of less than four GiB comes back as it is. -/
theorem nativeBuffer_eq_ok {data : Bytes} (hpos : data ≠ []) (hlt : data.length < 2 ^ 32) :
    nativeBuffer data = .ok data := by
  unfold nativeBuffer
  have hlength : ¬ data.length = 0 := fun h => hpos (List.length_eq_zero_iff.mp h)
  dsimp only
  rw [Nat.mod_eq_of_lt hlt, Outcome.failIf_of_not hlength, Outcome.ok_bind, List.take_length]
  rfl

/-- A frame that is refused with a code makes the transport raise it. -/
theorem NativeTransport.decode_of_status {self : NativeTransport} {data : Bytes}
    {code : AiclErrorCode} (hopen : self.closed = false) (hcode : code.number ≠ 0)
    (h : aiclDecode crc32 (some self.ctx) (some data) true = .ok (code, none)) :
    self.decode crc32 data = .err (nativeError code.number "decode failed") := by
  unfold decode checkOpen checkStatus Outcome.failIf
  rw [h, hopen, if_neg Bool.false_ne_true]
  simp only [liftFfi, Outcome.ok_bind, if_pos hcode, Outcome.err_bind]

section

variable {α : Type} {text : α → Utf8String} {instruction : Utf8String}
  {kwargs : List (Utf8String × α)}

/-- An instruction with a payload that has a length is encoded. -/
theorem encodeInstruction_eq_ok (msgId : Utf8String)
    (hsize : (payloadOf text instruction kwargs).length < 2 ^ 32) :
    encodeInstruction text instruction msgId kwargs =
      .ok (instructionFrame msgId (payloadOf text instruction kwargs)) := by
  unfold encodeInstruction
  dsimp only
  rw [Outcome.failIf_of_not (Nat.not_le_of_lt hsize)]
  rfl

/-- A call that is not interrupted raises what the core answers. -/
theorem Model.call_of_status {self : Model} {cancelled : Fin 3 → Bool} {wire : Bytes}
    {code : AiclErrorCode} (hclosed : self.closed = false)
    (hopen : self.transport.closed = false) (hactive : ∀ i, cancelled i = false)
    (hwire : encodeInstruction text instruction (messageIdText (self.messageCounter + 1)) kwargs =
      .ok wire) (hbuffer : nativeBuffer wire = .ok wire) (hcode : code.number ≠ 0)
    (h : aiclDecode crc32 (some self.transport.ctx) (some wire) true = .ok (code, none)) :
    (self.call text crc32 instruction cancelled kwargs).1 =
      .err (nativeError code.number "decode failed") := by
  have htoken : ∀ i, checkToken (cancelled i) = .ok () := by
    intro i
    rw [checkToken, hactive i]
    rfl
  have hencode : self.transport.encode wire = .ok wire := by
    rw [NativeTransport.encode, NativeTransport.checkOpen,
      Outcome.failIf_of_not (Bool.eq_false_iff.mp hopen), Outcome.ok_bind, hbuffer]
  have hdecode := NativeTransport.decode_of_status hopen hcode h
  unfold Model.call
  rw [if_neg (Bool.eq_false_iff.mp hclosed)]
  simp only [htoken, hwire, hencode, hdecode, Outcome.ok_bind, Outcome.err_bind]

/-- The core accepts no frame of an instruction, whatever the instruction, the message
count and the arguments are, and every call of an open model that is not cancelled
fails with a framing error. -/
theorem Model.call_rejected (crc32 : Bytes → UInt32) (text : α → Utf8String)
    (instruction : Utf8String) (kwargs : List (Utf8String × α))
    (hsize : (payloadOf text instruction kwargs).length < 2 ^ 24) :
    ∃ code, IsFraming code ∧
      (∀ counter, ∃ wire,
        encodeInstruction text instruction (messageIdText counter) kwargs = .ok wire ∧
          nativeBuffer wire = .ok wire ∧
          aiclDecode crc32 (some .new) (some wire) true = .ok (code, none)) ∧
      ∀ (self : Model) (cancelled : Fin 3 → Bool), self.closed = false →
        self.transport.closed = false → (∀ i, cancelled i = false) →
          (self.call text crc32 instruction cancelled kwargs).1 =
            .err (nativeError code.number "decode failed") := by
  have hframing := isFraming_rejectionCode (payloadOf text instruction kwargs)
  have hnumber : (rejectionCode (payloadOf text instruction kwargs)).number ≠ 0 := by
    rcases hframing with hcode | hcode | hcode <;> rw [hcode] <;> decide
  have hwire : ∀ counter,
      encodeInstruction text instruction (messageIdText counter) kwargs =
        .ok (instructionFrame (messageIdText counter) (payloadOf text instruction kwargs)) :=
    fun counter => encodeInstruction_eq_ok _ (by omega)
  have hbuffer : ∀ counter,
      nativeBuffer (instructionFrame (messageIdText counter) (payloadOf text instruction kwargs)) =
        .ok (instructionFrame (messageIdText counter) (payloadOf text instruction kwargs)) := by
    intro counter
    have hlength := instructionFrame_length (messageIdText counter)
      (payloadOf text instruction kwargs)
    apply nativeBuffer_eq_ok
    · intro hnil
      rw [hnil, List.length_nil] at hlength
      omega
    · omega
  refine ⟨rejectionCode (payloadOf text instruction kwargs), hframing, ?_, ?_⟩
  · intro counter
    exact ⟨_, hwire counter, hbuffer counter, aiclDecode_instructionFrame _ _ _⟩
  · intro self cancelled hclosed hopen hactive
    exact Model.call_of_status hclosed hopen hactive (hwire _) (hbuffer _) hnumber
      (aiclDecode_instructionFrame _ _ _)

end

/-- A request to generate from a prompt of thirty-two letters gets as far as the version. -/
theorem Model.call_rejected_generate :
    ∃ code, IsFraming code ∧
      (({} : Model).call id Crc32.ieee (.ofAscii "generate") (fun _ => false)
        [(.ofAscii "prompt", .ofAscii "abcdefghijklmnopqrstuvwxyzabcdef")]).1 =
          .err (nativeError code.number "decode failed") := by
  obtain ⟨code, hframing, _, hcall⟩ := Model.call_rejected Crc32.ieee id (.ofAscii "generate")
    [(.ofAscii "prompt", .ofAscii "abcdefghijklmnopqrstuvwxyzabcdef")] (by decide)
  exact ⟨code, hframing, hcall {} (fun _ => false) rfl rfl fun _ => rfl⟩

/-- The arguments of a request to classify a text. -/
def helloArguments : List (Utf8String × Utf8String) :=
  [(.ofAscii "text", .ofAscii "hello world")]

/-- The request of the documentation, {lit}`call("classify", text="hello world")`, is
refused for its header. -/
theorem call_classify_badHeader :
    (payloadOf id (.ofAscii "classify") helloArguments).length = 25 ∧
      (∃ wire, encodeInstruction id (.ofAscii "classify") (messageIdText 1) helloArguments =
        .ok wire ∧ nativeBuffer wire = .ok wire ∧
          aiclDecode Crc32.ieee (some .new) (some wire) true = .ok (.badHeader, none)) ∧
      (({} : Model).call id Crc32.ieee (.ofAscii "classify") (fun _ => false) helloArguments).1 =
        .err (.nativeError 1 "BAD_HEADER" "AICL native error: BAD_HEADER (1): decode failed") := by
  have hlength : (payloadOf id (.ofAscii "classify") helloArguments).length = 25 := by decide
  have hwire : encodeInstruction id (.ofAscii "classify") (messageIdText 1) helloArguments =
      .ok (instructionFrame (messageIdText 1) (payloadOf id (.ofAscii "classify")
        helloArguments)) :=
    encodeInstruction_eq_ok _ (by omega)
  have hbuffer : nativeBuffer (instructionFrame (messageIdText 1)
      (payloadOf id (.ofAscii "classify") helloArguments)) =
        .ok (instructionFrame (messageIdText 1) (payloadOf id (.ofAscii "classify")
          helloArguments)) :=
    nativeBuffer_eq_ok (List.cons_ne_nil _ _) (by rw [instructionFrame_length]; omega)
  have hcode : rejectionCode (payloadOf id (.ofAscii "classify") helloArguments) = .badHeader :=
    if_pos (by omega)
  have hdecode : aiclDecode Crc32.ieee (some .new) (some (instructionFrame (messageIdText 1)
      (payloadOf id (.ofAscii "classify") helloArguments))) true = .ok (.badHeader, none) := by
    rw [aiclDecode_instructionFrame, hcode]
  have hmessage : nativeError AiclErrorCode.badHeader.number "decode failed" =
      .nativeError 1 "BAD_HEADER" "AICL native error: BAD_HEADER (1): decode failed" := by
    decide +kernel
  have hcall : (({} : Model).call id Crc32.ieee (.ofAscii "classify") (fun _ => false)
      helloArguments).1 = .err (nativeError AiclErrorCode.badHeader.number "decode failed") :=
    Model.call_of_status rfl rfl (fun _ => rfl) hwire hbuffer (by decide) hdecode
  rw [hmessage] at hcall
  exact ⟨hlength, ⟨_, hwire, hbuffer, hdecode⟩, hcall⟩

end Aicl.Sdk
