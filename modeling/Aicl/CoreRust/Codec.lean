import Aicl.CoreRust.OperandRoundTrip
import Aicl.Isa.Frame

/-!
# The packet codec of the Rust core

{lit}`AiclPacket` of {lit}`core-rust/src/packet.rs` and {lit}`AiclCodec` of
{lit}`core-rust/src/codec.rs`: the encoder, header validation, and the decoders.
Every index and slice expression of the decoders is a checked access.  The
checksum function is a parameter.

Main definitions:

- Definition {lit}`AiclCodec.encode`: a packet to its frame.
- Definition {lit}`validateHeader`: the checks a frame goes through.
- Definition {lit}`AiclCodec.decodeToPacket`: a frame to its packet.
-/

namespace Aicl.CoreRust

open Outcome (failIf index slice sliceFrom)

/-! ## Packets -/

/-- The typed semantic representation of a message.  The maps among its operands
are sorted at every depth, as {lit}`BTreeMap` keeps them. -/
structure AiclPacket where
  opcode : AiclOpcode
  flags : AiclFlags
  messageId : Option Id16
  correlationId : Id16
  deadlineMs : UInt32
  operands : List Operand
  sorted : ∀ op ∈ operands, op.All Operand.MapSorted

/-- No operands hold no maps. -/
theorem AiclPacket.sorted_nil : ∀ op ∈ ([] : List Operand), op.All Operand.MapSorted :=
  fun _ hop => absurd hop List.not_mem_nil

/-- {lit}`AiclPacket::new`. -/
def AiclPacket.new (opcode : AiclOpcode) : AiclPacket where
  opcode := opcode
  flags := ⟨0⟩
  messageId := none
  correlationId := .zero
  deadlineMs := 0
  operands := []
  sorted := sorted_nil

/-- {lit}`AiclPacket::nop`. -/
def AiclPacket.nop : AiclPacket := .new .nop

/-- Encode and decode operations for packets. -/
structure AiclCodec where
  maxPayload : Nat
  checkCrc : Bool
deriving DecidableEq, Repr

/-- {lit}`AiclCodec::new`. -/
def AiclCodec.new : AiclCodec := { maxPayload := maxPayloadSize, checkCrc := true }

/-! ## The encoder -/

/-- Overwrite bytes in place: {lit}`out[at..].copy_from_slice(bytes)`. -/
def overwrite (out : Bytes) (pos : Nat) (bytes : Bytes) : Bytes :=
  out.take pos ++ (bytes ++ out.drop (pos + bytes.length))

section Checksum

variable (crc32 : Bytes → UInt32)

/-- {lit}`encode_into`: the output buffer, grown in every case, and the result.
A packet without a message id gets {lit}`uuidV4`. -/
def AiclCodec.encodeInto (codec : AiclCodec) (uuidV4 : Id16) (pkt : AiclPacket) (out : Bytes) :
    Bytes × AiclResult Unit :=
  let start := out.length
  let out := out ++ List.replicate headerSize 0
  let payloadStart := out.length
  let out := out ++ [pkt.opcode.toU8]
  let out := out ++ encodeLen pkt.operands.length
  let out := out ++ encodeItems pkt.operands
  let payloadLen := UInt32.ofNat (out.length - payloadStart)
  if codec.maxPayload < payloadLen.toNat then
    (out, .err (.new .payloadTooLarge s!"payload {payloadLen} > limit {codec.maxPayload}"))
  else
    let out := overwrite out start magic
    let out := overwrite out (start + 4) (writeU16 isaVersion)
    let out := overwrite out (start + 6) (writeU16 pkt.flags.bits)
    let msgId := pkt.messageId.getD uuidV4
    let out := overwrite out (start + 8) msgId.bytes
    let out := overwrite out (start + 24) pkt.correlationId.bytes
    let out := overwrite out (start + 40) (writeU32 pkt.deadlineMs)
    let out := overwrite out (start + 44) (writeU32 payloadLen)
    let hdrCrc := crc32 ((out.drop start).take 52)
    let out := overwrite out (start + 52) (writeU32 hdrCrc)
    (out, .ok ())

/-- {lit}`encode`: a fresh buffer for the frame. -/
def AiclCodec.encode (codec : AiclCodec) (uuidV4 : Id16) (pkt : AiclPacket) : AiclResult Bytes :=
  match codec.encodeInto crc32 uuidV4 pkt [] with
  | (buf, .ok ()) => .ok buf
  | (_, .err e) => .err e
  | (_, .panic) => .panic

/-! ## Header validation -/

/-- {lit}`u16::from_be_bytes` of the two bytes at a position. -/
def wordU16 (data : Bytes) (pos : Nat) : AiclResult UInt16 := do
  let bs ← slice data pos (pos + 2)
  pure (readU16 bs)

/-- {lit}`u32::from_be_bytes` of the four bytes at a position. -/
def wordU32 (data : Bytes) (pos : Nat) : AiclResult UInt32 := do
  let bs ← slice data pos (pos + 4)
  pure (readU32 bs)

/-- The messages of the first four checks of a decoder. -/
structure PreludeMessages where
  short : Nat → String
  magic : Bytes → String
  version : UInt16 → String
  headerCrc : UInt32 → UInt32 → String

/-- The checks that all decoders start with: length, magic, major version and
header checksum. -/
def checkPrelude (m : PreludeMessages) (data : Bytes) : AiclResult Unit := do
  failIf (data.length < headerSize) (.new .badHeader (m.short data.length))
  let found ← slice data 0 4
  failIf (found ≠ magic) (.new .badHeader (m.magic found))
  let version ← wordU16 data 4
  failIf (version >>> 8 ≠ 1) (.new .unsupportedVersion (m.version version))
  let hdrCrc ← wordU32 data 52
  let covered ← slice data 0 52
  let computed := crc32 covered
  failIf (hdrCrc ≠ computed) (.new .badHeader (m.headerCrc computed hdrCrc))

/-- The messages of {lit}`validate_header`. -/
def validateMessages : PreludeMessages where
  short n := s!"buffer {n} < header size {headerSize}"
  magic found := s!"invalid magic: {hexSlice found}"
  version v := s!"version major {v >>> 8} != 1"
  headerCrc computed found :=
    s!"header CRC mismatch: expected {hexUpper 8 computed.toNat}, got {hexUpper 8 found.toNat}"

/-- The trailer check of {lit}`validate_header`. -/
def checkTrailer (hasTrailer checkCrc : Bool) (total : Nat) (data : Bytes) : AiclResult Unit :=
  if hasTrailer then do
    failIf (data.length < total + 4) (.new .truncated "trailer missing")
    if checkCrc then
      let expectedCrc ← wordU32 data total
      let covered ← slice data 0 total
      let computed := crc32 covered
      failIf (expectedCrc ≠ computed) (.new .checksum
        s!"CRC mismatch: expected {hexUpper 8 expectedCrc.toNat}, got {hexUpper 8 computed.toNat}")
    else pure ()
  else pure ()

/-- {lit}`AiclOpcode::from_u8` with the error of its callers, who word it
differently. -/
def opcodeOf (label : String) (byte : UInt8) : AiclResult AiclOpcode :=
  match AiclOpcode.fromU8 byte with
  | some opcode => .ok opcode
  | none => .err (.new .unknownOpcode s!"{label}: 0x{hexUpper 2 byte.toNat}")

/-- One round of the operand loop of {lit}`validate_header`, which drops the
operand. -/
def skipStep (i : Nat) (_ : Unit) (data : Bytes) (pos : Nat) : AiclResult (Unit × Nat) := do
  let (_, pos) ← nestedOperand decodeOperand (UInt32.ofNat i) data pos
  pure ((), pos)

/-- The operand pass of {lit}`validate_header`: the payload is an opcode byte, a
count, and that many operands up to its end. -/
def operandPass (payload : Bytes) : AiclResult Unit := do
  failIf payload.isEmpty (.new .truncated "payload empty")
  let (count, pos) ← readVarint payload 1
  let (_, pos) ← Outcome.loop skipStep count.toNat 0 () payload pos
  failIf (pos ≠ payload.length)
    (.new .trailingBytes s!"operand payload consumed {pos} of {payload.length} bytes")

/-- {lit}`validate_header`. -/
def validateHeader (maxPayload : Nat) (checkCrc : Bool) (data : Bytes) : AiclResult Unit := do
  checkPrelude crc32 validateMessages data
  let flags ← wordU16 data 6
  let payloadLen ← wordU32 data 44
  failIf (maxPayload < payloadLen.toNat)
    (.new .payloadTooLarge s!"payload {payloadLen} > max {maxPayload}")
  let total := headerSize + payloadLen.toNat
  failIf (data.length < total) (.new .truncated
    s!"declared {headerSize} + {payloadLen} = {total} but buffer is {data.length}")
  checkTrailer crc32 (flags &&& 0x0100 != 0) checkCrc total data
  let opcodeByte ← index data headerSize
  let _opcode ← opcodeOf "unknown opcode byte" opcodeByte
  let payload ← slice data headerSize (headerSize + payloadLen.toNat)
  operandPass payload

/-! ## Views and decoders -/

/-- A view into a decoded packet, backed by the whole frame. -/
structure PacketView where
  data : Bytes
  payloadOffset : Nat
  payloadLength : Nat
  hasTrailer : Bool
  flags_ : UInt16
deriving DecidableEq, Repr

/-- What {lit}`decode` and {lit}`decode_owned` share: validation, then a view. -/
def AiclCodec.view (codec : AiclCodec) (data : Bytes) : AiclResult PacketView := do
  validateHeader crc32 codec.maxPayload codec.checkCrc data
  let payloadLen ← wordU32 data 44
  let flags ← wordU16 data 6
  pure
    { data
      payloadOffset := headerSize
      payloadLength := payloadLen.toNat
      hasTrailer := flags &&& 0x0100 != 0
      flags_ := flags }

/-- {lit}`decode`: a view of a copy of the data. -/
def AiclCodec.decode (codec : AiclCodec) (data : Bytes) : AiclResult PacketView :=
  codec.view crc32 data

/-- {lit}`decode_owned`: a view that takes the buffer over. -/
def AiclCodec.decodeOwned (codec : AiclCodec) (data : Bytes) : AiclResult PacketView :=
  codec.view crc32 data

/-- The sixteen bytes at a position, as {lit}`message_id` and
{lit}`correlation_id` copy them. -/
def idAt (data : Bytes) (pos : Nat) : AiclResult Id16 := do
  let bs ← slice data pos (pos + 16)
  pure (Id16.ofSlice bs)

/-- The loop that collects the operands of a packet. -/
def operandLoop (payload : Bytes) : AiclResult (List Operand) := do
  let (count, pos) ← readVarint payload 1
  let (operands, _) ← Outcome.loop (itemStep decodeOperand UInt32.ofNat) count.toNat 0 [] payload pos
  pure operands

/-- The collected operands have their maps sorted. -/
theorem operandLoop_sorted {payload : Bytes} {operands : List Operand}
    (h : operandLoop payload = .ok operands) : ∀ op ∈ operands, op.All Operand.MapSorted := by
  obtain ⟨⟨count, pos⟩, _, h⟩ := Outcome.bind_eq_ok_iff.mp h
  obtain ⟨⟨ops, pos'⟩, hloop, h⟩ := Outcome.bind_eq_ok_iff.mp h
  cases h
  refine Outcome.loop_invariant (I := fun ops => ∀ op ∈ ops, op.All Operand.MapSorted)
    (fun i items data pos r hitems hstep => ?_) (by simp) hloop
  obtain ⟨⟨item, pos'⟩, hitem, hr⟩ := Outcome.bind_eq_ok_iff.mp hstep
  obtain ⟨rest, _, hitem⟩ := Outcome.bind_eq_ok_iff.mp hitem
  obtain ⟨⟨op, n⟩, hdec, hpair⟩ := Outcome.bind_eq_ok_iff.mp hitem
  cases hpair
  cases hr
  intro x hx
  rcases List.mem_append.mp hx with hx | hx
  · exact hitems x hx
  · obtain rfl := List.mem_singleton.mp hx
    exact decodeOperand_sorted hdec

/-- The operands of a packet, with the certificate that their maps are sorted. -/
def collectOperands (payload : Bytes) :
    AiclResult { operands : List Operand // ∀ op ∈ operands, op.All Operand.MapSorted } :=
  (operandLoop payload).attach fun _ => operandLoop_sorted

namespace PacketView

/-- {lit}`opcode`. -/
def opcode (v : PacketView) : AiclResult UInt8 := index v.data headerSize

/-- {lit}`flags`. -/
def flags (v : PacketView) : AiclResult UInt16 := wordU16 v.data 6

/-- {lit}`message_id`. -/
def messageId (v : PacketView) : AiclResult Id16 := idAt v.data 8

/-- {lit}`correlation_id`. -/
def correlationId (v : PacketView) : AiclResult Id16 := idAt v.data 24

/-- {lit}`deadline_ms`. -/
def deadlineMs (v : PacketView) : AiclResult UInt32 := wordU32 v.data 40

/-- {lit}`payload`. -/
def payload (v : PacketView) : AiclResult Bytes :=
  slice v.data v.payloadOffset (v.payloadOffset + v.payloadLength)

/-- {lit}`operand_count`. -/
def operandCount (v : PacketView) : AiclResult Nat := do
  let payload ← v.payload
  if payload.isEmpty then pure 0
  else
    let (count, _) ← readVarint payload 1
    pure count.toNat

/-- {lit}`to_packet`: the operands are decoded a second time. -/
def toPacket (v : PacketView) : AiclResult AiclPacket := do
  let payload ← v.payload
  let opcodeByte ← v.opcode
  let opcode ← opcodeOf "unknown opcode byte" opcodeByte
  let flags ← v.flags
  let operands ← collectOperands payload
  let messageId ← v.messageId
  let correlationId ← v.correlationId
  let deadlineMs ← v.deadlineMs
  pure
    { opcode
      flags := ⟨flags⟩
      messageId := some messageId
      correlationId
      deadlineMs
      operands := operands.val
      sorted := operands.property }

end PacketView

/-- {lit}`decode_to_packet`. -/
def AiclCodec.decodeToPacket (codec : AiclCodec) (data : Bytes) : AiclResult AiclPacket := do
  let view ← codec.decode crc32 data
  view.toPacket

/-- {lit}`decode_to_packet_from_slice`. -/
def decodeToPacketFromSlice (data : Bytes) : AiclResult AiclPacket := do
  failIf (data.length < headerSize) (.new .badHeader "truncated header")
  let opcodeByte ← index data headerSize
  let opcode ← opcodeOf "unknown opcode" opcodeByte
  let flags ← wordU16 data 6
  let payloadLen ← wordU32 data 44
  let payload ← slice data headerSize (headerSize + payloadLen.toNat)
  failIf payload.isEmpty (.new .truncated "payload empty")
  let operands ← collectOperands payload
  let messageId ← idAt data 8
  let correlationId ← idAt data 24
  let deadlineMs ← wordU32 data 40
  pure
    { opcode
      flags := ⟨flags⟩
      messageId := some messageId
      correlationId
      deadlineMs
      operands := operands.val
      sorted := operands.property }

end Checksum

end Aicl.CoreRust
