import Aicl.Bin.OperandsDecode
import Aicl.Isa.Frame

/-!
# The decoder of the Python package

{lit}`validate_header` and {lit}`validate_trailer` of {lit}`aicl/bin/validation.py`,
{lit}`unpack_header` of {lit}`aicl/bin/header.py`, {lit}`PacketView` of
{lit}`aicl/bin/codec_view.py` and {lit}`decode` of {lit}`aicl/bin/codec_api.py`.  The
checksum function is a parameter.

Main definitions:

- Definition {lit}`validateHeader`: the checks on a header.
- Definition {lit}`decode`: the view of a frame.
-/

namespace Aicl.Bin

/-! ## Header validation -/

/-- {lit}`HEADER_SIZE`. -/
def headerSize : Nat := 56

/-- {lit}`HEADER_CRC_SCOPE`. -/
def headerCrcScope : Nat := 52

/-- {lit}`CHECKSUM_SIZE`. -/
def checksumSize : Nat := 4

/-- {lit}`MAX_TLV_VALUE_SIZE`. -/
def maxTlvValueSize : Nat := 0xFFFFFF

/-- {lit}`SUPPORTED_VERSIONS`, as unsigned words. -/
def supportedVersionWords : List Nat := [0x0100]

/-- {lit}`struct.unpack_from` of one unsigned big-endian word. -/
def unpackWord (w : Nat) (data : Bytes) (offset : Nat) : PyResult Nat := do
  let raw ← unpackFrom w data offset
  pure (BigEndian.ofBytes raw)

section Checksum

variable (crc32 : Bytes → UInt32)

/-- {lit}`validate_header`. -/
def validateHeader (data : Bytes) : PyResult Unit := do
  raiseIf (data.length < headerSize) .headerError
    s!"Buffer too short for header: {data.length} < {headerSize}"
  let magic := getSlice data 0 4
  raiseIf (magic ≠ Isa.Frame.magic) .headerError s!"Invalid magic: {reprBytes magic}"
  let version ← unpackWord 2 data 4
  raiseIf (version ∉ supportedVersionWords) .versionMismatchError
    s!"Unsupported version: {version} not in frozenset(\x7b256\x7d)"
  let hdrCrc ← unpackWord 4 data headerCrcScope
  let computed := (crc32 (getSlice data 0 headerCrcScope)).toNat
  raiseIf (hdrCrc ≠ computed) .headerError
    s!"header CRC mismatch: expected 0x{hexLower 8 computed}, got 0x{hexLower 8 hdrCrc}"
  let payloadLength ← unpackWord 4 data 44
  raiseIf (maxTlvValueSize < payloadLength) .headerError
    s!"payload_length too large: {payloadLength}"

/-- {lit}`validate_trailer`. -/
def validateTrailer (data : Bytes) (expectedCrc : Nat) : PyResult Unit :=
  let actual := (crc32 data).toNat
  raiseIf (actual ≠ expectedCrc) .checksumError
    s!"CRC32 mismatch: expected 0x{hexLower 8 expectedCrc}, got 0x{hexLower 8 actual}"

end Checksum

/-- {lit}`validate_flags`: counts the packet types and allows every combination. -/
def validateFlags (_flags : Nat) : PyResult Unit := pure ()

/-! ## Views -/

/-- Fixed header fields. -/
structure Header where
  magic : Bytes
  version : Nat
  flags : Nat
  messageId : Bytes
  correlationId : Bytes
  deadlineMs : Nat
  payloadLength : Nat
deriving DecidableEq

/-- {lit}`unpack_header`: one {lit}`struct.unpack_from` of the 56 bytes, then the
checks of magic and version. -/
def unpackHeader (data : Bytes) : PyResult Header := do
  raiseIf (data.length < headerSize) .headerError
    s!"Header too short: {data.length} < {headerSize}"
  let raw ← unpackFrom headerSize data 0
  let magic := getSlice raw 0 4
  let version := BigEndian.ofBytes (getSlice raw 4 6)
  raiseIf (magic ≠ Isa.Frame.magic) .headerError
    s!"Invalid magic: {reprBytes magic} != {reprBytes Isa.Frame.magic}"
  raiseIf (version ∉ supportedVersionWords) .headerError s!"Unsupported version: {version}"
  pure
    { magic
      version
      flags := BigEndian.ofBytes (getSlice raw 6 8)
      messageId := getSlice raw 8 24
      correlationId := getSlice raw 24 40
      deadlineMs := BigEndian.ofBytes (getSlice raw 40 44)
      payloadLength := BigEndian.ofBytes (getSlice raw 44 48) }

/-- The operands of a view: the core symbols, and the vendor operands by tag. -/
structure Contents where
  symbols : List Symbol
  extensions : List (UInt8 × List Bytes)

namespace Contents

/-- Nothing filed yet. -/
def empty : Contents := { symbols := [], extensions := [] }

/-- {lit}`setdefault(tag, []).append(value)`. -/
def addExtension (c : Contents) (tag : UInt8) (value : Bytes) : Contents :=
  { c with
    extensions := Dict.set tag ((Dict.get? tag c.extensions).getD [] ++ [value]) c.extensions }

/-- Where the loop of {lit}`PacketView` puts a symbol. -/
def file (c : Contents) : Symbol → Contents
  | .other tag value =>
      if isVendor tag then c.addExtension tag value
      else { c with symbols := c.symbols ++ [.other tag value] }
  | s => { c with symbols := c.symbols ++ [s] }

end Contents

/-- A view of a frame: the frame, the bounds of its payload, and what was read. -/
structure PacketView where
  raw : Bytes
  hdrEnd : Nat
  payEnd : Nat
  hdr : Header
  operation : Nat
  contents : Contents

namespace PacketView

/-- {lit}`flags`. -/
def flags (v : PacketView) : Nat := v.hdr.flags

/-- {lit}`message_id`. -/
def messageId (v : PacketView) : Bytes := v.hdr.messageId

/-- {lit}`correlation_id`. -/
def correlationId (v : PacketView) : Bytes := v.hdr.correlationId

/-- {lit}`deadline_ms`. -/
def deadlineMs (v : PacketView) : Nat := v.hdr.deadlineMs

/-- {lit}`symbols`. -/
def symbols (v : PacketView) : List Symbol := v.contents.symbols

/-- {lit}`_extensions`. -/
def extensions (v : PacketView) : List (UInt8 × List Bytes) := v.contents.extensions

/-- {lit}`_ext_all`: the values filed under a tag. -/
def extAll (v : PacketView) (tag : UInt8) : List Bytes := (Dict.get? tag v.extensions).getD []

end PacketView

/-- One round of the loop of {lit}`PacketView`. -/
def fileStep (_ : Nat) (c : Contents) (payload : Bytes) (pos : Nat) : PyResult (Contents × Nat) := do
  let (sym, pos) ← decodeSymbol payload pos
  pure (c.file sym, pos)

/-- The operands of a payload.  A payload without a count has none, and bytes
after the last operand are not looked at. -/
def readContents (payload : Bytes) : PyResult Contents :=
  if 1 < payload.length then do
    let (count, pos) ← decodeVarint payload 1
    let (c, _) ← Outcome.loop fileStep count 0 .empty payload pos
    pure c
  else pure .empty

/-- {lit}`payload[0] if len(payload) else 0`. -/
def operationOf (payload : Bytes) : Nat :=
  (payload.head?.getD 0).toNat

/-- {lit}`PacketView.__init__`. -/
def PacketView.init (raw : Bytes) (hdrEnd payEnd : Nat) : PyResult PacketView := do
  let hdr ← unpackHeader (getSlice raw 0 headerSize)
  let payload := getSlice raw hdrEnd payEnd
  let contents ← readContents payload
  pure { raw, hdrEnd, payEnd, hdr, operation := operationOf payload, contents }

/-- {lit}`decode`. -/
def decode (crc32 : Bytes → UInt32) (raw : Bytes) : PyResult PacketView := do
  raiseIf (raw.length < headerSize) .truncatedPacketError
    s!"Buffer too short for header: {raw.length} < {headerSize}"
  validateHeader crc32 (getSlice raw 0 headerSize)
  let flags ← unpackWord 2 raw 6
  validateFlags flags
  let payloadLength ← unpackWord 4 raw 44
  let payloadEnd := headerSize + payloadLength
  raiseIf (raw.length < payloadEnd) .truncatedPacketError
    (s!"Buffer truncated: declared payload_length={payloadLength}, " ++
      s!"available={raw.length - headerSize}")
  if payloadEnd < raw.length then
    let expectedCrc ← unpackWord 4 raw payloadEnd
    validateTrailer crc32 (getSlice raw 0 payloadEnd) expectedCrc
    PacketView.init raw headerSize (payloadEnd + checksumSize)
  else PacketView.init raw headerSize payloadEnd

end Aicl.Bin
