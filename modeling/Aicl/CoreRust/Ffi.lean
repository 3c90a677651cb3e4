import Aicl.CoreRust.Validate

/-!
# The C interface of the codec

{lit}`aicl_decode` and the accessors of packet views of {lit}`core-rust/src/ffi.rs`.
A null pointer is no value.  A function returns or stops the program.

Main results:

- Theorem {lit}`aiclDecode_short`: what a buffer shorter than a header gets.
- Theorem {lit}`aiclDecode_version`: what a frame of another major version gets.
-/

namespace Aicl.CoreRust

open Isa.Frame

/-- C error codes. -/
inductive AiclErrorCode where
  | none | badHeader | unsupportedVersion | truncated | checksum | payloadTooLarge | opcodeInvalid
  | operandCount | unknownType | noHandler | empty | bufferFull | transportClosed
  | capabilityInvalid | capabilityOverflow | invalidBool | invalidUtf8 | varintOverflow
  | trailingBytes | internal
deriving DecidableEq, Repr

namespace AiclErrorCode

/-- The number of an error code. -/
def number : AiclErrorCode → Nat
  | none => 0
  | badHeader => 1
  | unsupportedVersion => 2
  | truncated => 3
  | checksum => 4
  | payloadTooLarge => 5
  | opcodeInvalid => 6
  | operandCount => 7
  | unknownType => 8
  | noHandler => 9
  | empty => 10
  | bufferFull => 11
  | transportClosed => 12
  | capabilityInvalid => 13
  | capabilityOverflow => 14
  | invalidBool => 15
  | invalidUtf8 => 16
  | varintOverflow => 17
  | trailingBytes => 18
  | internal => 100

/-- {lit}`From<ErrorCode>`. -/
def ofErrorCode : ErrorCode → AiclErrorCode
  | .ok => none
  | .badHeader => badHeader
  | .unsupportedVersion => unsupportedVersion
  | .truncated => truncated
  | .checksum => checksum
  | .payloadTooLarge => payloadTooLarge
  | .unknownOpcode => opcodeInvalid
  | .operandCount => operandCount
  | .unknownType => unknownType
  | .noHandler => noHandler
  | .empty => empty
  | .bufferFull => bufferFull
  | .transportClosed => transportClosed
  | .capabilityInvalid => capabilityInvalid
  | .capabilityOverflow => capabilityOverflow
  | .invalidBool => invalidBool
  | .invalidUtf8 => invalidUtf8
  | .varintOverflow => varintOverflow
  | .trailingBytes => trailingBytes
  | _ => internal

end AiclErrorCode

/-- How a function of the interface ends. -/
abbrev FfiResult (α : Type) := Outcome Empty α

section

variable (crc32 : Bytes → UInt32)

/-- {lit}`aicl_decode`: an error code, and the view that it writes. -/
def aiclDecode (ctx : Option AiclCodec) (data : Option Bytes) (hasViewOut : Bool) :
    FfiResult (AiclErrorCode × Option PacketView) :=
  match ctx, data, hasViewOut with
  | some codec, some data, true =>
      match codec.decode crc32 data with
      | .ok view => .ok (.none, some view)
      | .err e => .ok (.ofErrorCode e.code, none)
      | .panic => .panic
  | _, _, _ => .ok (.internal, none)

end

/-- A getter whose error does not cross the interface. -/
def crossing {α : Type} (x : AiclResult α) (default : α) : FfiResult α :=
  match x with
  | .ok a => .ok a
  | .err _ => .ok default
  | .panic => .panic

/-- {lit}`aicl_pkt_view_opcode`. -/
def aiclPktViewOpcode : Option PacketView → FfiResult Nat
  | none => .ok 0xFF
  | some view => crossing (view.opcode >>= fun opcode => pure opcode.toNat) 0

/-- {lit}`aicl_pkt_view_flags`. -/
def aiclPktViewFlags : Option PacketView → FfiResult Nat
  | none => .ok 0
  | some view => crossing (view.flags >>= fun flags => pure flags.toNat) 0

/-- {lit}`aicl_pkt_view_operand_count`. -/
def aiclPktViewOperandCount : Option PacketView → FfiResult Nat
  | none => .ok 0
  | some view => crossing view.operandCount 0

/-! ## Frames that are refused at once -/

variable {crc32 : Bytes → UInt32} {data : Bytes}

/-- The first check of a decoder. -/
theorem checkPrelude_short (m : PreludeMessages) (h : data.length < headerSize) :
    checkPrelude crc32 m data = .err (.new .badHeader (m.short data.length)) := by
  unfold checkPrelude Outcome.failIf
  rw [if_pos h]
  rfl

/-- The check of the major version. -/
theorem checkPrelude_version (m : PreludeMessages) (hlen : headerSize ≤ data.length)
    (hmagic : field data 0 4 = magic) (hmajor : version data / 256 ≠ 1) :
    checkPrelude crc32 m data =
      .err (.new .unsupportedVersion (m.version (readU16 (field data 4 6)))) := by
  have hversion : readU16 (field data 4 6) >>> 8 ≠ 1 := mt (readU16_major_iff hlen).mp hmajor
  have hlen' := hlen
  simp only [headerSize] at hlen'
  unfold checkPrelude
  rw [Outcome.failIf_of_not (Nat.not_lt_of_le hlen), Outcome.ok_bind,
    slice_eq_field (by omega) (by omega), Outcome.ok_bind,
    Outcome.failIf_of_not (not_not.mpr hmagic), Outcome.ok_bind, wordU16_eq (by omega),
    Outcome.ok_bind]
  unfold Outcome.failIf
  rw [if_pos hversion]
  rfl

/-- What the first checks report is what the interface reports. -/
theorem aiclDecode_of_prelude {codec : AiclCodec} {e : AiclError}
    (h : checkPrelude crc32 validateMessages data = .err e) :
    aiclDecode crc32 (some codec) (some data) true = .ok (.ofErrorCode e.code, none) := by
  have hdecode : codec.decode crc32 data = .err e := by
    unfold AiclCodec.decode AiclCodec.view validateHeader
    rw [h]
    rfl
  simp only [aiclDecode, hdecode]

/-- A buffer shorter than a header is refused. -/
theorem aiclDecode_short (codec : AiclCodec) (h : data.length < headerSize) :
    aiclDecode crc32 (some codec) (some data) true = .ok (.badHeader, none) :=
  aiclDecode_of_prelude (checkPrelude_short _ h)

/-- A frame of another major version is refused. -/
theorem aiclDecode_version (codec : AiclCodec) (hlen : headerSize ≤ data.length)
    (hmagic : field data 0 4 = magic) (hmajor : version data / 256 ≠ 1) :
    aiclDecode crc32 (some codec) (some data) true = .ok (.unsupportedVersion, none) :=
  aiclDecode_of_prelude (checkPrelude_version _ hlen hmagic hmajor)

end Aicl.CoreRust
