import Aicl.Foundation.Outcome

/-!
# Errors of the Rust core

The error codes and the error value of {lit}`core-rust/src/error.rs`, and the
result type of its fallible functions.  A call ends with a value, with an
{lit}`AiclError`, or with a Rust panic.
-/

namespace Aicl.CoreRust

/-- AICL error code. -/
inductive ErrorCode where
  | ok | badHeader | truncated | checksum | unknownOpcode | unknownType | operandCount
  | schemaMismatch | invalidUtf8 | invalidBool | payloadTooLarge | varintOverflow | mapKeyType
  | invalidValue | unsupportedVersion | capabilityNotFound | timeout | cancelled | backpressure
  | bufferNotFound | bufferAccessDenied | streamOutOfOrder | extensionNotUnderstood
  | capabilityExists | capabilityTableFull | invalidInstruction | sessionClosed | channelClosed
  | unknownExtension | extensionTooLarge | noHandler | empty | bufferFull | transportClosed
  | capabilityInvalid | capabilityOverflow | trailingBytes | internal
  | vendor (code : UInt32)
deriving DecidableEq, Repr

/-- The canonical AICL error type. -/
structure AiclError where
  code : ErrorCode
  message : String
  context : Option String
deriving DecidableEq, Repr

/-- An error without context. -/
def AiclError.new (code : ErrorCode) (message : String) : AiclError :=
  { code, message, context := none }

@[simp] theorem AiclError.new_code (code : ErrorCode) (message : String) :
    (AiclError.new code message).code = code := rfl

/-- How a fallible function of the core ends. -/
abbrev AiclResult (α : Type) := Outcome AiclError α

/-- Upper-case hexadecimal digits, padded with zeros to a width. -/
def hexUpper (width n : Nat) : String :=
  let digits := (Nat.toDigits 16 n).map Char.toUpper
  String.ofList (List.replicate (width - digits.length) '0' ++ digits)

/-- The debug form of a byte slice in upper-case hexadecimal. -/
def hexSlice (bytes : List UInt8) : String :=
  "[" ++ ", ".intercalate (bytes.map fun b => hexUpper 2 b.toNat) ++ "]"

end Aicl.CoreRust
