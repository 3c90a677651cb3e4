import Aicl.Isa.Tags

/-!
# Opcodes, flags and limits of the Rust core

The constants, the opcode taxonomy and the flag word of
{lit}`core-rust/src/opcode.rs`.

Main results:

- Theorem {lit}`AiclOpcode.fromU8_eq_some_iff`: a byte is an opcode exactly when
  it is the byte of a named opcode or lies in the vendor range.
-/

namespace Aicl.CoreRust

/-- ISA version: {lit}`major << 8 | minor`. -/
def isaVersion : UInt16 := 0x0100

/-- The ASCII bytes of {lit}`AICL`. -/
def magic : Bytes := [0x41, 0x49, 0x43, 0x4C]

/-- Fixed header size in bytes. -/
def headerSize : Nat := 56

/-- Maximum payload length (16 MiB). -/
def maxPayloadSize : Nat := 16 * 1024 * 1024

/-- AICL opcodes. -/
inductive AiclOpcode where
  | nop | hello | goodbye | discover | ping | pong | ack | nak | error | cancel | version
  | call | return_ | stream | streamEnd
  | memoryRead | memoryWrite | memoryDelete | indexQuery | indexUpsert
  | capabilityAdvertise | capabilityWithdraw | capabilityQuery
  | modelCall | toolCall | embed | classify | reason | retrieve | execute
  | trace | stats | health
  | bufferRef | bufferRelease | bufferShare
  | vendor (v : UInt8)
deriving DecidableEq, Repr

namespace AiclOpcode

/-- Map a raw byte to an opcode; unassigned opcodes have none. -/
def fromU8 (v : UInt8) : Option AiclOpcode :=
  match v with
  | 0x00 => some .nop | 0x01 => some .hello | 0x02 => some .goodbye
  | 0x03 => some .discover | 0x04 => some .ping | 0x05 => some .pong
  | 0x06 => some .ack | 0x07 => some .nak | 0x08 => some .error
  | 0x09 => some .cancel | 0x0A => some .version
  | 0x10 => some .call | 0x11 => some .return_ | 0x12 => some .stream | 0x13 => some .streamEnd
  | 0x20 => some .memoryRead | 0x21 => some .memoryWrite | 0x22 => some .memoryDelete
  | 0x23 => some .indexQuery | 0x24 => some .indexUpsert
  | 0x30 => some .capabilityAdvertise | 0x31 => some .capabilityWithdraw
  | 0x32 => some .capabilityQuery
  | 0x40 => some .modelCall | 0x41 => some .toolCall | 0x42 => some .embed
  | 0x43 => some .classify | 0x44 => some .reason | 0x45 => some .retrieve
  | 0x46 => some .execute
  | 0x50 => some .trace | 0x51 => some .stats | 0x52 => some .health
  | 0x60 => some .bufferRef | 0x61 => some .bufferRelease | 0x62 => some .bufferShare
  | v => if 0xF0 ≤ v then some (.vendor v) else none

/-- The wire byte of an opcode. -/
def toU8 : AiclOpcode → UInt8
  | .nop => 0x00 | .hello => 0x01 | .goodbye => 0x02 | .discover => 0x03 | .ping => 0x04
  | .pong => 0x05 | .ack => 0x06 | .nak => 0x07 | .error => 0x08 | .cancel => 0x09
  | .version => 0x0A
  | .call => 0x10 | .return_ => 0x11 | .stream => 0x12 | .streamEnd => 0x13
  | .memoryRead => 0x20 | .memoryWrite => 0x21 | .memoryDelete => 0x22 | .indexQuery => 0x23
  | .indexUpsert => 0x24
  | .capabilityAdvertise => 0x30 | .capabilityWithdraw => 0x31 | .capabilityQuery => 0x32
  | .modelCall => 0x40 | .toolCall => 0x41 | .embed => 0x42 | .classify => 0x43
  | .reason => 0x44 | .retrieve => 0x45 | .execute => 0x46
  | .trace => 0x50 | .stats => 0x51 | .health => 0x52
  | .bufferRef => 0x60 | .bufferRelease => 0x61 | .bufferShare => 0x62
  | .vendor v => v

/-- A named opcode, or a vendor opcode in the vendor range. -/
def Assigned : AiclOpcode → Prop
  | .vendor v => 0xF0 ≤ v
  | _ => True

instance : DecidablePred Assigned := fun op => by
  cases op <;> (unfold Assigned; infer_instance)

/-- An opcode byte is read back as the opcode it was written for. -/
theorem toU8_of_fromU8 (v : UInt8) : ∀ op ∈ fromU8 v, op.toU8 = v ∧ op.Assigned :=
  UInt8.forall_of_fin (p := fun v => ∀ op ∈ fromU8 v, op.toU8 = v ∧ op.Assigned)
    (by decide +kernel) v

/-- The vendor range is read back as vendor opcodes. -/
theorem fromU8_vendor (v : UInt8) : 0xF0 ≤ v → fromU8 v = some (.vendor v) :=
  UInt8.forall_of_fin (p := fun v => 0xF0 ≤ v → fromU8 v = some (.vendor v))
    (by decide +kernel) v

/-- An assigned opcode survives its wire byte. -/
theorem fromU8_toU8 {op : AiclOpcode} (h : op.Assigned) : fromU8 op.toU8 = some op := by
  cases op with
  | vendor v => exact fromU8_vendor v h
  | _ => rfl

/-- A byte is an opcode exactly when it is the byte of that assigned opcode. -/
theorem fromU8_eq_some_iff {v : UInt8} {op : AiclOpcode} :
    fromU8 v = some op ↔ op.toU8 = v ∧ op.Assigned := by
  constructor
  · exact toU8_of_fromU8 v op
  · rintro ⟨rfl, h⟩
    exact fromU8_toU8 h

end AiclOpcode

/-- Packet flags: 16 bits, or-combined. -/
structure AiclFlags where
  bits : UInt16
deriving DecidableEq, Repr

namespace AiclFlags

/-- {lit}`AiclFlags::REQUEST`. -/
def request : AiclFlags := ⟨0x0001⟩

/-- {lit}`AiclFlags::RESPONSE`. -/
def response : AiclFlags := ⟨0x0002⟩

/-- {lit}`AiclFlags::ENCRYPTED`; the codec reads the same bit as the announcement
of a trailer. -/
def encrypted : AiclFlags := ⟨0x0100⟩

end AiclFlags

end Aicl.CoreRust
