import Aicl.Bin.Filing
import Aicl.CoreRust.Validate
import Aicl.Interop.Symbols

/-!
# Views of one language and packets of the other

When a view of the Python package and a packet of the Rust core hold the same
message, and that the two do when both are read from one frame.  A view keeps
vendor operands apart from the others and files them by tag; a packet keeps all
operands in one list.

Main results:

- Theorem {lit}`filterMap_extension?`: the vendor operands of both languages.
- Theorem {lit}`sameContents_of_tree`: the view and the packet of one frame with
  the same operands hold the same message.
-/

namespace Aicl.Interop

open Bin (Symbol isVendor_iff toSymbol toSymbols extension? valuesOf ofSymbols_symbols
  ofSymbols_extensions)
open CoreRust (AiclPacket AiclOpcode Operand Id16 packetOf toOperand toOperands)
open Isa (Tree Derives DerivesList IsNull)
open Isa.Frame

/-! ## Vendor operands -/

/-- The tag and the bytes of a vendor operand. -/
def vendor? : Operand → Option (UInt8 × Bytes)
  | .vendor tag data => some (tag, data)
  | _ => none

/-- Both languages take the same operands of the instruction set for vendor
operands. -/
theorem extension?_toSymbol {t : Tree} {b : Bytes} (h : Derives IsNull t b) :
    extension? (toSymbol t) = vendor? (toOperand t) := by
  cases h with
  | @fixed ft value _ => cases ft <;> rfl
  | vendor htag _ => exact if_pos ((isVendor_iff _).mpr htag)
  | _ => rfl

/-! ## The same message -/

/-- A packet and a view hold the same message; maps are compared as maps. -/
structure SameContents (p : AiclPacket) (v : Bin.PacketView) : Prop where
  opcode : v.operation = p.opcode.toU8.toNat
  flags : v.flags = p.flags.bits.toNat
  messageId : p.messageId.map Id16.bytes = some v.messageId
  correlationId : p.correlationId.bytes = v.correlationId
  deadlineMs : v.deadlineMs = p.deadlineMs.toNat
  symbols : v.symbols.map sorted =
    (p.operands.filter fun op => (vendor? op).isNone).map operandToSymbol
  extensions : ∀ tag, v.extAll tag = valuesOf tag (p.operands.filterMap vendor?)

/-- The vendor operands of both languages. -/
theorem filterMap_extension? {ts : List Tree} {b : Bytes} (h : DerivesList IsNull ts b) :
    (toSymbols ts).filterMap extension? = (toOperands ts).filterMap vendor? := by
  induction ts generalizing b with
  | nil => rfl
  | cons t ts ih =>
      cases h with
      | cons ht hts =>
          simp only [toSymbols, toOperands, List.filterMap_cons, extension?_toSymbol ht, ih hts]

/-- The other operands of both languages. -/
theorem map_sorted_filter {ts : List Tree} {b : Bytes} (h : DerivesList IsNull ts b) :
    ((toSymbols ts).filter fun s => (extension? s).isNone).map sorted =
      ((toOperands ts).filter fun op => (vendor? op).isNone).map operandToSymbol := by
  induction ts generalizing b with
  | nil => rfl
  | cons t ts ih =>
      cases h with
      | cons ht hts =>
          simp only [toSymbols, toOperands, List.filter_cons, extension?_toSymbol ht]
          split
          · rw [List.map_cons, List.map_cons, sorted_toSymbol ht, ih hts]
          · exact ih hts

/-- The view and the packet of one frame with the same operands hold the same
message. -/
theorem sameContents_of_tree {data : Bytes} (hle : CoreRust.headerSize ≤ data.length)
    {opcode : AiclOpcode} (hop : Bin.operationOf (Bin.region data) = opcode.toU8.toNat)
    {ts : List Tree} {b : Bytes} (h : DerivesList IsNull ts b) :
    SameContents (packetOf opcode data ts) (Bin.viewOf data ts) := by
  have hle' : 56 ≤ data.length := hle
  have hlength : ∀ {a b : Nat}, b ≤ 56 → (field data a b).length = b - a :=
    fun hb => field_length (hb.trans hle')
  constructor
  · exact hop
  · exact (CoreRust.readU16_toNat (hlength (by decide))).symm
  · exact congrArg some (Id16.ofSlice_bytes (hlength (by decide)))
  · exact Id16.ofSlice_bytes (hlength (by decide))
  · exact (CoreRust.readU32_toNat (hlength (by decide))).symm
  · have hsymbols : (Bin.viewOf data ts).symbols =
        (toSymbols ts).filter fun s => (extension? s).isNone := ofSymbols_symbols _
    rw [hsymbols]
    exact map_sorted_filter h
  · intro tag
    have hvalues : (Bin.viewOf data ts).extAll tag =
        valuesOf tag ((toSymbols ts).filterMap extension?) := ofSymbols_extensions tag _
    rw [hvalues, filterMap_extension? h]
    rfl

end Aicl.Interop
