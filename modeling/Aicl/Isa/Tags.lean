import Aicl.Foundation.BigEndian

/-!
# The operand tags of AICL-ISA

Section 3 of the instruction set assigns every operand tag byte a layout:
sixteen types of fixed width, the variable-length types, the bare {lit}`NULL`,
the vendor range, and the ranges kept for future types.

Main results:

- Theorem {lit}`kindOf_eq_reserved_iff`: the table leaves exactly the reserved
  ranges without a layout.
- Theorem {lit}`kindOf_tag`: the sixteen fixed-width tags are told apart.
-/

namespace Aicl

/-- A byte string. -/
abbrev Bytes := List UInt8

namespace Isa

/-- The operand types of fixed width. -/
inductive FixedType where
  | i8 | i16 | i32 | i64 | u8 | u16 | u32 | u64 | f32 | f64
  | uuid | handle | ref | bufRef | tsMs | durationMs
deriving DecidableEq, Repr

/-- The tag byte of a fixed-width type. -/
def FixedType.tag : FixedType → UInt8
  | .i8 => 0x01 | .i16 => 0x02 | .i32 => 0x03 | .i64 => 0x04
  | .u8 => 0x05 | .u16 => 0x06 | .u32 => 0x07 | .u64 => 0x08
  | .f32 => 0x09 | .f64 => 0x0A
  | .uuid => 0x13 | .handle => 0x14 | .ref => 0x15 | .bufRef => 0x16
  | .tsMs => 0x1A | .durationMs => 0x1B

/-- The number of value bytes of a fixed-width type. -/
def FixedType.width : FixedType → Nat
  | .i8 => 1 | .i16 => 2 | .i32 => 4 | .i64 => 8
  | .u8 => 1 | .u16 => 2 | .u32 => 4 | .u64 => 8
  | .f32 => 4 | .f64 => 8
  | .uuid => 16 | .handle => 8 | .ref => 2 | .bufRef => 16
  | .tsMs => 8 | .durationMs => 4

/-- The layout a tag byte announces. -/
inductive Kind where
  | fixed (t : FixedType)
  | bool | str | bytes | list | map | null
  | vendor | reserved
deriving DecidableEq, Repr

/-- The tag table of section 3. -/
def kindOf (tag : UInt8) : Kind :=
  match tag with
  | 0x01 => .fixed .i8 | 0x02 => .fixed .i16 | 0x03 => .fixed .i32 | 0x04 => .fixed .i64
  | 0x05 => .fixed .u8 | 0x06 => .fixed .u16 | 0x07 => .fixed .u32 | 0x08 => .fixed .u64
  | 0x09 => .fixed .f32 | 0x0A => .fixed .f64
  | 0x10 => .bool | 0x11 => .str | 0x12 => .bytes
  | 0x13 => .fixed .uuid | 0x14 => .fixed .handle | 0x15 => .fixed .ref
  | 0x16 => .fixed .bufRef
  | 0x17 => .list | 0x18 => .map | 0x19 => .null
  | 0x1A => .fixed .tsMs | 0x1B => .fixed .durationMs
  | v => if 0x80 ≤ v then .vendor else .reserved

/-- The tags kept for future types. -/
def IsReserved (tag : UInt8) : Prop :=
  tag = 0x00 ∨ (0x0B ≤ tag ∧ tag ≤ 0x0F) ∨ (0x1C ≤ tag ∧ tag ≤ 0x7F)

instance : DecidablePred IsReserved := fun _ => by
  unfold IsReserved
  infer_instance

/-- The table leaves exactly the reserved ranges without a layout. -/
theorem kindOf_eq_reserved_iff (tag : UInt8) : kindOf tag = .reserved ↔ IsReserved tag :=
  UInt8.forall_of_fin (p := fun tag => kindOf tag = .reserved ↔ IsReserved tag) (by decide +kernel) tag

/-- The vendor layout belongs to the upper half of the tags. -/
theorem kindOf_eq_vendor_iff (tag : UInt8) : kindOf tag = .vendor ↔ 0x80 ≤ tag :=
  UInt8.forall_of_fin (p := fun tag => kindOf tag = .vendor ↔ 0x80 ≤ tag) (by decide +kernel) tag

/-- The tag of a fixed-width type announces that type. -/
@[simp] theorem kindOf_tag (t : FixedType) : kindOf t.tag = .fixed t := by
  cases t <;> rfl

/-- The one tag that announces each layout outside the vendor and the reserved
ranges. -/
def Kind.tag? : Kind → Option UInt8
  | .fixed t => some t.tag
  | .bool => some 0x10
  | .str => some 0x11
  | .bytes => some 0x12
  | .list => some 0x17
  | .map => some 0x18
  | .null => some 0x19
  | .vendor => none
  | .reserved => none

/-- A tag with a layout of its own is recovered from the layout. -/
theorem tag?_kindOf (tag : UInt8) : ∀ t ∈ (kindOf tag).tag?, t = tag := by
  intro t ht
  unfold kindOf at ht
  split at ht
  -- the last line of the table is for tags without a layout of their own
  case h_23 =>
    split at ht
    next => cases ht
    next => cases ht
  all_goals exact (Option.some.inj ht).symm

end Isa
end Aicl
