import Aicl.CoreRust.Opcode
import Aicl.Foundation.Nested
import Aicl.Foundation.OrderedMap
import Aicl.Foundation.Utf8

/-!
# Operands of the Rust core

The operand types and the operand values of {lit}`core-rust/src/operand.rs`.
Floats are kept as their bit patterns.  A {lit}`BTreeMap` is the list of its
entries in key order; that the order holds at every depth is a predicate here
and a field of the packet type.

Main results:

- Theorem {lit}`OperandType.fromU8_eq_null_iff`: every reserved tag is read as
  {lit}`Null`.
- Theorem {lit}`OperandType.fromU8_kindOf`: elsewhere the type table follows the
  tag table of the instruction set.
-/

namespace Aicl.CoreRust

/-! ## Operand types -/

/-- Operand type tag. -/
inductive OperandType where
  | i8 | i16 | i32 | i64 | u8 | u16 | u32 | u64 | f32 | f64
  | bool | str | bytes | uuid | handle | ref | bufRef
  | list | map | null | tsMs | durationMs
  | vendor (v : UInt8)
deriving DecidableEq, Repr

namespace OperandType

/-- {lit}`OperandType::from_u8`: the catch-all arm answers {lit}`Null`. -/
def fromU8 (v : UInt8) : OperandType :=
  match v with
  | 0x01 => .i8 | 0x02 => .i16 | 0x03 => .i32 | 0x04 => .i64
  | 0x05 => .u8 | 0x06 => .u16 | 0x07 => .u32 | 0x08 => .u64
  | 0x09 => .f32 | 0x0A => .f64
  | 0x10 => .bool | 0x11 => .str | 0x12 => .bytes | 0x13 => .uuid
  | 0x14 => .handle | 0x15 => .ref | 0x16 => .bufRef
  | 0x17 => .list | 0x18 => .map | 0x19 => .null
  | 0x1A => .tsMs | 0x1B => .durationMs
  | v => if 0x80 ≤ v then .vendor v else .null

/-- {lit}`OperandType::to_u8`. -/
def toU8 : OperandType → UInt8
  | .i8 => 0x01 | .i16 => 0x02 | .i32 => 0x03 | .i64 => 0x04
  | .u8 => 0x05 | .u16 => 0x06 | .u32 => 0x07 | .u64 => 0x08
  | .f32 => 0x09 | .f64 => 0x0A
  | .bool => 0x10 | .str => 0x11 | .bytes => 0x12 | .uuid => 0x13
  | .handle => 0x14 | .ref => 0x15 | .bufRef => 0x16
  | .list => 0x17 | .map => 0x18 | .null => 0x19
  | .tsMs => 0x1A | .durationMs => 0x1B
  | .vendor v => v

/-- The operand type of a fixed-width type of the instruction set. -/
def ofFixed : Isa.FixedType → OperandType
  | .i8 => .i8 | .i16 => .i16 | .i32 => .i32 | .i64 => .i64
  | .u8 => .u8 | .u16 => .u16 | .u32 => .u32 | .u64 => .u64
  | .f32 => .f32 | .f64 => .f64
  | .uuid => .uuid | .handle => .handle | .ref => .ref | .bufRef => .bufRef
  | .tsMs => .tsMs | .durationMs => .durationMs

/-- The operand type that a layout of the instruction set is read as; a vendor
layout keeps its tag, a reserved one is taken for {lit}`Null`. -/
def ofKind (tag : UInt8) : Isa.Kind → OperandType
  | .fixed t => ofFixed t
  | .bool => .bool | .str => .str | .bytes => .bytes
  | .list => .list | .map => .map | .null => .null
  | .vendor => .vendor tag
  | .reserved => .null

/-- The type table follows the tag table of the instruction set. -/
theorem fromU8_kindOf (tag : UInt8) : fromU8 tag = ofKind tag (Isa.kindOf tag) :=
  UInt8.forall_of_fin (p := fun tag => fromU8 tag = ofKind tag (Isa.kindOf tag))
    (by decide +kernel) tag

/-- {lit}`NULL` and every reserved tag are read as {lit}`Null`. -/
theorem fromU8_eq_null_iff (tag : UInt8) :
    fromU8 tag = .null ↔ tag = 0x19 ∨ Isa.IsReserved tag :=
  UInt8.forall_of_fin (p := fun tag => fromU8 tag = .null ↔ tag = 0x19 ∨ Isa.IsReserved tag)
    (by decide +kernel) tag

/-- The upper half of the tags is read as vendor types. -/
theorem fromU8_vendor (tag : UInt8) : 0x80 ≤ tag → fromU8 tag = .vendor tag :=
  UInt8.forall_of_fin (p := fun tag => 0x80 ≤ tag → fromU8 tag = .vendor tag)
    (by decide +kernel) tag

/-- A fixed-width type has the tag of the instruction set. -/
@[simp] theorem toU8_ofFixed (t : Isa.FixedType) : (ofFixed t).toU8 = t.tag := by
  cases t <;> rfl

end OperandType

/-! ## Operand values -/

/-- {lit}`[u8; 16]`. -/
structure Id16 where
  bytes : Bytes
  length_eq : bytes.length = 16
deriving DecidableEq, Repr

namespace Id16

/-- Sixteen bytes copied from a slice; {lit}`copy_from_slice` is given slices of
that length only. -/
def ofSlice (bs : Bytes) : Id16 where
  bytes := (bs ++ List.replicate 16 0).take 16
  length_eq := by simp

/-- Sixteen zero bytes are sixteen bytes. -/
theorem zero_length : (List.replicate 16 (0 : UInt8)).length = 16 :=
  List.length_replicate

/-- The sixteen zero bytes. -/
def zero : Id16 := ⟨List.replicate 16 0, zero_length⟩

/-- An identifier is determined by its bytes. -/
theorem ext_bytes {a b : Id16} (h : a.bytes = b.bytes) : a = b := by
  cases a
  cases b
  simpa using h

/-- A slice of sixteen bytes is copied as it is. -/
theorem ofSlice_bytes {bs : Bytes} (h : bs.length = 16) : (ofSlice bs).bytes = bs := by
  simp [ofSlice, h]

/-- Copying the bytes of an identifier gives the identifier. -/
@[simp] theorem ofSlice_eq (id : Id16) : ofSlice id.bytes = id :=
  ext_bytes (ofSlice_bytes id.length_eq)

end Id16

/-- Buffer reference descriptor. -/
structure BufRef where
  id : UInt64
  offset : UInt32
  length : UInt32
deriving DecidableEq, Repr

/-- Typed operand value. -/
inductive Operand where
  | i8 (v : Int8) | i16 (v : Int16) | i32 (v : Int32) | i64 (v : Int64)
  | u8 (v : UInt8) | u16 (v : UInt16) | u32 (v : UInt32) | u64 (v : UInt64)
  | f32 (bits : UInt32) | f64 (bits : UInt64)
  | bool (v : Bool)
  | str (s : Utf8String)
  | bytes (b : Bytes)
  | uuid (id : Id16)
  | handle (v : UInt64)
  | ref (v : UInt16)
  | bufRef (b : BufRef)
  | list (items : List Operand)
  | map (entries : List (Utf8String × Operand))
  | null
  | tsMs (v : Int64)
  | durationMs (v : UInt32)
  | vendor (tag : UInt8) (data : Bytes)

namespace Operand

/-- The operand type tag of a value. -/
def kind : Operand → OperandType
  | .i8 _ => .i8 | .i16 _ => .i16 | .i32 _ => .i32 | .i64 _ => .i64
  | .u8 _ => .u8 | .u16 _ => .u16 | .u32 _ => .u32 | .u64 _ => .u64
  | .f32 _ => .f32 | .f64 _ => .f64
  | .bool _ => .bool | .str _ => .str
  | .bytes _ => .bytes | .uuid _ => .uuid
  | .handle _ => .handle | .ref _ => .ref
  | .bufRef _ => .bufRef | .list _ => .list
  | .map _ => .map | .null => .null
  | .tsMs _ => .tsMs | .durationMs _ => .durationMs
  | .vendor t _ => .vendor t

/-! ## Operands within operands -/

/-- The items of a list, the values of a map. -/
def children : Operand → List Operand
  | .list items => items
  | .map entries => entries.map Prod.snd
  | _ => []

/-- What an operand holds is smaller than the operand. -/
theorem sizeOf_children {c op : Operand} (h : c ∈ children op) : sizeOf c < sizeOf op := by
  cases op with
  | list items =>
      have hlt := List.sizeOf_lt_of_mem h
      simp only [children, list.sizeOf_spec] at hlt ⊢
      omega
  | map entries =>
      obtain ⟨⟨key, value⟩, he, rfl⟩ := List.mem_map.mp h
      have hlt := List.sizeOf_lt_of_mem he
      simp only [map.sizeOf_spec, Prod.mk.sizeOf_spec] at hlt ⊢
      omega
  | _ => cases h

instance : Nested Operand := ⟨children, Nested.wf_of_sizeOf sizeOf_children⟩

/-- A property holds of an operand and of everything nested in it. -/
abbrev All (P : Operand → Prop) (op : Operand) : Prop :=
  Nested.All P op

variable {P : Operand → Prop}

/-- A list: the property holds of it and throughout its items. -/
theorem all_list_iff {items : List Operand} :
    All P (.list items) ↔ P (.list items) ∧ ∀ op ∈ items, All P op :=
  Nested.all_iff

/-- A map: the property holds of it and throughout its values. -/
theorem all_map_iff {entries : List (Utf8String × Operand)} :
    All P (.map entries) ↔ P (.map entries) ∧ ∀ e ∈ entries, All P e.2 :=
  Nested.all_iff.trans (and_congr_right' List.forall_mem_map)

/-- An operand with nothing nested in it. -/
def IsLeaf : Operand → Prop
  | .list _ => False
  | .map _ => False
  | _ => True

/-- Nothing stands inside a leaf. -/
theorem IsLeaf.children_eq {op : Operand} (hleaf : op.IsLeaf) : Nested.children op = [] := by
  cases op with
  | list items => exact hleaf.elim
  | map entries => exact hleaf.elim
  | _ => rfl

/-- A leaf: the property holds of it. -/
theorem all_leaf_iff {op : Operand} (hleaf : op.IsLeaf) : All P op ↔ P op := by
  refine Nested.all_iff.trans ?_
  rw [hleaf.children_eq]
  simp

/-- A property of a leaf holds throughout it. -/
theorem All.of_leaf {op : Operand} (hleaf : op.IsLeaf) (h : P op) : All P op :=
  (all_leaf_iff hleaf).mpr h

/-- Induction over operands, with the hypothesis for every item of a list and
every value of a map. -/
theorem induct {P : Operand → Prop} (leaf : ∀ op : Operand, op.IsLeaf → P op)
    (list : ∀ items, (∀ op ∈ items, P op) → P (.list items))
    (map : ∀ entries, (∀ e ∈ entries, P e.2) → P (.map entries)) (op : Operand) : P op := by
  induction op using Nested.induct with
  | step op ih =>
      cases op with
      | list items => exact list items ih
      | map entries => exact map entries (List.forall_mem_map.mp ih)
      | _ => exact leaf _ trivial

/-! ## Properties of operands -/

/-- The entries of a {lit}`BTreeMap` are in key order. -/
def MapSorted : Operand → Prop
  | .map entries => SortedMap.Sorted entries
  | _ => True

/-- Not a vendor operand. -/
def NotVendor : Operand → Prop
  | .vendor _ _ => False
  | _ => True

/-- A vendor operand has a tag of the vendor range. -/
def VendorTag : Operand → Prop
  | .vendor tag _ => 0x80 ≤ tag
  | _ => True

/-- Every length that the operand is written with fits a varint. -/
def Short : Operand → Prop
  | .str s => s.length < 2 ^ 28
  | .bytes b => b.length < 2 ^ 28
  | .list items => items.length < 2 ^ 28
  | .map entries => entries.length < 2 ^ 28 ∧ ∀ e ∈ entries, e.1.length < 2 ^ 28
  | .vendor _ data => data.length < 2 ^ 28
  | _ => True

end Operand

end Aicl.CoreRust
