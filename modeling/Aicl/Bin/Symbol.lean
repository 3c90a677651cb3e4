import Aicl.Bin.Exceptions
import Aicl.Foundation.Nested
import Aicl.Foundation.OrderedMap
import Aicl.Foundation.Utf8

/-!
# Symbols of the Python package

The operand tags of {lit}`aicl/bin/symbol_types.py` and the {lit}`Symbol` class of
{lit}`aicl/bin/types.py`.  A symbol of the package is a tag and an untyped value;
here each tag has a constructor with the type that the class documents for it,
integers being unbounded and floats doubles, kept as their bit patterns.  A
{lit}`dict` is the list of its entries in insertion order; that keys are distinct
is a predicate here and a field of the packet type.

Main results:

- Theorem {lit}`isVendor_iff`: the vendor test follows the tag table of the
  instruction set.
- Theorem {lit}`Symbol.induct`: induction over symbols.
-/

namespace Aicl.Bin

/-! ## Tags -/

def S_I8 : UInt8 := 0x01
def S_I16 : UInt8 := 0x02
def S_I32 : UInt8 := 0x03
def S_I64 : UInt8 := 0x04
def S_U8 : UInt8 := 0x05
def S_U16 : UInt8 := 0x06
def S_U32 : UInt8 := 0x07
def S_U64 : UInt8 := 0x08
def S_F32 : UInt8 := 0x09
def S_F64 : UInt8 := 0x0A
def S_BOOL : UInt8 := 0x10
def S_STRING : UInt8 := 0x11
def S_BYTES : UInt8 := 0x12
def S_UUID : UInt8 := 0x13
def S_HANDLE : UInt8 := 0x14
def S_REF : UInt8 := 0x15
def S_BUF_REF : UInt8 := 0x16
def S_LIST : UInt8 := 0x17
def S_MAP : UInt8 := 0x18
def S_NULL : UInt8 := 0x19
def S_TS_MS : UInt8 := 0x1A
def S_DURATION_MS : UInt8 := 0x1B

/-- {lit}`is_vendor` of {lit}`symbol_types.py`. -/
def isVendor (tag : UInt8) : Bool := 0x80 ≤ tag && tag ≤ 0xFF

/-- The vendor test follows the tag table. -/
theorem isVendor_iff (tag : UInt8) : isVendor tag = true ↔ 0x80 ≤ tag :=
  UInt8.forall_of_fin (p := fun tag => isVendor tag = true ↔ 0x80 ≤ tag) (by decide +kernel) tag

/-! ## Symbols -/

/-- The tags whose value is an {lit}`int`. -/
inductive IntType where
  | i8 | i16 | i32 | i64 | u8 | u16 | u32 | u64 | handle | ref | tsMs | durationMs
deriving DecidableEq, Repr

namespace IntType

/-- The tag byte. -/
def tag : IntType → UInt8
  | .i8 => S_I8 | .i16 => S_I16 | .i32 => S_I32 | .i64 => S_I64
  | .u8 => S_U8 | .u16 => S_U16 | .u32 => S_U32 | .u64 => S_U64
  | .handle => S_HANDLE | .ref => S_REF
  | .tsMs => S_TS_MS | .durationMs => S_DURATION_MS

/-- The size of the {lit}`struct` format: {lit}`b`, {lit}`h`, {lit}`i`, {lit}`q` and
their unsigned forms. -/
def width : IntType → Nat
  | .i8 | .u8 => 1
  | .i16 | .u16 | .ref => 2
  | .i32 | .u32 | .durationMs => 4
  | .i64 | .u64 | .handle | .tsMs => 8

/-- The {lit}`struct` format has a sign. -/
def signed : IntType → Bool
  | .i8 | .i16 | .i32 | .i64 | .tsMs => true
  | .u8 | .u16 | .u32 | .u64 | .handle | .ref | .durationMs => false

/-- The fixed-width type of the instruction set. -/
def fixed : IntType → Isa.FixedType
  | .i8 => .i8 | .i16 => .i16 | .i32 => .i32 | .i64 => .i64
  | .u8 => .u8 | .u16 => .u16 | .u32 => .u32 | .u64 => .u64
  | .handle => .handle | .ref => .ref
  | .tsMs => .tsMs | .durationMs => .durationMs

/-- The tags are those of the instruction set. -/
theorem tag_eq (t : IntType) : t.tag = t.fixed.tag := by
  cases t <;> rfl

/-- The widths are those of the instruction set. -/
theorem width_eq (t : IntType) : t.width = t.fixed.width := by
  cases t <;> rfl

end IntType

/-- A typed operand.  {lit}`other` stands for the tags that none of the other
constructors has. -/
inductive Symbol where
  | int (t : IntType) (value : Int)
  | f32 (value : UInt64) | f64 (value : UInt64)
  | bool (value : Bool)
  | string (value : Utf8String)
  | bytes (value : Bytes)
  | uuid (value : Bytes)
  | bufRef (id offset length : Int)
  | list (value : List Symbol)
  | map (value : List (Utf8String × Symbol))
  | null
  | other (tag : UInt8) (value : Bytes)

namespace Symbol

/-- {lit}`symbol.tag`. -/
def tag : Symbol → UInt8
  | .int t _ => t.tag
  | .f32 _ => S_F32 | .f64 _ => S_F64
  | .bool _ => S_BOOL
  | .string _ => S_STRING
  | .bytes _ => S_BYTES
  | .uuid _ => S_UUID
  | .bufRef _ _ _ => S_BUF_REF
  | .list _ => S_LIST
  | .map _ => S_MAP
  | .null => S_NULL
  | .other tag _ => tag

/-! ## Symbols within symbols -/

/-- The items of a list, the values of a map. -/
def children : Symbol → List Symbol
  | .list items => items
  | .map entries => entries.map Prod.snd
  | _ => []

/-- What a symbol holds is smaller than the symbol. -/
theorem sizeOf_children {c s : Symbol} (h : c ∈ children s) : sizeOf c < sizeOf s := by
  cases s with
  | list items =>
      have hlt := List.sizeOf_lt_of_mem h
      simp only [children, list.sizeOf_spec] at hlt ⊢
      omega
  | map entries =>
      obtain ⟨⟨key, value⟩, he, rfl⟩ := List.mem_map.mp h
      have hlt := List.sizeOf_lt_of_mem he
      simp only [map.sizeOf_spec, Prod.mk.sizeOf_spec] at hlt ⊢
      omega
  | _ => cases h

instance : Nested Symbol := ⟨children, Nested.wf_of_sizeOf sizeOf_children⟩

/-- A property holds of a symbol and of everything nested in it. -/
abbrev All (P : Symbol → Prop) (s : Symbol) : Prop :=
  Nested.All P s

variable {P : Symbol → Prop}

/-- A list: the property holds of it and throughout its items. -/
theorem all_list_iff {items : List Symbol} :
    All P (.list items) ↔ P (.list items) ∧ ∀ s ∈ items, All P s :=
  Nested.all_iff

/-- A map: the property holds of it and throughout its values. -/
theorem all_map_iff {entries : List (Utf8String × Symbol)} :
    All P (.map entries) ↔ P (.map entries) ∧ ∀ e ∈ entries, All P e.2 :=
  Nested.all_iff.trans (and_congr_right' List.forall_mem_map)

/-- A symbol with nothing nested in it. -/
def IsLeaf : Symbol → Prop
  | .list _ => False
  | .map _ => False
  | _ => True

/-- Nothing stands inside a leaf. -/
theorem IsLeaf.children_eq {s : Symbol} (hleaf : s.IsLeaf) : Nested.children s = [] := by
  cases s with
  | list items => exact hleaf.elim
  | map entries => exact hleaf.elim
  | _ => rfl

/-- A property of a leaf holds throughout it. -/
theorem All.of_leaf {s : Symbol} (hleaf : s.IsLeaf) (h : P s) : All P s := by
  refine Nested.all_iff.mpr ⟨h, ?_⟩
  rw [hleaf.children_eq]
  simp

/-- Induction over symbols, with the hypothesis for every item of a list and
every value of a map. -/
theorem induct {P : Symbol → Prop} (leaf : ∀ s : Symbol, s.IsLeaf → P s)
    (list : ∀ items, (∀ s ∈ items, P s) → P (.list items))
    (map : ∀ entries, (∀ e ∈ entries, P e.2) → P (.map entries)) (s : Symbol) : P s := by
  induction s using Nested.induct with
  | step s ih =>
      cases s with
      | list items => exact list items ih
      | map entries => exact map entries (List.forall_mem_map.mp ih)
      | _ => exact leaf _ trivial

/-- What the constructors leave open: the keys of a {lit}`dict` are distinct, and
{lit}`other` has a tag that no other constructor has. -/
def WellFormed : Symbol → Prop
  | .map entries => Dict.NodupKeys entries
  | .other tag _ => Isa.kindOf tag = .vendor ∨ Isa.kindOf tag = .reserved
  | _ => True

end Symbol

end Aicl.Bin
