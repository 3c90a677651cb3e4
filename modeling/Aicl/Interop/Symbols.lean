import Aicl.Bin.OperandsEncode
import Aicl.CoreRust.OperandDecode

/-!
# Operands of one language as symbols of the other

The value of an operand of the Rust core, written as a symbol of the Python
package: integers as {lit}`int`, floats as {lit}`float`, a {lit}`BTreeMap` as the
{lit}`dict` with its entries in key order.  A {lit}`dict` remembers the order in
which its keys came; two symbols that differ in it only are told apart no longer
once their maps are sorted.

Main results:

- Theorem {lit}`sorted_toSymbol`: the two decoders see the same value in every
  operand of the instruction set.
- Theorem {lit}`operandToSymbol_injective`: different operands are different
  symbols.
-/

namespace Aicl.Interop

open Bin (Symbol IntType toSymbols toItems unpackInt)
open CoreRust (Operand toOperand toOperands toEntries Id16 readU8_toNat readU16_toNat readU32_toNat
  readU64_toNat)
open Isa (Tree FixedType Derives DerivesList DerivesEntries IsNull)

/-! ## Operands as symbols -/

mutual

/-- The value of an operand as a symbol. -/
def operandToSymbol : Operand → Symbol
  | .i8 v => .int .i8 v.toInt
  | .i16 v => .int .i16 v.toInt
  | .i32 v => .int .i32 v.toInt
  | .i64 v => .int .i64 v.toInt
  | .u8 v => .int .u8 v.toNat
  | .u16 v => .int .u16 v.toNat
  | .u32 v => .int .u32 v.toNat
  | .u64 v => .int .u64 v.toNat
  | .f32 bits => .f32 (Ieee754.widen bits)
  | .f64 bits => .f64 bits
  | .bool v => .bool v
  | .str s => .string s
  | .bytes b => .bytes b
  | .uuid id => .uuid id.bytes
  | .handle v => .int .handle v.toNat
  | .ref v => .int .ref v.toNat
  | .bufRef b => .bufRef b.id.toNat b.offset.toNat b.length.toNat
  | .list items => .list (operandsToSymbols items)
  | .map entries => .map (entriesToItems entries)
  | .null => .null
  | .tsMs v => .int .tsMs v.toInt
  | .durationMs v => .int .durationMs v.toNat
  | .vendor tag data => .other tag data

/-- The values of a list of operands. -/
def operandsToSymbols : List Operand → List Symbol
  | [] => []
  | op :: ops => operandToSymbol op :: operandsToSymbols ops

/-- The values of the entries of a map. -/
def entriesToItems : List (Utf8String × Operand) → List (Utf8String × Symbol)
  | [] => []
  | (key, op) :: entries => (key, operandToSymbol op) :: entriesToItems entries

end

/-- Lists are converted item by item. -/
theorem operandsToSymbols_eq_map (ops : List Operand) :
    operandsToSymbols ops = ops.map operandToSymbol := by
  induction ops with
  | nil => rfl
  | cons op ops ih => rw [operandsToSymbols, ih, List.map_cons]

/-- Maps are converted value by value. -/
theorem entriesToItems_eq_map (entries : List (Utf8String × Operand)) :
    entriesToItems entries = entries.map fun e => (e.1, operandToSymbol e.2) := by
  induction entries with
  | nil => rfl
  | cons e entries ih => rw [entriesToItems, ih, List.map_cons]

/-- Lists of operands are equal when their values are, if that holds of the first
list's operands. -/
theorem eq_of_operandsToSymbols_eq {ops : List Operand}
    (h : ∀ op ∈ ops, ∀ op', operandToSymbol op = operandToSymbol op' → op = op') :
    ∀ {ops' : List Operand}, operandsToSymbols ops = operandsToSymbols ops' → ops = ops' := by
  induction ops with
  | nil =>
      intro ops' heq
      cases ops' with
      | nil => rfl
      | cons op' ops' => simp [operandsToSymbols] at heq
  | cons op ops ih =>
      intro ops' heq
      cases ops' with
      | nil => simp [operandsToSymbols] at heq
      | cons op' ops' =>
          simp only [operandsToSymbols, List.cons.injEq] at heq
          rw [h op List.mem_cons_self op' heq.1,
            ih (fun x hx => h x (List.mem_cons_of_mem _ hx)) heq.2]

/-- Maps are equal when their values are, if that holds of the first map's
operands. -/
theorem eq_of_entriesToItems_eq {entries : List (Utf8String × Operand)}
    (h : ∀ e ∈ entries, ∀ op', operandToSymbol e.2 = operandToSymbol op' → e.2 = op') :
    ∀ {entries' : List (Utf8String × Operand)},
      entriesToItems entries = entriesToItems entries' → entries = entries' := by
  induction entries with
  | nil =>
      intro entries' heq
      cases entries' with
      | nil => rfl
      | cons e' entries' => simp [entriesToItems] at heq
  | cons e entries ih =>
      intro entries' heq
      cases entries' with
      | nil => simp [entriesToItems] at heq
      | cons e' entries' =>
          simp only [entriesToItems, List.cons.injEq, Prod.mk.injEq] at heq
          have hvalue := h e List.mem_cons_self e'.2 heq.1.2
          rw [ih (fun x hx => h x (List.mem_cons_of_mem _ hx)) heq.2, Prod.ext heq.1.1 hvalue]

/-- Different operands are different symbols. -/
theorem operandToSymbol_injective (op : Operand) :
    ∀ op', operandToSymbol op = operandToSymbol op' → op = op' := by
  induction op using Operand.induct with
  | leaf op hleaf =>
      intro op' h
      cases op <;> cases op' <;>
        simp only [operandToSymbol, reduceCtorEq, Symbol.int.injEq, Symbol.f32.injEq,
          Symbol.f64.injEq, Symbol.bool.injEq, Symbol.string.injEq, Symbol.bytes.injEq,
          Symbol.uuid.injEq, Symbol.bufRef.injEq, Symbol.list.injEq, Symbol.map.injEq,
          Symbol.other.injEq, false_and, true_and, Int.ofNat_inj] at h ⊢
      case i8.i8 => exact congrArg _ (Int8.toInt_inj.mp h)
      case i16.i16 => exact congrArg _ (Int16.toInt_inj.mp h)
      case i32.i32 => exact congrArg _ (Int32.toInt_inj.mp h)
      case i64.i64 | tsMs.tsMs => exact congrArg _ (Int64.toInt_inj.mp h)
      case u8.u8 => exact congrArg _ (UInt8.toNat_inj.mp h)
      case u16.u16 | ref.ref => exact congrArg _ (UInt16.toNat_inj.mp h)
      case u32.u32 | durationMs.durationMs => exact congrArg _ (UInt32.toNat_inj.mp h)
      case u64.u64 | handle.handle => exact congrArg _ (UInt64.toNat_inj.mp h)
      case f32.f32 => exact congrArg _ (Ieee754.widen_injective h)
      case uuid.uuid => exact congrArg _ (Id16.ext_bytes h)
      case bufRef.bufRef b b' =>
        obtain ⟨hid, hoffset, hlength⟩ := h
        cases b
        cases b'
        simp_all [UInt64.toNat_inj, UInt32.toNat_inj]
      all_goals simp_all [Operand.IsLeaf]
  | list items ih =>
      intro op' h
      cases op' <;> simp only [operandToSymbol, reduceCtorEq, Symbol.list.injEq] at h
      exact congrArg Operand.list (eq_of_operandsToSymbols_eq ih h)
  | map entries ih =>
      intro op' h
      cases op' <;> simp only [operandToSymbol, reduceCtorEq, Symbol.map.injEq] at h
      exact congrArg Operand.map (eq_of_entriesToItems_eq ih h)

/-! ## Sorted maps -/

mutual

/-- A symbol with the entries of its maps in key order, at every depth. -/
def sorted : Symbol → Symbol
  | .list items => .list (sortedItems items)
  | .map entries => .map (SortedMap.ofEntries (sortedEntries entries))
  | s => s

/-- The items of a list with their maps sorted. -/
def sortedItems : List Symbol → List Symbol
  | [] => []
  | s :: items => sorted s :: sortedItems items

/-- The values of a map with their maps sorted. -/
def sortedEntries : List (Utf8String × Symbol) → List (Utf8String × Symbol)
  | [] => []
  | (key, s) :: entries => (key, sorted s) :: sortedEntries entries

end

/-- Lists are sorted item by item. -/
theorem sortedItems_eq_map (items : List Symbol) : sortedItems items = items.map sorted := by
  induction items with
  | nil => rfl
  | cons s items ih => rw [sortedItems, ih, List.map_cons]

/-- Maps are sorted value by value. -/
theorem sortedEntries_eq_map (entries : List (Utf8String × Symbol)) :
    sortedEntries entries = entries.map fun e => (e.1, sorted e.2) := by
  induction entries with
  | nil => rfl
  | cons e entries ih => rw [sortedEntries, ih, List.map_cons]

/-! ## Values of fixed width -/

/-- The unsigned number of a byte string. -/
theorem unpackInt_unsigned (bs : Bytes) : unpackInt false bs = (BigEndian.ofBytes bs : Int) := by
  simp [unpackInt]

/-- Two's complement by comparison with half of the range. -/
theorem unpackInt_signed {w : Nat} (hw : 0 < w) {bs : Bytes} (hlen : bs.length = w)
    (v : BitVec (8 * w)) (hv : v.toNat = BigEndian.ofBytes bs) : v.toInt = unpackInt true bs := by
  have hpow : 2 ^ (8 * w) = 256 ^ w := by rw [Nat.pow_mul]
  have hhalf := Bin.two_mul_half hw
  unfold unpackInt
  rw [BitVec.toInt_eq_toNat_cond, hv, hlen, hpow]
  simp only [true_and]
  split <;> split <;> omega

/-- Both decoders read the same value of fixed width. -/
theorem operandToSymbol_ofFixed {t : FixedType} {bs : Bytes} (h : bs.length = t.width) :
    operandToSymbol (.ofFixed t bs) = .ofFixed t bs := by
  cases t with
  | i8 => exact congrArg (Symbol.int _) (unpackInt_signed (by decide) h _ (readU8_toNat h))
  | i16 => exact congrArg (Symbol.int _) (unpackInt_signed (by decide) h _ (readU16_toNat h))
  | i32 => exact congrArg (Symbol.int _) (unpackInt_signed (by decide) h _ (readU32_toNat h))
  | i64 => exact congrArg (Symbol.int _) (unpackInt_signed (by decide) h _ (readU64_toNat h))
  | tsMs => exact congrArg (Symbol.int _) (unpackInt_signed (by decide) h _ (readU64_toNat h))
  | u8 => simp only [Operand.ofFixed, operandToSymbol, Symbol.ofFixed, unpackInt_unsigned,
      readU8_toNat h]
  | u16 => simp only [Operand.ofFixed, operandToSymbol, Symbol.ofFixed, unpackInt_unsigned,
      readU16_toNat h]
  | ref => simp only [Operand.ofFixed, operandToSymbol, Symbol.ofFixed, unpackInt_unsigned,
      readU16_toNat h]
  | u32 => simp only [Operand.ofFixed, operandToSymbol, Symbol.ofFixed, unpackInt_unsigned,
      readU32_toNat h]
  | durationMs => simp only [Operand.ofFixed, operandToSymbol, Symbol.ofFixed, unpackInt_unsigned,
      readU32_toNat h]
  | u64 => simp only [Operand.ofFixed, operandToSymbol, Symbol.ofFixed, unpackInt_unsigned,
      readU64_toNat h]
  | handle => simp only [Operand.ofFixed, operandToSymbol, Symbol.ofFixed, unpackInt_unsigned,
      readU64_toNat h]
  | f32 => rfl
  | f64 => rfl
  | uuid => simp only [Operand.ofFixed, operandToSymbol, Symbol.ofFixed, Id16.ofSlice_bytes h]
  | bufRef =>
      have hlen : bs.length = 16 := h
      have hid : (bs.take 8).length = 8 := List.length_take_of_le (by omega)
      have hoffset : ((bs.drop 8).take 4).length = 4 :=
        List.length_take_of_le (by rw [List.length_drop]; omega)
      have hlength : (bs.drop 12).length = 4 := by rw [List.length_drop]; omega
      simp only [Operand.ofFixed, operandToSymbol, Symbol.ofFixed, unpackInt_unsigned,
        readU64_toNat hid, readU32_toNat hoffset, readU32_toNat hlength]

/-! ## Both decoders see the same value -/

/-- A value without maps stays as it is. -/
theorem sorted_ofFixed (t : FixedType) (bs : Bytes) :
    sorted (.ofFixed t bs) = .ofFixed t bs := by
  cases t <;> rfl

mutual

/-- The two decoders see the same value in every operand of the instruction
set. -/
theorem sorted_toSymbol {t : Tree} {b : Bytes} :
    Derives IsNull t b → sorted (Bin.toSymbol t) = operandToSymbol (toOperand t)
  | .fixed hw => by
      rw [Bin.toSymbol, toOperand, sorted_ofFixed, operandToSymbol_ofFixed hw]
  | .bool => rfl
  | .str _ => rfl
  | .bytes _ => rfl
  | .list _ hs => by
      rw [Bin.toSymbol, toOperand, sorted, operandToSymbol, sortedItems_toSymbols hs]
  | @Derives.map _ es _ _ _ hs => by
      -- a dict that was built entry by entry is sorted as if it had been a sorted map
      have hentries := sortedEntries_toItems hs
      rw [sortedEntries_eq_map, entriesToItems_eq_map] at hentries
      rw [Bin.toSymbol, toOperand, sorted, operandToSymbol, sortedEntries_eq_map,
        entriesToItems_eq_map, Dict.map_ofEntries, SortedMap.ofEntries_dictOfEntries, hentries,
        SortedMap.map_ofEntries]
  | .bare _ => rfl
  | .vendor _ _ => rfl

/-- The same for a sequence of operands. -/
theorem sortedItems_toSymbols {ts : List Tree} {b : Bytes} :
    DerivesList IsNull ts b → sortedItems (toSymbols ts) = operandsToSymbols (toOperands ts)
  | .nil => rfl
  | .cons h hs => by
      rw [toSymbols, toOperands, sortedItems, operandsToSymbols, sorted_toSymbol h,
        sortedItems_toSymbols hs]

/-- The same for a sequence of map entries. -/
theorem sortedEntries_toItems {es : List (Utf8String × Tree)} {b : Bytes} :
    DerivesEntries IsNull es b → sortedEntries (toItems es) = entriesToItems (toEntries es)
  | .nil => rfl
  | .cons _ h hs => by
      rw [toItems, toEntries, sortedEntries, entriesToItems, sorted_toSymbol h,
        sortedEntries_toItems hs]

end

end Aicl.Interop
