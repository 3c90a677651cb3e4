import Aicl.Bin.Accepts

/-!
# Where a view puts its operands

A view keeps the vendor operands apart from the others and files them by tag.

Main results:

- Theorem {lit}`ofSymbols_symbols`: the symbols of a view.
- Theorem {lit}`ofSymbols_extensions`: the values that a view has under a tag.
-/

namespace Aicl.Bin

/-! ## Vendor operands -/

/-- The tag and the bytes of a symbol that a view files under its tag. -/
def extension? : Symbol → Option (UInt8 × Bytes)
  | .other tag value => if isVendor tag then some (tag, value) else none
  | _ => none

/-- The bytes that stand under one tag, in order. -/
def valuesOf (tag : UInt8) (pairs : List (UInt8 × Bytes)) : List Bytes :=
  (pairs.filter fun e => e.1 == tag).map Prod.snd

/-! ## Where a view puts its symbols -/

/-- A symbol without an extension goes to the end of the symbols. -/
theorem file_of_extension?_eq_none {s : Symbol} (h : extension? s = none) (c : Contents) :
    c.file s = { c with symbols := c.symbols ++ [s] } := by
  cases s with
  | other tag value =>
      have hvendor : ¬ isVendor tag = true := by
        intro hv
        rw [extension?, if_pos hv] at h
        cases h
      exact if_neg hvendor
  | _ => rfl

/-- A symbol with an extension is filed under its tag. -/
theorem file_of_extension?_eq_some {s : Symbol} {tag : UInt8} {value : Bytes}
    (h : extension? s = some (tag, value)) (c : Contents) :
    c.file s = c.addExtension tag value := by
  cases s with
  | other tag' value' =>
      rw [extension?] at h
      split at h
      next hv =>
        cases h
        exact if_pos hv
      next => cases h
  | _ => cases h

/-- The symbols that follow those already there. -/
theorem foldl_file_symbols (ss : List Symbol) (c : Contents) :
    (ss.foldl Contents.file c).symbols =
      c.symbols ++ ss.filter fun s => (extension? s).isNone := by
  induction ss generalizing c with
  | nil => simp
  | cons s ss ih =>
      rw [List.foldl_cons, ih]
      cases h : extension? s with
      | none => simp [file_of_extension?_eq_none h, h]
      | some e => simp [file_of_extension?_eq_some h, Contents.addExtension, h]

/-- The values under a tag that follow those already there. -/
theorem foldl_file_extensions (tag : UInt8) (ss : List Symbol) (c : Contents) :
    (Dict.get? tag (ss.foldl Contents.file c).extensions).getD [] =
      (Dict.get? tag c.extensions).getD [] ++ valuesOf tag (ss.filterMap extension?) := by
  induction ss generalizing c with
  | nil => simp [valuesOf]
  | cons s ss ih =>
      rw [List.foldl_cons, ih]
      cases h : extension? s with
      | none => simp [file_of_extension?_eq_none h, h]
      | some e =>
          obtain ⟨tag', value⟩ := e
          rw [file_of_extension?_eq_some h, Contents.addExtension, List.filterMap_cons_some h,
            Dict.get?_set]
          by_cases htag : tag' = tag
          · subst htag
            simp [valuesOf]
          · simp [valuesOf, htag, Ne.symm htag]

/-- The symbols of a view are those without an extension. -/
theorem ofSymbols_symbols (ss : List Symbol) :
    (Contents.ofSymbols ss).symbols = ss.filter fun s => (extension? s).isNone := by
  simp [Contents.ofSymbols, foldl_file_symbols, Contents.empty]

/-- The extensions of a view are the others, by tag and in order. -/
theorem ofSymbols_extensions (tag : UInt8) (ss : List Symbol) :
    (Dict.get? tag (Contents.ofSymbols ss).extensions).getD [] =
      valuesOf tag (ss.filterMap extension?) := by
  simp [Contents.ofSymbols, foldl_file_extensions, Contents.empty, Dict.get?]

end Aicl.Bin
