import Mathlib

/-!
# Cells that are freed by hand

A store of cells that a program allocates, reads, writes and frees at addresses.
An address is used for one cell only, so that a cell that was freed stays freed.
A cell that is read or freed after it was freed is not there.

Main results:

- Theorems {lit}`Cells.get?_alloc_self`, {lit}`Cells.get?_put_self` and
  {lit}`Cells.get?_free_self`: what an operation does at its address.
- Theorems {lit}`Cells.get?_alloc_of_lt`, {lit}`Cells.get?_put_of_ne` and
  {lit}`Cells.get?_free_of_ne`: it changes no other cell.
-/

/-- A cell at every address that was given out; none once it is freed. -/
abbrev Cells (α : Type) := List (Option α)

namespace Cells

variable {α : Type} {cells : Cells α} {addr other : Nat} {value : α}

/-- What an address holds. -/
def get? (cells : Cells α) (addr : Nat) : Option α := cells[addr]?.join

/-- The cells with a new one at the next address. -/
def alloc (cells : Cells α) (value : α) : Cells α := cells ++ [some value]

/-- The cells with another value at an address. -/
def put (cells : Cells α) (addr : Nat) (value : α) : Cells α := cells.set addr (some value)

/-- The cells without the one at an address. -/
def free (cells : Cells α) (addr : Nat) : Cells α := cells.set addr none

@[simp] theorem length_alloc : (cells.alloc value).length = cells.length + 1 :=
  List.length_append

@[simp] theorem length_put : (cells.put addr value).length = cells.length := List.length_set

@[simp] theorem length_free : (cells.free addr).length = cells.length := List.length_set

/-- A cell that holds a value has an address that was given out. -/
theorem lt_length_of_get? (h : cells.get? addr = some value) : addr < cells.length := by
  have hcell : cells[addr]? = some (some value) := Option.join_eq_some_iff.mp h
  exact (List.getElem?_eq_some_iff.mp hcell).1

/-- The new cell. -/
@[simp] theorem get?_alloc_self : (cells.alloc value).get? cells.length = some value := by
  simp [get?, alloc]

/-- The cells before the new one. -/
theorem get?_alloc_of_lt (h : addr < cells.length) :
    (cells.alloc value).get? addr = cells.get? addr := by
  rw [get?, alloc, List.getElem?_append_left h, get?]

/-- The cell that is written. -/
theorem get?_put_self (h : addr < cells.length) :
    (cells.put addr value).get? addr = some value := by
  rw [get?, put, List.getElem?_set_self h]
  rfl

/-- The cells that are not written. -/
theorem get?_put_of_ne (h : addr ≠ other) :
    (cells.put addr value).get? other = cells.get? other := by
  rw [get?, put, List.getElem?_set_ne h, get?]

/-- The cell that is freed. -/
@[simp] theorem get?_free_self : (cells.free addr).get? addr = none := by
  by_cases h : addr < cells.length
  · rw [get?, free, List.getElem?_set_self h]
    rfl
  · rw [get?, free, List.getElem?_eq_none (by rw [List.length_set]; omega)]
    rfl

/-- The cells that are not freed. -/
theorem get?_free_of_ne (h : addr ≠ other) : (cells.free addr).get? other = cells.get? other := by
  rw [get?, free, List.getElem?_set_ne h, get?]

end Cells
