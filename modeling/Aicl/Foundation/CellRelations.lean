import Aicl.Foundation.Cells

/-!
# Cells that correspond

The values that a store of cells holds, as a list, and two stores that hold related
values at the same addresses.

Main results:

- Theorem {lit}`Cells.values_perm_free`: a live cell is one of the values, and the others
  remain when it is freed.
- Theorems {lit}`Cells.Match.alloc`, {lit}`Cells.Match.put` and {lit}`Cells.Match.free`: an
  operation at the same address of both stores.
-/

namespace Cells

variable {α β : Type}

/-! ## Values -/

/-- The values of the cells that were not freed. -/
def values (cells : Cells α) : List α := cells.reduceOption

variable {cells : Cells α} {addr : Nat} {value new : α}

/-- There is no cell yet. -/
@[simp] theorem values_nil : values ([] : Cells α) = [] := rfl

/-- The value of a new cell is the last one. -/
theorem values_alloc : (cells.alloc value).values = cells.values ++ [value] :=
  List.reduceOption_append cells [some value]

/-- A live cell is one of the values, and the others remain when it is freed. -/
theorem values_perm_free (h : cells.get? addr = some value) :
    cells.values.Perm (value :: (cells.free addr).values) := by
  induction cells generalizing addr with
  | nil => cases h
  | cons cell cells ih =>
      cases addr with
      | zero =>
          have hcell : cell = some value := h
          rw [hcell]
          exact List.Perm.refl _
      | succ addr =>
          have hrest : Cells.get? cells addr = some value := h
          cases cell with
          | none => exact ih hrest
          | some first => exact ((ih hrest).cons first).trans (List.Perm.swap value first _)

/-- A live cell is one of the values. -/
theorem mem_values_of_get? (h : cells.get? addr = some value) : value ∈ cells.values :=
  (values_perm_free h).mem_iff.mpr List.mem_cons_self

/-- A cell that is freed may hold anything before. -/
theorem free_put : (cells.put addr new).free addr = cells.free addr := List.set_set ..

/-- What is written is one of the values, beside the other cells. -/
theorem values_perm_put (h : cells.get? addr = some value) :
    (cells.put addr new).values.Perm (new :: (cells.free addr).values) := by
  have hput : (cells.put addr new).get? addr = some new := get?_put_self (lt_length_of_get? h)
  have hperm := values_perm_free hput
  rwa [free_put] at hperm

/-- When no address is live there is no value. -/
theorem values_eq_nil (h : ∀ addr, cells.get? addr = none) : cells.values = [] := by
  apply List.eq_nil_iff_forall_not_mem.mpr
  intro value hmem
  obtain ⟨addr, hcell⟩ := List.mem_iff_getElem?.mp (List.reduceOption_mem_iff.mp hmem)
  have hget : cells.get? addr = some value := by
    rw [get?, hcell]
    rfl
  rw [h addr] at hget
  cases hget

/-- An address that was not given out. -/
theorem get?_of_length_le (h : cells.length ≤ addr) : cells.get? addr = none := by
  rw [get?, List.getElem?_eq_none h]
  rfl

/-! ## Related stores -/

/-- The same addresses were given out, and those that are live hold related values. -/
structure Match (R : α → β → Prop) (cells : Cells α) (others : Cells β) : Prop where
  length_eq : cells.length = others.length
  rel : ∀ addr, Option.Rel R (cells.get? addr) (others.get? addr)

namespace Match

variable {R S : α → β → Prop} {others : Cells β} {other : β}

/-- No address was given out. -/
theorem nil : Match R [] [] where
  length_eq := rfl
  rel _ := .none

/-- An address is live in both stores or in neither. -/
theorem cases (h : Match R cells others) (addr : Nat) :
    (cells.get? addr = none ∧ others.get? addr = none) ∨
      ∃ value other, cells.get? addr = some value ∧ others.get? addr = some other ∧
        R value other := by
  have hrel := h.rel addr
  generalize cells.get? addr = cell at hrel
  generalize others.get? addr = cell' at hrel
  cases hrel with
  | none => exact .inl ⟨rfl, rfl⟩
  | some hvalue => exact .inr ⟨_, _, rfl, rfl, hvalue⟩

/-- No address is live in one store only. -/
theorem gone_iff (h : Match R cells others) (addr : Nat) :
    cells.get? addr = none ↔ others.get? addr = none := by
  rcases h.cases addr with ⟨hcell, hother⟩ | ⟨value, other, hcell, hother, _⟩
  · exact iff_of_true hcell hother
  · rw [hcell, hother]
    exact iff_of_false (Option.some_ne_none value) (Option.some_ne_none other)

/-- Values that are related otherwise as well. -/
theorem imp (h : Match R cells others) (hRS : ∀ value other, R value other → S value other) :
    Match S cells others where
  length_eq := h.length_eq
  rel addr := by
    have hrel := h.rel addr
    generalize cells.get? addr = cell at hrel
    generalize others.get? addr = cell' at hrel
    cases hrel with
    | some hvalue => exact .some (hRS _ _ hvalue)
    | none => exact .none

/-- A new cell in both stores. -/
theorem alloc (h : Match R cells others) (hvalue : R value other) :
    Match R (cells.alloc value) (others.alloc other) where
  length_eq := by rw [length_alloc, length_alloc, h.length_eq]
  rel addr := by
    rcases Nat.lt_trichotomy addr cells.length with hlt | heq | hgt
    · rw [get?_alloc_of_lt hlt, get?_alloc_of_lt (h.length_eq ▸ hlt)]
      exact h.rel addr
    · have hself : (others.alloc other).get? addr = some other := by
        rw [heq, h.length_eq]
        exact get?_alloc_self
      rw [hself, heq, get?_alloc_self]
      exact .some hvalue
    · have hgt' : (others.alloc other).length ≤ addr := by
        rw [length_alloc, ← h.length_eq]
        exact hgt
      rw [get?_of_length_le (length_alloc.trans_le hgt), get?_of_length_le hgt']
      exact .none

/-- A cell that is written in both stores. -/
theorem put (h : Match R cells others) (hlt : addr < cells.length) (hvalue : R value other) :
    Match R (cells.put addr value) (others.put addr other) where
  length_eq := by rw [length_put, length_put, h.length_eq]
  rel b := by
    by_cases hb : addr = b
    · rw [← hb, get?_put_self hlt, get?_put_self (h.length_eq ▸ hlt)]
      exact .some hvalue
    · rw [get?_put_of_ne hb, get?_put_of_ne hb]
      exact h.rel b

/-- A cell that is freed in both stores. -/
theorem free (h : Match R cells others) (addr : Nat) :
    Match R (cells.free addr) (others.free addr) where
  length_eq := by rw [length_free, length_free, h.length_eq]
  rel b := by
    by_cases hb : addr = b
    · rw [← hb, get?_free_self, get?_free_self]
      exact .none
    · rw [get?_free_of_ne hb, get?_free_of_ne hb]
      exact h.rel b

end Match

end Cells
