import Aicl.Foundation.OrderedMap

/-!
# Dictionaries that leave out defaults

A record is printed as a dictionary in which a field is written only if a test on it
says so, and is read back with a default for every key that is missing.

Main results:

- Theorem {lit}`SparseDict.get?_assign`: what a key of the printed dictionary holds.
- Theorem {lit}`SparseDict.getD_build`: what is read back for a field.
-/

namespace SparseDict

variable {κ α : Type}

/-- A field of a record: its key, what is written under it, and whether it is. -/
structure Field (κ α : Type) where
  key : κ
  value : α
  keep : Bool

variable [DecidableEq κ]

/-- Write the fields into a dictionary one after the other. -/
def assign (fields : List (Field κ α)) (d : List (κ × α)) : List (κ × α) :=
  fields.foldl (fun d f => if f.keep then Dict.set f.key f.value d else d) d

/-- The dictionary of a record. -/
def build (fields : List (Field κ α)) : List (κ × α) := assign fields []

/-- {lit}`get` with a default. -/
def getD (d : List (κ × α)) (key : κ) (default : α) : α := (Dict.get? key d).getD default

/-- Other keys are left alone. -/
theorem get?_assign_of_not_mem {key : κ} {fields : List (Field κ α)}
    (hkey : key ∉ fields.map Field.key) (d : List (κ × α)) :
    Dict.get? key (assign fields d) = Dict.get? key d := by
  induction fields generalizing d with
  | nil => rfl
  | cons f fields ih =>
      simp only [List.map_cons, List.mem_cons, not_or] at hkey
      rw [assign, List.foldl_cons, ← assign, ih hkey.2]
      by_cases hkeep : f.keep
      · rw [if_pos hkeep, Dict.get?_set, if_neg hkey.1]
      · rw [if_neg hkeep]

/-- A key holds what its field was written with. -/
theorem get?_assign {f : Field κ α} {fields : List (Field κ α)} {d : List (κ × α)}
    (hkeys : (fields.map Field.key).Nodup) (hf : f ∈ fields) (hnew : Dict.get? f.key d = none) :
    Dict.get? f.key (assign fields d) = if f.keep then some f.value else none := by
  induction fields generalizing d with
  | nil => cases hf
  | cons g fields ih =>
      rw [List.map_cons, List.nodup_cons] at hkeys
      rw [assign, List.foldl_cons, ← assign]
      rcases List.mem_cons.mp hf with rfl | hf
      · rw [get?_assign_of_not_mem hkeys.1]
        by_cases hkeep : f.keep
        · rw [if_pos hkeep, if_pos hkeep, Dict.get?_set, if_pos rfl]
        · rw [if_neg hkeep, if_neg hkeep, hnew]
      · have hne : f.key ≠ g.key := by
          intro heq
          exact hkeys.1 (heq ▸ List.mem_map_of_mem hf)
        apply ih hkeys.2 hf
        by_cases hkeep : g.keep
        · rw [if_pos hkeep, Dict.get?_set, if_neg hne, hnew]
        · rw [if_neg hkeep, hnew]

/-- A field is read back as it was written, or as the default. -/
theorem getD_build {f : Field κ α} {fields : List (Field κ α)}
    (hkeys : (fields.map Field.key).Nodup) (hf : f ∈ fields) (default : α) :
    getD (build fields) f.key default = if f.keep then f.value else default := by
  rw [getD, build, get?_assign hkeys hf rfl]
  by_cases hkeep : f.keep <;> simp [hkeep]

end SparseDict
