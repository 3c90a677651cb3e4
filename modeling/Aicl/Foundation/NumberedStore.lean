import Mathlib

/-!
# Stores that number their entries

A store gives a number to every entry it takes, the next one each time, and never gives
a number twice: it is the list of everything that was ever stored, with a gap for what was
taken out.  A map under keys of finitely many numbers is such a store as long as the numbers
last.

Main results:

- Theorem {lit}`NumberedStore.Numbers.insert`: an entry under the next number.
- Theorem {lit}`NumberedStore.Numbers.exists_lookup_iff`: the entries of the map, whatever
  their keys.
- Theorem {lit}`NumberedStore.mem_addNew_iff`: collecting without repetition.
-/

namespace NumberedStore

variable {κ α : Type}

/-- The entry under a number, if it is still there. -/
def get (entries : List (Option α)) (n : Nat) : Option α := entries[n]?.join

/-- What is under a number after something was added at the end. -/
theorem get_append (entries : List (Option α)) (a : α) (n : Nat) :
    get (entries ++ [some a]) n = if n = entries.length then some a else get entries n := by
  unfold get
  by_cases hn : n = entries.length
  · simp [hn]
  · rw [if_neg hn, List.getElem?_append]
    split
    · rfl
    · next hge =>
        have hlt : entries.length < n := Nat.lt_of_le_of_ne (Nat.le_of_not_lt hge) (Ne.symm hn)
        have hnone : [some a][n - entries.length]? = none :=
          List.getElem?_eq_none (by simp only [List.length_singleton]; omega)
        rw [hnone, List.getElem?_eq_none hlt.le]

/-- What is under a number after something was taken out. -/
theorem get_set (entries : List (Option α)) (k n : Nat) :
    get (entries.set k none) n = if n = k then none else get entries n := by
  unfold get
  rw [List.getElem?_set]
  by_cases hn : k = n
  · subst hn
    by_cases hlt : k < entries.length <;> simp [hlt]
  · rw [if_neg hn, if_neg (Ne.symm hn)]

/-- Nothing is under a number of a store of gaps. -/
theorem get_replicate (k n : Nat) : get (List.replicate k (none : Option α)) n = none := by
  unfold get
  rw [List.getElem?_replicate]
  split <;> rfl

/-- Something is in the store when it is under a number. -/
theorem exists_get_iff {entries : List (Option α)} {a : α} :
    (∃ n, get entries n = some a) ↔ some a ∈ entries := by
  simp only [get, Option.join_eq_some_iff, List.mem_iff_getElem?]

variable [DecidableEq κ]

/-- The entries stand in the map under the keys with their numbers. -/
def Numbers (number : κ → Nat) (map : AList fun _ : κ => α) (entries : List (Option α)) : Prop :=
  ∀ key, map.lookup key = get entries (number key)

namespace Numbers

variable {number : κ → Nat} {map : AList fun _ : κ => α} {entries : List (Option α)} {key : κ}
  {a : α}

/-- An empty map has gaps only. -/
theorem empty (k : Nat) : Numbers number (∅ : AList fun _ : κ => α) (List.replicate k none) := by
  intro key
  rw [get_replicate, AList.lookup_empty]

/-- A key is in the map when something is under its number. -/
theorem mem_iff (h : Numbers number map entries) : key ∈ map ↔ (get entries (number key)).isSome := by
  rw [← h key, AList.lookup_isSome]

/-- The key with the next number is free. -/
theorem lookup_next (h : Numbers number map entries) (hnext : number key = entries.length) :
    map.lookup key = none := by
  rw [h key, hnext, get, List.getElem?_eq_none (Nat.le_refl _)]
  rfl

/-- An entry under the next number. -/
theorem insert (h : Numbers number map entries) (hnumber : number.Injective)
    (hnext : number key = entries.length) :
    Numbers number (map.insert key a) (entries ++ [some a]) := by
  intro other
  rw [get_append]
  by_cases hother : other = key
  · rw [hother, AList.lookup_insert, if_pos hnext]
  · have hne : number other ≠ entries.length :=
      fun heq => hother (hnumber (heq.trans hnext.symm))
    rw [AList.lookup_insert_ne hother, if_neg hne, h other]

/-- An entry that is taken out leaves a gap. -/
theorem erase (h : Numbers number map entries) (hnumber : number.Injective) :
    Numbers number (map.erase key) (entries.set (number key) none) := by
  intro other
  rw [get_set]
  by_cases hother : other = key
  · rw [hother, AList.lookup_erase, if_pos rfl]
  · rw [AList.lookup_erase_ne hother, if_neg fun heq => hother (hnumber heq), h other]

/-- What is in the map is in the store, when there are keys for its numbers. -/
theorem exists_lookup_iff (h : Numbers number map entries)
    (hkeys : ∀ n < entries.length, ∃ key, number key = n) :
    (∃ key, map.lookup key = some a) ↔ some a ∈ entries := by
  rw [← exists_get_iff]
  constructor
  · rintro ⟨key, hkey⟩
    exact ⟨number key, (h key).symm.trans hkey⟩
  · rintro ⟨n, hn⟩
    have hlt : n < entries.length := by
      by_contra hge
      rw [get, List.getElem?_eq_none (Nat.le_of_not_lt hge)] at hn
      cases hn
    rcases hkeys n hlt with ⟨key, rfl⟩
    exact ⟨key, (h key).trans hn⟩

end Numbers

/-! ## Collecting without repetition -/

variable [DecidableEq α] {a : α} {out : List α}

/-- Add what is not there yet, one after the other. -/
def addNew (out : List α) : List α → List α
  | [] => out
  | a :: as => addNew (if a ∈ out then out else out ++ [a]) as

/-- What is added is there, with what was there. -/
theorem mem_addNew_iff {as : List α} : a ∈ addNew out as ↔ a ∈ out ∨ a ∈ as := by
  induction as generalizing out with
  | nil => simp [addNew]
  | cons first as ih =>
      rw [addNew, ih, List.mem_cons]
      split
      · next hmem =>
          constructor
          · exact fun h => h.imp_right Or.inr
          · rintro (hout | rfl | has)
            · exact .inl hout
            · exact .inl hmem
            · exact .inr has
      · rw [List.mem_append, List.mem_singleton, or_assoc]

/-- Nothing is added twice. -/
theorem nodup_addNew {as : List α} (h : out.Nodup) : (addNew out as).Nodup := by
  induction as generalizing out with
  | nil => exact h
  | cons first as ih =>
      apply ih
      split
      · exact h
      · next hnew =>
          rw [List.nodup_append_comm, List.singleton_append, List.nodup_cons]
          exact ⟨hnew, h⟩

end NumberedStore
