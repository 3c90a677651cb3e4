import Mathlib

/-!
# Maps as association lists

Two map representations that a program may print and read back entry by entry:
one that keeps its entries in key order, and one that keeps them in the order of
first insertion.  Both are lists of key-value pairs; insertion replaces the
value of a key that is present.

Main results:

- Theorem {lit}`SortedMap.insert_sorted`: insertion keeps the keys strictly
  increasing.
- Theorem {lit}`SortedMap.ofEntries_eq_self`: re-inserting the entries of a
  sorted map one by one gives the map back.
- Theorem {lit}`SortedMap.ofEntries_dictSet`: sorting a dictionary after an
  insertion is inserting into the sorted dictionary.
-/

namespace SortedMap

variable {κ α : Type} [LinearOrder κ]

/-- Keys strictly increase from left to right. -/
def Sorted (m : List (κ × α)) : Prop :=
  m.Pairwise fun a b => a.1 < b.1

/-- Insert in key order; the value of a present key is replaced. -/
def insert (k : κ) (v : α) : List (κ × α) → List (κ × α)
  | [] => [(k, v)]
  | (k', v') :: m =>
      if k < k' then (k, v) :: (k', v') :: m
      else if k = k' then (k, v) :: m
      else (k', v') :: insert k v m

/-- The map that sequential insertion of a list of entries builds. -/
def ofEntries (es : List (κ × α)) : List (κ × α) :=
  es.foldl (fun m e => insert e.1 e.2 m) []

/-! ## Order -/

/-- An inserted map holds the new entry and entries of the old map only. -/
theorem mem_insert {k : κ} {v : α} {m : List (κ × α)} {e : κ × α} (h : e ∈ insert k v m) :
    e = (k, v) ∨ e ∈ m := by
  induction m with
  | nil => simpa [insert] using h
  | cons hd m ih =>
      obtain ⟨k', v'⟩ := hd
      simp only [insert] at h
      split at h
      · simpa using h
      · split at h
        · rcases List.mem_cons.mp h with h | h
          · exact .inl h
          · exact .inr (List.mem_cons_of_mem _ h)
        · rcases List.mem_cons.mp h with h | h
          · exact .inr (h ▸ List.mem_cons_self)
          · exact (ih h).imp id (List.mem_cons_of_mem _)

/-- Insertion keeps the keys strictly increasing. -/
theorem insert_sorted (k : κ) (v : α) {m : List (κ × α)} (h : Sorted m) :
    Sorted (insert k v m) := by
  induction m with
  | nil => simp [insert, Sorted]
  | cons hd m ih =>
      obtain ⟨k', v'⟩ := hd
      obtain ⟨hhead, htail⟩ := List.pairwise_cons.mp h
      simp only [insert]
      split
      next hlt =>
        refine List.pairwise_cons.mpr ⟨fun e he => ?_, h⟩
        rcases List.mem_cons.mp he with rfl | he
        · exact hlt
        · exact hlt.trans (hhead e he)
      next hnlt =>
        split
        next heq => exact List.pairwise_cons.mpr ⟨fun e he => heq ▸ hhead e he, htail⟩
        next hne =>
          have hgt : k' < k := lt_of_le_of_ne (not_lt.mp hnlt) (Ne.symm hne)
          refine List.pairwise_cons.mpr ⟨fun e he => ?_, ih htail⟩
          rcases mem_insert he with rfl | he
          · exact hgt
          · exact hhead e he

/-- Sequential insertion builds a sorted map. -/
theorem foldl_insert_sorted (es : List (κ × α)) {m : List (κ × α)} (h : Sorted m) :
    Sorted (es.foldl (fun m e => insert e.1 e.2 m) m) := by
  induction es generalizing m with
  | nil => exact h
  | cons e es ih => exact ih (insert_sorted e.1 e.2 h)

/-- The map built from a list of entries is sorted. -/
theorem ofEntries_sorted (es : List (κ × α)) : Sorted (ofEntries es) :=
  foldl_insert_sorted es List.Pairwise.nil

/-- Sequential insertion puts in the given entries only. -/
theorem mem_foldl_insert {es m : List (κ × α)} {e : κ × α}
    (h : e ∈ es.foldl (fun m e => insert e.1 e.2 m) m) : e ∈ es ∨ e ∈ m := by
  induction es generalizing m with
  | nil => exact .inr h
  | cons e' es ih =>
      rcases ih h with h | h
      · exact .inl (List.mem_cons_of_mem _ h)
      · rcases mem_insert h with rfl | h
        · exact .inl List.mem_cons_self
        · exact .inr h

/-- A map built from entries has these entries only. -/
theorem mem_ofEntries {es : List (κ × α)} {e : κ × α} (h : e ∈ ofEntries es) : e ∈ es := by
  simpa using mem_foldl_insert h

/-- A key above all keys of a map is inserted at its end. -/
theorem insert_eq_append {k : κ} {v : α} {m : List (κ × α)} (h : ∀ e ∈ m, e.1 < k) :
    insert k v m = m ++ [(k, v)] := by
  induction m with
  | nil => rfl
  | cons hd m ih =>
      obtain ⟨k', v'⟩ := hd
      have hlt : k' < k := h (k', v') List.mem_cons_self
      simp only [insert, if_neg (not_lt.mpr hlt.le), if_neg hlt.ne', List.cons_append]
      rw [ih fun e he => h e (List.mem_cons_of_mem _ he)]

/-- Inserting increasing entries after a map of smaller keys appends them. -/
theorem foldl_insert_eq_append {es m : List (κ × α)} (h : Sorted (m ++ es)) :
    es.foldl (fun m e => insert e.1 e.2 m) m = m ++ es := by
  induction es generalizing m with
  | nil => simp
  | cons e es ih =>
      have hbelow : ∀ e' ∈ m, e'.1 < e.1 := fun e' he' =>
        (List.pairwise_append.mp h).2.2 e' he' e List.mem_cons_self
      rw [List.foldl_cons, insert_eq_append hbelow]
      simpa using ih (m := m ++ [e]) (by simpa using h)

/-- Re-inserting the entries of a sorted map gives the map back. -/
theorem ofEntries_eq_self {m : List (κ × α)} (h : Sorted m) : ofEntries m = m :=
  foldl_insert_eq_append (m := []) (by simpa using h)

/-! ## Summed weights -/

/-- The sum of a weight over the entries of a map. -/
def weight (w : κ × α → Nat) (m : List (κ × α)) : Nat :=
  (m.map w).sum

/-- Insertion adds at most the weight of the new entry. -/
theorem weight_insert_le (w : κ × α → Nat) (k : κ) (v : α) (m : List (κ × α)) :
    weight w (insert k v m) ≤ w (k, v) + weight w m := by
  induction m with
  | nil => simp [insert, weight]
  | cons hd m ih =>
      obtain ⟨k', v'⟩ := hd
      simp only [insert]
      split
      · simp [weight]
      · split
        · simp [weight]
        · simp only [weight, List.map_cons, List.sum_cons] at ih ⊢
          omega

/-- Sequential insertion weighs at most what its entries weigh. -/
theorem weight_foldl_insert_le (w : κ × α → Nat) (es m : List (κ × α)) :
    weight w (es.foldl (fun m e => insert e.1 e.2 m) m) ≤ weight w m + weight w es := by
  induction es generalizing m with
  | nil => simp [weight]
  | cons e es ih =>
      have hstep : weight w (insert e.1 e.2 m) ≤ w e + weight w m := weight_insert_le w e.1 e.2 m
      have hrest := ih (insert e.1 e.2 m)
      simp only [List.foldl_cons, weight, List.map_cons, List.sum_cons] at hstep hrest ⊢
      omega

/-- A map built from entries weighs at most what the entries weigh. -/
theorem weight_ofEntries_le (w : κ × α → Nat) (es : List (κ × α)) :
    weight w (ofEntries es) ≤ weight w es := by
  simpa [weight, ofEntries] using weight_foldl_insert_le w es []

omit [LinearOrder κ] in
/-- Entries of weight one count the map. -/
theorem weight_one (m : List (κ × α)) : weight (fun _ => 1) m = m.length := by
  induction m with
  | nil => rfl
  | cons e m ih =>
      simp only [weight, List.map_cons, List.sum_cons, List.length_cons] at ih ⊢
      omega

/-- A map built from entries has at most as many entries. -/
theorem ofEntries_length_le (es : List (κ × α)) : (ofEntries es).length ≤ es.length := by
  simpa only [weight_one] using weight_ofEntries_le (fun _ => 1) es

/-! ## Mapping values -/

/-- Insertion commutes with a change of values. -/
theorem map_insert {β : Type} (f : α → β) (k : κ) (v : α) (m : List (κ × α)) :
    (insert k v m).map (fun e => (e.1, f e.2)) =
      insert k (f v) (m.map fun e => (e.1, f e.2)) := by
  induction m with
  | nil => rfl
  | cons hd m ih =>
      obtain ⟨k', v'⟩ := hd
      simp only [insert, List.map_cons]
      split
      · rfl
      · split
        · rfl
        · rw [List.map_cons, ih]

/-- Mapping the values of a built map is building from mapped values. -/
theorem map_foldl_insert {β : Type} (f : α → β) (es m : List (κ × α)) :
    (es.foldl (fun m e => insert e.1 e.2 m) m).map (fun e => (e.1, f e.2)) =
      (es.map fun e => (e.1, f e.2)).foldl (fun m e => insert e.1 e.2 m)
        (m.map fun e => (e.1, f e.2)) := by
  induction es generalizing m with
  | nil => rfl
  | cons e es ih => rw [List.foldl_cons, ih, map_insert, List.map_cons, List.foldl_cons]

/-- Mapping the values of a built map is building from mapped values. -/
theorem map_ofEntries {β : Type} (f : α → β) (es : List (κ × α)) :
    (ofEntries es).map (fun e => (e.1, f e.2)) = ofEntries (es.map fun e => (e.1, f e.2)) :=
  map_foldl_insert f es []

end SortedMap

namespace Dict

variable {κ α : Type} [DecidableEq κ]

/-- Set the value of a key: a present key keeps its place, a new one goes to the
end. -/
def set (k : κ) (v : α) : List (κ × α) → List (κ × α)
  | [] => [(k, v)]
  | (k', v') :: d => if k = k' then (k, v) :: d else (k', v') :: set k v d

/-- The value of a key. -/
def get? (k : κ) : List (κ × α) → Option α
  | [] => none
  | (k', v) :: d => if k = k' then some v else get? k d

/-- The dictionary that sequential assignment of a list of entries builds. -/
def ofEntries (es : List (κ × α)) : List (κ × α) :=
  es.foldl (fun d e => set e.1 e.2 d) []

/-- No key occurs twice. -/
def NodupKeys (d : List (κ × α)) : Prop :=
  (d.map Prod.fst).Nodup

/-- Reading back after an assignment. -/
theorem get?_set (k k' : κ) (v : α) (d : List (κ × α)) :
    get? k' (set k v d) = if k' = k then some v else get? k' d := by
  induction d with
  | nil => rfl
  | cons hd d ih =>
      obtain ⟨k₀, v₀⟩ := hd
      by_cases hk : k = k₀
      · subst hk
        by_cases hk' : k' = k <;> simp [set, get?, hk']
      · simp only [set, if_neg hk, get?, ih]
        by_cases hk₀ : k' = k₀
        · have hne : k' ≠ k := fun h => hk (h.symm.trans hk₀)
          rw [if_pos hk₀, if_neg hne, if_pos hk₀]
        · rw [if_neg hk₀, if_neg hk₀]

/-- A key that is not among the entries has no value. -/
theorem get?_eq_none {k : κ} {d : List (κ × α)} (h : k ∉ d.map Prod.fst) : get? k d = none := by
  induction d with
  | nil => rfl
  | cons hd d ih =>
      obtain ⟨k', v'⟩ := hd
      simp only [List.map_cons, List.mem_cons, not_or] at h
      simp only [get?, if_neg h.1, ih h.2]

/-- A value of a key is an entry. -/
theorem mem_of_get? {k : κ} {v : α} {d : List (κ × α)} (h : get? k d = some v) : (k, v) ∈ d := by
  induction d with
  | nil => cases h
  | cons hd d ih =>
      rcases hd with ⟨k', v'⟩
      rw [get?] at h
      by_cases hk : k = k'
      · rw [if_pos hk] at h
        cases h
        rw [hk]
        exact List.mem_cons_self
      · rw [if_neg hk] at h
        exact List.mem_cons_of_mem _ (ih h)

/-- The keys after an assignment. -/
theorem mem_keys_set {k k' : κ} {v : α} {d : List (κ × α)}
    (h : k' ∈ (set k v d).map Prod.fst) : k' = k ∨ k' ∈ d.map Prod.fst := by
  induction d with
  | nil => simpa [set] using h
  | cons hd d ih =>
      obtain ⟨k₀, v₀⟩ := hd
      by_cases hk : k = k₀
      · subst hk
        simpa [set] using h
      · simp only [set, if_neg hk, List.map_cons, List.mem_cons] at h ⊢
        rcases h with h | h
        · exact .inr (.inl h)
        · exact (ih h).imp id .inr

/-- Assignment keeps the keys distinct. -/
theorem set_nodupKeys (k : κ) (v : α) {d : List (κ × α)} (h : NodupKeys d) :
    NodupKeys (set k v d) := by
  induction d with
  | nil => simp [set, NodupKeys]
  | cons hd d ih =>
      obtain ⟨k₀, v₀⟩ := hd
      by_cases hk : k = k₀
      · subst hk
        simpa [set, NodupKeys] using h
      · obtain ⟨hhead, htail⟩ := List.nodup_cons.mp h
        simp only [set, if_neg hk]
        refine List.nodup_cons.mpr ⟨fun hmem => ?_, ih htail⟩
        rcases mem_keys_set hmem with heq | hmem
        · exact hk heq.symm
        · exact hhead hmem

/-- Sequential assignment builds distinct keys. -/
theorem foldl_set_nodupKeys (es : List (κ × α)) {d : List (κ × α)} (h : NodupKeys d) :
    NodupKeys (es.foldl (fun d e => set e.1 e.2 d) d) := by
  induction es generalizing d with
  | nil => exact h
  | cons e es ih => exact ih (set_nodupKeys e.1 e.2 h)

/-- Mapping the values after an assignment. -/
theorem map_set {β : Type} (f : α → β) (k : κ) (v : α) (d : List (κ × α)) :
    (set k v d).map (fun e => (e.1, f e.2)) = set k (f v) (d.map fun e => (e.1, f e.2)) := by
  induction d with
  | nil => rfl
  | cons hd d ih =>
      by_cases hk : k = hd.1
      · simp [set, hk]
      · simp only [set, if_neg hk, List.map_cons, ih]

/-- Mapping the values of a built dictionary is building from mapped values. -/
theorem map_foldl_set {β : Type} (f : α → β) (es d : List (κ × α)) :
    (es.foldl (fun d e => set e.1 e.2 d) d).map (fun e => (e.1, f e.2)) =
      (es.map fun e => (e.1, f e.2)).foldl (fun d e => set e.1 e.2 d)
        (d.map fun e => (e.1, f e.2)) := by
  induction es generalizing d with
  | nil => rfl
  | cons e es ih => rw [List.foldl_cons, ih, map_set, List.map_cons, List.foldl_cons]

/-- Mapping the values of a built dictionary is building from mapped values. -/
theorem map_ofEntries {β : Type} (f : α → β) (es : List (κ × α)) :
    (ofEntries es).map (fun e => (e.1, f e.2)) = ofEntries (es.map fun e => (e.1, f e.2)) :=
  map_foldl_set f es []

/-- A new key goes to the end. -/
theorem set_of_not_mem {k : κ} {v : α} {d : List (κ × α)} (h : k ∉ d.map Prod.fst) :
    set k v d = d ++ [(k, v)] := by
  induction d with
  | nil => rfl
  | cons hd d ih =>
      simp only [List.map_cons, List.mem_cons, not_or] at h
      simp only [set, if_neg h.1, ih h.2, List.cons_append]

/-- Assigning entries with new and distinct keys appends them. -/
theorem foldl_set_eq_append {es d : List (κ × α)} (h : NodupKeys (d ++ es)) :
    es.foldl (fun d e => set e.1 e.2 d) d = d ++ es := by
  induction es generalizing d with
  | nil => simp
  | cons e es ih =>
      have hnew : e.1 ∉ d.map Prod.fst := by
        unfold NodupKeys at h
        rw [List.map_append, List.nodup_append] at h
        intro hmem
        exact h.2.2 e.1 hmem e.1 (by simp) rfl
      rw [List.foldl_cons, set_of_not_mem hnew, ih (by simpa using h)]
      simp

/-- A dictionary is built from its own entries. -/
theorem ofEntries_eq_self {d : List (κ × α)} (h : NodupKeys d) : ofEntries d = d :=
  foldl_set_eq_append (d := []) (by simpa using h)

/-- Sequential assignment builds given keys only. -/
theorem mem_keys_foldl_set {k : κ} {es d : List (κ × α)}
    (h : k ∈ (es.foldl (fun d e => set e.1 e.2 d) d).map Prod.fst) :
    k ∈ es.map Prod.fst ∨ k ∈ d.map Prod.fst := by
  induction es generalizing d with
  | nil => exact .inr h
  | cons e es ih =>
      rcases ih h with h | h
      · exact .inl (List.mem_cons_of_mem _ h)
      · rcases mem_keys_set h with h | h
        · exact .inl (h ▸ List.mem_cons_self)
        · exact .inr h

/-- The dictionary built from a list of entries has distinct keys. -/
theorem ofEntries_nodupKeys (es : List (κ × α)) : NodupKeys (ofEntries es) :=
  foldl_set_nodupKeys es (by simp [NodupKeys])

/-- A dictionary built from numbered keys still holds all numbers exactly when no key
was assigned twice. -/
theorem forall_mem_values_zipIdx_iff (keys : List κ) :
    (∀ i < keys.length, i ∈ (ofEntries keys.zipIdx).map Prod.snd) ↔ keys.Nodup := by
  constructor
  · intro h
    have hkeys : ((ofEntries keys.zipIdx).map Prod.fst).Nodup := ofEntries_nodupKeys _
    have hsubset : (ofEntries keys.zipIdx).map Prod.fst ⊆ keys := by
      intro k hk
      rcases mem_keys_foldl_set hk with hk | hk
      · rwa [List.zipIdx_map_fst] at hk
      · cases hk
    have hvalues : List.range keys.length ⊆ (ofEntries keys.zipIdx).map Prod.snd :=
      fun i hi => h i (List.mem_range.mp hi)
    have hcount : keys.length ≤ ((ofEntries keys.zipIdx).map Prod.fst).length := by
      have hle := (List.nodup_range.subperm hvalues).length_le
      simpa using hle
    -- as many distinct keys as there are keys: all keys are distinct
    exact ((hkeys.subperm hsubset).perm_of_length_le hcount).nodup_iff.mp hkeys
  · intro h i hi
    have hkeys : NodupKeys keys.zipIdx := by
      rw [NodupKeys, List.zipIdx_map_fst]
      exact h
    rw [ofEntries_eq_self hkeys, List.zipIdx_map_snd, List.mem_range'_1]
    omega

end Dict

namespace SortedMap

variable {κ α : Type} [LinearOrder κ]

/-! ## Sorting a dictionary -/

/-- Reading back after an insertion. -/
theorem get?_insert (k k' : κ) (v : α) (m : List (κ × α)) :
    Dict.get? k' (insert k v m) = if k' = k then some v else Dict.get? k' m := by
  induction m with
  | nil => rfl
  | cons hd m ih =>
      obtain ⟨k₀, v₀⟩ := hd
      simp only [insert]
      split
      · rfl
      · split
        next heq =>
          subst heq
          by_cases hk' : k' = k <;> simp [Dict.get?, hk']
        next hne =>
          simp only [Dict.get?, ih]
          by_cases hk₀ : k' = k₀
          · have hne' : k' ≠ k := fun h => hne (h.symm.trans hk₀)
            rw [if_pos hk₀, if_neg hne', if_pos hk₀]
          · rw [if_neg hk₀, if_neg hk₀]

/-- Reading back after an insertion, whichever way the reader compares its keys. -/
theorem get?_insert_decEq [hdec : DecidableEq κ] (k k' : κ) (v : α) (m : List (κ × α)) :
    Dict.get? k' (insert k v m) = if k' = k then some v else Dict.get? k' m := by
  obtain rfl : hdec = LinearOrder.toDecidableEq := Subsingleton.elim _ _
  exact get?_insert k k' v m

/-- A key below all keys of a map has no value in it. -/
theorem get?_eq_none_of_lt {k : κ} {m : List (κ × α)} (h : ∀ e ∈ m, k < e.1) :
    Dict.get? k m = none := by
  apply Dict.get?_eq_none
  intro hmem
  obtain ⟨e, he, rfl⟩ := List.mem_map.mp hmem
  exact lt_irrefl _ (h e he)

/-- An entry of a sorted map is found under its key. -/
theorem get?_of_mem {k : κ} {v : α} {m : List (κ × α)} (hm : Sorted m) (h : (k, v) ∈ m) :
    Dict.get? k m = some v := by
  induction m with
  | nil => cases h
  | cons hd m ih =>
      have ⟨hhead, htail⟩ := List.pairwise_cons.mp hm
      rcases List.mem_cons.mp h with h | h
      · rw [← h, Dict.get?, if_pos rfl]
      · rw [Dict.get?, if_neg (hhead (k, v) h).ne']
        exact ih htail h

/-- Sorted maps with the same values are equal. -/
theorem eq_of_get?_eq {m m' : List (κ × α)} (hm : Sorted m) (hm' : Sorted m')
    (h : ∀ k, Dict.get? k m = Dict.get? k m') : m = m' := by
  induction m generalizing m' with
  | nil =>
      cases m' with
      | nil => rfl
      | cons e m' => simpa [Dict.get?] using h e.1
  | cons e m ih =>
      cases m' with
      | nil => simpa [Dict.get?] using h e.1
      | cons e' m' =>
          obtain ⟨k, v⟩ := e
          obtain ⟨k', v'⟩ := e'
          obtain ⟨hhead, htail⟩ := List.pairwise_cons.mp hm
          obtain ⟨hhead', htail'⟩ := List.pairwise_cons.mp hm'
          -- the smaller of two different heads would be missing on the other side
          have hkey : k = k' := by
            rcases lt_trichotomy k k' with hlt | heq | hlt
            · have hnone := get?_eq_none_of_lt (m := (k', v') :: m') (k := k) (by
                intro e he
                rcases List.mem_cons.mp he with rfl | he
                · exact hlt
                · exact hlt.trans (hhead' e he))
              have hsome := h k
              rw [hnone] at hsome
              simp [Dict.get?] at hsome
            · exact heq
            · have hnone := get?_eq_none_of_lt (m := (k, v) :: m) (k := k') (by
                intro e he
                rcases List.mem_cons.mp he with rfl | he
                · exact hlt
                · exact hlt.trans (hhead e he))
              have hsome := h k'
              rw [hnone] at hsome
              simp [Dict.get?] at hsome
          subst hkey
          have hval : v = v' := by simpa [Dict.get?] using h k
          subst hval
          congr 1
          refine ih htail htail' fun k₀ => ?_
          by_cases hk₀ : k₀ = k
          · subst hk₀
            rw [get?_eq_none_of_lt hhead, get?_eq_none_of_lt hhead']
          · simpa [Dict.get?, hk₀] using h k₀

/-- The values after sequential insertion of entries with distinct keys. -/
theorem get?_foldl_insert (k : κ) {es : List (κ × α)} (hes : Dict.NodupKeys es)
    (m : List (κ × α)) :
    Dict.get? k (es.foldl (fun m e => insert e.1 e.2 m) m) =
      (Dict.get? k es).or (Dict.get? k m) := by
  induction es generalizing m with
  | nil => rfl
  | cons e es ih =>
      obtain ⟨hhead, htail⟩ := List.nodup_cons.mp hes
      rw [List.foldl_cons, ih htail, get?_insert]
      by_cases hk : k = e.1
      · subst hk
        rw [Dict.get?_eq_none hhead]
        simp [Dict.get?]
      · simp [Dict.get?, hk]

/-- Sorting a dictionary after an assignment is inserting into the sorted
dictionary. -/
theorem ofEntries_dictSet (k : κ) (v : α) {d : List (κ × α)} (hd : Dict.NodupKeys d) :
    ofEntries (Dict.set k v d) = insert k v (ofEntries d) := by
  refine eq_of_get?_eq (ofEntries_sorted _) (insert_sorted k v (ofEntries_sorted d)) fun k' => ?_
  rw [get?_insert, ofEntries, ofEntries, get?_foldl_insert k' (Dict.set_nodupKeys k v hd),
    get?_foldl_insert k' hd, Dict.get?_set]
  by_cases hk : k' = k <;> simp [hk, Dict.get?]

/-- Sorting a built dictionary is building a sorted one. -/
theorem ofEntries_foldl_dictSet (es : List (κ × α)) {d : List (κ × α)} (hd : Dict.NodupKeys d) :
    ofEntries (es.foldl (fun d e => Dict.set e.1 e.2 d) d) =
      es.foldl (fun m e => insert e.1 e.2 m) (ofEntries d) := by
  induction es generalizing d with
  | nil => rfl
  | cons e es ih =>
      rw [List.foldl_cons, List.foldl_cons, ih (Dict.set_nodupKeys e.1 e.2 hd),
        ofEntries_dictSet e.1 e.2 hd]

/-- Sorting a built dictionary is building a sorted one, whichever way the
dictionary compares its keys. -/
theorem ofEntries_dictOfEntries [hdec : DecidableEq κ] (es : List (κ × α)) :
    ofEntries (Dict.ofEntries es) = ofEntries es := by
  obtain rfl : hdec = LinearOrder.toDecidableEq := Subsingleton.elim _ _
  exact ofEntries_foldl_dictSet es (by simp [Dict.NodupKeys])

end SortedMap
