import Aicl.Bin.OperandsEncode

/-!
# Operand round trips in the Python package

{lit}`encode_symbol` and {lit}`encode_symbols` of {lit}`aicl/bin/operands.py` followed
by {lit}`decode_symbol` and {lit}`decode_symbols`.  A well-typed symbol has integers
in the range of its tag, singles behind {lit}`F32`, identifiers of sixteen bytes,
distinct keys, a vendor tag where it has none of the named ones, and lengths below
{lit}`2 ^ 28`.

Main results:

- Theorem {lit}`encodeSymbol_of_wellTyped`: well-typed symbols are encoded.
- Theorem {lit}`decodeSymbols_ne_panic`: the fuel of {lit}`decodeSymbols` is enough.
- Theorem {lit}`operands_roundTrip`: well-typed symbols are read back at any position.
-/

namespace Aicl.Bin

open Isa (Derives DerivesList IsNull)

/-! ## Decoding to the end -/

/-- The loop of {lit}`decode_symbols`, for as many rounds as the fuel allows. -/
def decodeSymbolsFuel : Nat → List Symbol → Bytes → Nat → PyResult (List Symbol × Nat)
  | 0, _, _, _ => .panic
  | fuel + 1, result, data, pos =>
      if pos < data.length then do
        let (sym, pos) ← decodeSymbol data pos
        decodeSymbolsFuel fuel (result ++ [sym]) data pos
      else pure (result, pos)

/-- {lit}`decode_symbols`: every round takes at least one byte. -/
def decodeSymbols (data : Bytes) (pos : Nat) : PyResult (List Symbol × Nat) :=
  decodeSymbolsFuel (data.length + 1) [] data pos

/-- An operand takes at least one byte. -/
theorem Spells.length_pos {s : Symbol} {b : Bytes} (h : Spells s b) : 0 < b.length := by
  rcases h with ⟨t, ht, _⟩
  exact ht.length_pos

/-- A round for each byte that is left is enough. -/
theorem decodeSymbolsFuel_ne_panic (pre rest : Bytes) {fuel : Nat} (hfuel : rest.length < fuel)
    (result : List Symbol) :
    decodeSymbolsFuel fuel result (pre ++ rest) pre.length ≠ .panic := by
  induction fuel generalizing pre rest result with
  | zero => omega
  | succ fuel ih =>
      rw [decodeSymbolsFuel]
      split
      · have hsound := (decodeSymbol_reads (rest.length + 1)).sound pre rest (Nat.lt_succ_self _)
        cases hdecode : decodeSymbol (pre ++ rest) pre.length with
        | err e => exact fun h => nomatch h
        | panic =>
            rw [hdecode] at hsound
            exact hsound.elim
        | ok r =>
            rcases r with ⟨sym, pos⟩
            rw [hdecode] at hsound
            rcases hsound with ⟨b, post, hrest, hspells, hpos⟩
            have hlength := hspells.length_pos
            have hsplit : pre ++ rest = (pre ++ b) ++ post := by
              rw [hrest, List.append_assoc]
            have hnext : pos = (pre ++ b).length := by
              rw [List.length_append]
              exact hpos
            rw [Outcome.ok_bind, hsplit, hnext]
            apply ih
            rw [hrest, List.length_append] at hfuel
            omega
      · exact fun h => nomatch h

/-- {lit}`decode_symbols` never runs out of fuel. -/
theorem decodeSymbols_ne_panic {data : Bytes} {pos : Nat} (hpos : pos ≤ data.length) :
    decodeSymbols data pos ≠ .panic := by
  have hfuel : (data.drop pos).length < data.length + 1 := by
    rw [List.length_drop]
    omega
  have hne := decodeSymbolsFuel_ne_panic (data.take pos) (data.drop pos) hfuel []
  rwa [List.take_append_drop, List.length_take, Nat.min_eq_left hpos] at hne

/-! ## Well-typed symbols -/

namespace Symbol

/-- What the tag of a symbol requires of its value, nested symbols apart. -/
def Typed : Symbol → Prop
  | .int t value => InRange t.signed t.width value
  | .f32 value => ∃ single, value = Ieee754.widen single
  | .string value => value.length < 2 ^ 28
  | .bytes value => value.length < 2 ^ 28
  | .uuid value => value.length = 16
  | .bufRef id offset length => InRange false 8 id ∧ InRange false 4 offset ∧ InRange false 4 length
  | .list items => items.length < 2 ^ 28
  | .map entries =>
      Dict.NodupKeys entries ∧ entries.length < 2 ^ 28 ∧ ∀ e ∈ entries, e.1.length < 2 ^ 28
  | .other tag value => isVendor tag = true ∧ value.length < 2 ^ 28
  | _ => True

/-- A symbol whose value is of the type of its tag, at every depth. -/
abbrev WellTyped (s : Symbol) : Prop := s.All Typed

/-- Well-typed symbols are well formed. -/
theorem WellTyped.wellFormed {s : Symbol} (h : s.WellTyped) : s.All WellFormed := by
  intro x hx
  have htyped := h x hx
  cases x with
  | map entries => exact htyped.1
  | other tag value =>
      exact .inl ((Isa.kindOf_eq_vendor_iff tag).mpr ((isVendor_iff tag).mp htyped.1))
  | _ => exact trivial

/-- Well-typed symbols have short lengths. -/
theorem WellTyped.short {s : Symbol} (h : s.WellTyped) : s.All Short := by
  intro x hx
  have htyped := h x hx
  cases x with
  | string value => exact htyped
  | bytes value => exact htyped
  | list items => exact htyped
  | map entries => exact htyped.2
  | other tag value => exact htyped.2
  | _ => exact trivial

/-- Rounding leaves well-typed symbols. -/
theorem WellTyped.rounded_eq {s : Symbol} (h : s.WellTyped) : s.rounded = s := by
  induction s using Symbol.induct with
  | leaf s hleaf =>
      cases s with
      | f32 value =>
          rcases h.self with ⟨single, hvalue⟩
          rw [Symbol.rounded, hvalue, roundSingle_widen]
      | list items => exact hleaf.elim
      | map entries => exact hleaf.elim
      | _ => rfl
  | list items ih =>
      have hitems := (all_list_iff.mp h).2
      have hmap : items.map Symbol.rounded = items.map id :=
        List.map_congr_left fun s hs => ih s hs (hitems s hs)
      rw [Symbol.rounded, roundedItems_eq_map, hmap, List.map_id]
  | map entries ih =>
      have hentries := (all_map_iff.mp h).2
      have hmap : entries.map (fun e => (e.1, e.2.rounded)) = entries.map id := by
        apply List.map_congr_left
        intro e he
        rw [ih e he (hentries e he), id]
      rw [Symbol.rounded, roundedEntries_eq_map, hmap, List.map_id]

end Symbol

/-! ## The encoder returns -/

/-- Items that are encoded one by one are encoded. -/
theorem encodeItems_of_forall {items : List Symbol}
    (h : ∀ s ∈ items, ∃ b, encodeSymbol s = .ok b) : ∃ b, encodeItems items = .ok b := by
  induction items with
  | nil => exact ⟨[], rfl⟩
  | cons s items ih =>
      rcases h s List.mem_cons_self with ⟨raw, hraw⟩
      rcases ih fun x hx => h x (List.mem_cons_of_mem _ hx) with ⟨rest, hrest⟩
      refine ⟨raw ++ rest, ?_⟩
      rw [encodeItems, hraw, Outcome.ok_bind, hrest, Outcome.ok_bind, Outcome.pure_eq]

/-- Entries whose values are encoded one by one are encoded. -/
theorem encodeEntries_of_forall {entries : List (Utf8String × Symbol)}
    (h : ∀ e ∈ entries, ∃ b, encodeSymbol e.2 = .ok b) : ∃ b, encodeEntries entries = .ok b := by
  induction entries with
  | nil => exact ⟨[], rfl⟩
  | cons e entries ih =>
      rcases e with ⟨key, s⟩
      rcases h (key, s) List.mem_cons_self with ⟨raw, hraw⟩
      rcases ih fun x hx => h x (List.mem_cons_of_mem _ hx) with ⟨rest, hrest⟩
      rw [encodeEntries, encodeCounted_eq, Outcome.ok_bind, hraw, Outcome.ok_bind, hrest,
        Outcome.ok_bind]
      exact ⟨_, rfl⟩

/-- Well-typed symbols are encoded. -/
theorem encodeSymbol_of_wellTyped (s : Symbol) (h : s.WellTyped) :
    ∃ b, encodeSymbol s = .ok b := by
  induction s using Symbol.induct with
  | leaf s hleaf =>
      have htyped := h.self
      cases s with
      | int t value =>
          have hrange : InRange t.signed t.width value := htyped
          rw [encodeSymbol, packInt, if_pos hrange, Outcome.ok_bind]
          exact ⟨_, rfl⟩
      | f32 value =>
          rcases htyped with ⟨single, hvalue⟩
          rw [encodeSymbol, hvalue, packF32, Ieee754.narrow_widen, Outcome.ok_bind]
          exact ⟨_, rfl⟩
      | string value =>
          rw [encodeSymbol, encodeCounted_eq, Outcome.ok_bind]
          exact ⟨_, rfl⟩
      | bytes value =>
          rw [encodeSymbol, encodeCounted_eq, Outcome.ok_bind]
          exact ⟨_, rfl⟩
      | uuid value =>
          have hlength : ¬ value.length ≠ 16 := not_not.mpr htyped
          rw [encodeSymbol, raiseIf, Outcome.failIf_of_not hlength, Outcome.ok_bind]
          exact ⟨_, rfl⟩
      | bufRef id offset length =>
          rw [encodeSymbol, packInt, if_pos htyped.1, Outcome.ok_bind, packInt, if_pos htyped.2.1,
            Outcome.ok_bind, packInt, if_pos htyped.2.2, Outcome.ok_bind]
          exact ⟨_, rfl⟩
      | other tag value =>
          rw [encodeSymbol, if_pos htyped.1, encodeCounted_eq, Outcome.ok_bind]
          exact ⟨_, rfl⟩
      | list items => exact hleaf.elim
      | map entries => exact hleaf.elim
      | _ => exact ⟨_, rfl⟩
  | list items ih =>
      have hitems := (Symbol.all_list_iff.mp h).2
      rcases encodeItems_of_forall fun s hs => ih s hs (hitems s hs) with ⟨body, hbody⟩
      rw [encodeSymbol, encodeVarint_length, Outcome.ok_bind, hbody, Outcome.ok_bind]
      exact ⟨_, rfl⟩
  | map entries ih =>
      have hentries := (Symbol.all_map_iff.mp h).2
      rcases encodeEntries_of_forall fun e he => ih e he (hentries e he) with ⟨body, hbody⟩
      rw [encodeSymbol, encodeVarint_length, Outcome.ok_bind, hbody, Outcome.ok_bind]
      exact ⟨_, rfl⟩

/-! ## Reading back -/

/-- A well-typed symbol is written as the grammar has it. -/
theorem Symbol.WellTyped.spells {s : Symbol} (h : s.WellTyped) {b : Bytes}
    (hb : encodeSymbol s = .ok b) : Spells s b := by
  have hwritten := encodeSymbol_written s h.wellFormed h.short b hb
  rwa [h.rounded_eq] at hwritten

/-- A spelling is read at any position. -/
theorem decodeSymbol_append {s : Symbol} {b : Bytes} (h : Spells s b) (pre post : Bytes) :
    decodeSymbol (pre ++ b ++ post) pre.length = .ok (s, pre.length + b.length) := by
  rw [List.append_assoc]
  exact (decodeSymbol_reads ((b ++ post).length + 1)).complete h pre post (Nat.lt_succ_self _)

/-- Encoded symbols are collected to the end. -/
theorem decodeSymbolsFuel_encodeItems {symbols : List Symbol} (h : ∀ s ∈ symbols, s.WellTyped)
    {b : Bytes} (hb : encodeItems symbols = .ok b) {fuel : Nat} (hfuel : b.length < fuel)
    (result : List Symbol) (pre : Bytes) :
    decodeSymbolsFuel fuel result (pre ++ b) pre.length =
      .ok (result ++ symbols, pre.length + b.length) := by
  induction symbols generalizing b fuel result pre with
  | nil =>
      cases hb
      cases fuel with
      | zero => omega
      | succ fuel => simp [decodeSymbolsFuel]
  | cons s symbols ih =>
      rcases Outcome.bind_eq_ok_iff.mp hb with ⟨raw, hraw, hb⟩
      rcases Outcome.bind_eq_ok_iff.mp hb with ⟨rest, hrest, hb⟩
      cases hb
      have hspells := (h s List.mem_cons_self).spells hraw
      have hpos := hspells.length_pos
      rw [List.length_append] at hfuel
      cases fuel with
      | zero => omega
      | succ fuel =>
          have hmore : pre.length < (pre ++ (raw ++ rest)).length := by
            simp only [List.length_append]
            omega
          have hread := decodeSymbol_append hspells pre rest
          have hless : rest.length < fuel := by omega
          have hnext := ih (fun x hx => h x (List.mem_cons_of_mem _ hx)) hrest hless
            (result ++ [s]) (pre ++ raw)
          rw [decodeSymbolsFuel, if_pos hmore, ← List.append_assoc pre, hread, Outcome.ok_bind]
          calc decodeSymbolsFuel fuel (result ++ [s]) (pre ++ raw ++ rest) (pre.length + raw.length)
              = .ok (result ++ [s] ++ symbols, (pre ++ raw).length + rest.length) := by
                rw [← List.length_append, hnext]
            _ = .ok (result ++ s :: symbols, pre.length + (raw ++ rest).length) := by
                rw [List.append_assoc, List.length_append, List.length_append, Nat.add_assoc]
                rfl

/-- A well-typed symbol is encoded and read back at any position, before anything; and
well-typed symbols back to back are read back. -/
theorem operands_roundTrip :
    (∀ sym : Symbol, sym.WellTyped → ∃ b, encodeSymbol sym = .ok b ∧
      ∀ pre post, decodeSymbol (pre ++ b ++ post) pre.length = .ok (sym, pre.length + b.length)) ∧
    ∀ symbols : List Symbol, (∀ s ∈ symbols, s.WellTyped) → ∃ b, encodeSymbols symbols = .ok b ∧
      decodeSymbols b 0 = .ok (symbols, b.length) := by
  constructor
  · intro sym h
    rcases encodeSymbol_of_wellTyped sym h with ⟨b, hb⟩
    exact ⟨b, hb, decodeSymbol_append (h.spells hb)⟩
  · intro symbols h
    rcases encodeItems_of_forall fun s hs => encodeSymbol_of_wellTyped s (h s hs) with ⟨b, hb⟩
    refine ⟨b, hb, ?_⟩
    have hread := decodeSymbolsFuel_encodeItems h hb (Nat.lt_succ_self b.length) [] []
    rwa [List.nil_append, List.nil_append, List.length_nil, Nat.zero_add] at hread

/-- A list with a vendor symbol in it, in front of a bool. -/
theorem operands_roundTrip_sample :
    ∃ b, encodeSymbols [.list [.int .i8 (-1), .other 0x80 [7]], .bool true] = .ok b ∧
      decodeSymbols b 0 =
        .ok ([.list [.int .i8 (-1), .other 0x80 [7]], .bool true], b.length) := by
  apply operands_roundTrip.2
  intro s hs
  rcases List.mem_pair.mp hs with heq | heq
  · rw [heq]
    refine Symbol.all_list_iff.mpr ⟨by simp [Symbol.Typed], ?_⟩
    intro x hx
    rcases List.mem_pair.mp hx with heq | heq
    · rw [heq]
      exact .of_leaf trivial (by decide : InRange true 1 (-1))
    · rw [heq]
      exact .of_leaf trivial ⟨rfl, by simp⟩
  · rw [heq]
    exact .of_leaf trivial trivial

end Aicl.Bin
