import Aicl.Bin.OperandsDecode

/-!
# What the Python operand encoder writes

The operand encoder of the Python package against the operand grammar of the
instruction set.  The only value that the encoder changes is a float behind the
tag {lit}`F32`, which is rounded to single precision.

Main results:

- Theorem {lit}`encodeSymbol_spells`: an encoding of less than {lit}`2 ^ 28` bytes
  spells the symbol, its single-precision floats rounded.
- Theorem {lit}`encodeSymbols_spells`: the same for operands back to back.
-/

namespace Aicl.Bin

open Isa (Varint Tree FixedType Derives DerivesList DerivesEntries IsNull)

/-! ## Rounding -/

/-- A double rounded to single precision. -/
def roundSingle (value : UInt64) : UInt64 :=
  ((Ieee754.narrow value).map Ieee754.widen).getD value

/-- A single is not changed by rounding. -/
theorem roundSingle_widen (single : UInt32) :
    roundSingle (Ieee754.widen single) = Ieee754.widen single := by
  rw [roundSingle, Ieee754.narrow_widen, Option.map_some, Option.getD_some]

mutual

/-- A symbol with the floats behind the tag {lit}`F32` rounded. -/
def Symbol.rounded : Symbol → Symbol
  | .f32 value => .f32 (roundSingle value)
  | .list items => .list (roundedItems items)
  | .map entries => .map (roundedEntries entries)
  | s => s

/-- The items of a list, rounded. -/
def roundedItems : List Symbol → List Symbol
  | [] => []
  | s :: items => s.rounded :: roundedItems items

/-- The entries of a map, rounded. -/
def roundedEntries : List (Utf8String × Symbol) → List (Utf8String × Symbol)
  | [] => []
  | (key, s) :: entries => (key, s.rounded) :: roundedEntries entries

end

/-- Lists are rounded item by item. -/
theorem roundedItems_eq_map (items : List Symbol) : roundedItems items = items.map .rounded := by
  induction items with
  | nil => rfl
  | cons s items ih => rw [roundedItems, ih, List.map_cons]

/-- Maps are rounded value by value. -/
theorem roundedEntries_eq_map (entries : List (Utf8String × Symbol)) :
    roundedEntries entries = entries.map fun e => (e.1, e.2.rounded) := by
  induction entries with
  | nil => rfl
  | cons e entries ih => rw [roundedEntries, ih, List.map_cons]

/-! ## Operands of fixed width -/

/-- A byte string is written after its length. -/
theorem encodeCounted_eq (raw : Bytes) :
    encodeCounted raw = .ok (Leb128.emit 4 raw.length ++ raw) := by
  unfold encodeCounted
  rw [encodeVarint_length]
  rfl

/-- An {lit}`int` is written as the grammar has it. -/
theorem spells_int {t : IntType} {value : Int} {b : Bytes}
    (h : encodeSymbol (.int t value) = .ok b) : Spells (.int t value) b := by
  obtain ⟨raw, hraw, hb⟩ := Outcome.bind_eq_ok_iff.mp h
  cases hb
  have hlen := packInt_length hraw
  obtain ⟨hrange, rfl⟩ := packInt_eq_ok_iff.mp hraw
  have hpos : 0 < t.width := by cases t <;> decide
  have hread := unpackInt_packed hpos hrange
  rw [IntType.tag_eq]
  refine ⟨.fixed t.fixed _, .fixed (hlen.trans t.width_eq), ?_⟩
  cases t <;> exact congrArg (Symbol.int _) hread.symm

/-- A float behind the tag {lit}`F32` is written rounded. -/
theorem spells_f32 {value : UInt64} {b : Bytes} (h : encodeSymbol (.f32 value) = .ok b) :
    Spells (.f32 (roundSingle value)) b := by
  obtain ⟨raw, hraw, hb⟩ := Outcome.bind_eq_ok_iff.mp h
  cases hb
  unfold packF32 at hraw
  cases hnarrow : Ieee754.narrow value with
  | none =>
      rw [hnarrow] at hraw
      cases hraw
  | some single =>
      rw [hnarrow] at hraw
      cases hraw
      refine ⟨.fixed .f32 _, .fixed (BigEndian.toBytes_length 4 _), ?_⟩
      have hlt : single.toNat < 256 ^ 4 := single.toNat_lt
      simp only [toSymbol, Symbol.ofFixed, BigEndian.ofBytes_toBytes hlt, UInt32.ofNat_toNat,
        roundSingle, hnarrow, Option.map_some, Option.getD_some]

/-- A float behind the tag {lit}`F64` is written as it is. -/
theorem spells_f64 (value : UInt64) : Spells (.f64 value) (S_F64 :: packF64 value) := by
  refine ⟨.fixed .f64 (packF64 value), .fixed (BigEndian.toBytes_length 8 _), ?_⟩
  have hlt : value.toNat < 256 ^ 8 := value.toNat_lt
  simp only [toSymbol, Symbol.ofFixed, packF64, BigEndian.ofBytes_toBytes hlt, UInt64.ofNat_toNat]

/-- A buffer reference is written as the grammar has it. -/
theorem spells_bufRef {id offset length : Int} {b : Bytes}
    (h : encodeSymbol (.bufRef id offset length) = .ok b) : Spells (.bufRef id offset length) b := by
  obtain ⟨rawId, hid, h⟩ := Outcome.bind_eq_ok_iff.mp h
  obtain ⟨rawOffset, hoffset, h⟩ := Outcome.bind_eq_ok_iff.mp h
  obtain ⟨rawLength, hlength, hb⟩ := Outcome.bind_eq_ok_iff.mp h
  cases hb
  have hlen₁ := packInt_length hid
  have hlen₂ := packInt_length hoffset
  have hlen₃ := packInt_length hlength
  refine ⟨.fixed .bufRef (rawId ++ (rawOffset ++ rawLength)),
    .fixed (by simp [hlen₁, hlen₂, hlen₃, FixedType.width]), ?_⟩
  have hdrop : (rawId ++ (rawOffset ++ rawLength)).drop 12 = rawLength := by
    rw [← List.append_assoc]
    exact List.drop_left' (by simp [hlen₁, hlen₂])
  simp only [toSymbol, Symbol.ofFixed, List.take_left' hlen₁, List.drop_left' hlen₁,
    List.take_left' hlen₂, hdrop]
  obtain ⟨hrange₁, rfl⟩ := packInt_eq_ok_iff.mp hid
  obtain ⟨hrange₂, rfl⟩ := packInt_eq_ok_iff.mp hoffset
  obtain ⟨hrange₃, rfl⟩ := packInt_eq_ok_iff.mp hlength
  rw [unpackInt_packed (by decide) hrange₁, unpackInt_packed (by decide) hrange₂,
    unpackInt_packed (by decide) hrange₃]

/-! ## Lengths -/

/-- The lengths and counts behind the tag of a symbol are below {lit}`2 ^ 28`. -/
def Symbol.Short : Symbol → Prop
  | .string value => value.length < 2 ^ 28
  | .bytes value => value.length < 2 ^ 28
  | .list items => items.length < 2 ^ 28
  | .map entries => entries.length < 2 ^ 28 ∧ ∀ e ∈ entries, e.1.length < 2 ^ 28
  | .other _ value => value.length < 2 ^ 28
  | _ => True

/-- An encoding starts with the tag. -/
theorem encodeSymbol_cons {s : Symbol} {b : Bytes} (hb : encodeSymbol s = .ok b) :
    ∃ body, b = s.tag :: body := by
  cases s with
  | f64 value => exact ⟨_, (Outcome.ok.inj hb).symm⟩
  | bool value => exact ⟨_, (Outcome.ok.inj hb).symm⟩
  | null => exact ⟨_, (Outcome.ok.inj hb).symm⟩
  | other tag value =>
      rw [encodeSymbol] at hb
      split at hb
      · rcases Outcome.bind_eq_ok_iff.mp hb with ⟨raw, _, hb⟩
        exact ⟨raw, (Outcome.ok.inj hb).symm⟩
      · cases hb
  | bufRef id offset length =>
      rcases Outcome.bind_eq_ok_iff.mp hb with ⟨rawId, _, hb⟩
      rcases Outcome.bind_eq_ok_iff.mp hb with ⟨rawOffset, _, hb⟩
      rcases Outcome.bind_eq_ok_iff.mp hb with ⟨rawLength, _, hb⟩
      exact ⟨_, (Outcome.ok.inj hb).symm⟩
  | list items =>
      rcases Outcome.bind_eq_ok_iff.mp hb with ⟨len, _, hb⟩
      rcases Outcome.bind_eq_ok_iff.mp hb with ⟨body, _, hb⟩
      exact ⟨_, (Outcome.ok.inj hb).symm⟩
  | map entries =>
      rcases Outcome.bind_eq_ok_iff.mp hb with ⟨len, _, hb⟩
      rcases Outcome.bind_eq_ok_iff.mp hb with ⟨body, _, hb⟩
      exact ⟨_, (Outcome.ok.inj hb).symm⟩
  | _ =>
      rcases Outcome.bind_eq_ok_iff.mp hb with ⟨raw, _, hb⟩
      exact ⟨_, (Outcome.ok.inj hb).symm⟩

/-- An item is written within its list, and every item takes at least one byte. -/
theorem encodeItems_length {items : List Symbol} {b : Bytes} (hb : encodeItems items = .ok b) :
    items.length ≤ b.length ∧
      ∀ s ∈ items, ∃ raw, encodeSymbol s = .ok raw ∧ raw.length ≤ b.length := by
  induction items generalizing b with
  | nil => exact ⟨Nat.zero_le _, fun s hs => absurd hs List.not_mem_nil⟩
  | cons s items ih =>
      rcases Outcome.bind_eq_ok_iff.mp hb with ⟨raw, hraw, hb⟩
      rcases Outcome.bind_eq_ok_iff.mp hb with ⟨rest, hrest, hb⟩
      cases hb
      rcases encodeSymbol_cons hraw with ⟨body, hbody⟩
      have hpos : 0 < raw.length := by simp [hbody]
      have ⟨hcount, hitems⟩ := ih hrest
      rw [List.length_append]
      refine ⟨by rw [List.length_cons]; omega, ?_⟩
      intro x hx
      rcases List.mem_cons.mp hx with heq | hx
      · exact ⟨raw, heq ▸ hraw, by omega⟩
      · rcases hitems x hx with ⟨raw', hraw', hle⟩
        exact ⟨raw', hraw', by omega⟩

/-- An entry is written within its map, and every entry takes at least one byte. -/
theorem encodeEntries_length {entries : List (Utf8String × Symbol)} {b : Bytes}
    (hb : encodeEntries entries = .ok b) :
    entries.length ≤ b.length ∧
      ∀ e ∈ entries, e.1.length ≤ b.length ∧
        ∃ raw, encodeSymbol e.2 = .ok raw ∧ raw.length ≤ b.length := by
  induction entries generalizing b with
  | nil => exact ⟨Nat.zero_le _, fun e he => absurd he List.not_mem_nil⟩
  | cons e entries ih =>
      rcases e with ⟨key, s⟩
      rcases Outcome.bind_eq_ok_iff.mp hb with ⟨kb, hkb, hb⟩
      rcases Outcome.bind_eq_ok_iff.mp hb with ⟨raw, hraw, hb⟩
      rcases Outcome.bind_eq_ok_iff.mp hb with ⟨rest, hrest, hb⟩
      cases hb
      rw [encodeCounted_eq] at hkb
      cases hkb
      rcases encodeSymbol_cons hraw with ⟨body, hbody⟩
      have hpos : 0 < raw.length := by simp [hbody]
      have hkey : key.bytes.length = key.length := rfl
      have ⟨hcount, hentries⟩ := ih hrest
      simp only [List.length_append]
      refine ⟨by rw [List.length_cons]; omega, ?_⟩
      intro x hx
      rcases List.mem_cons.mp hx with heq | hx
      · rw [heq]
        refine ⟨?_, raw, hraw, by omega⟩
        rw [← hkey]
        omega
      · rcases hentries x hx with ⟨hle, raw', hraw', hle'⟩
        exact ⟨by omega, raw', hraw', by omega⟩

/-- A symbol with a short encoding has short lengths throughout. -/
theorem all_short_of_encodeSymbol (s : Symbol) {b : Bytes} (hb : encodeSymbol s = .ok b)
    (hlen : b.length < 2 ^ 28) : s.All Symbol.Short := by
  induction s using Symbol.induct generalizing b with
  | leaf s hleaf =>
      have hself : s.Short := by
        cases s with
        | string value =>
            rw [encodeSymbol, encodeCounted_eq] at hb
            cases hb
            simp only [List.length_cons, List.length_append] at hlen
            simp only [Symbol.Short, Utf8String.length]
            omega
        | bytes value =>
            rw [encodeSymbol, encodeCounted_eq] at hb
            cases hb
            simp only [List.length_cons, List.length_append] at hlen
            simp only [Symbol.Short]
            omega
        | other tag value =>
            rw [encodeSymbol] at hb
            split at hb
            · rw [encodeCounted_eq] at hb
              cases hb
              simp only [List.length_cons, List.length_append] at hlen
              simp only [Symbol.Short]
              omega
            · cases hb
        | list items => exact hleaf.elim
        | map entries => exact hleaf.elim
        | _ => exact trivial
      exact .of_leaf hleaf hself
  | list items ih =>
      rcases Outcome.bind_eq_ok_iff.mp hb with ⟨len, _, hb⟩
      rcases Outcome.bind_eq_ok_iff.mp hb with ⟨body, hbody, hb⟩
      cases hb
      have ⟨hcount, hitems⟩ := encodeItems_length hbody
      simp only [List.length_cons, List.length_append] at hlen
      refine Symbol.all_list_iff.mpr ⟨by simp only [Symbol.Short]; omega, ?_⟩
      intro s hs
      rcases hitems s hs with ⟨raw, hraw, hle⟩
      exact ih s hs hraw (by omega)
  | map entries ih =>
      rcases Outcome.bind_eq_ok_iff.mp hb with ⟨len, _, hb⟩
      rcases Outcome.bind_eq_ok_iff.mp hb with ⟨body, hbody, hb⟩
      cases hb
      have ⟨hcount, hentries⟩ := encodeEntries_length hbody
      simp only [List.length_cons, List.length_append] at hlen
      refine Symbol.all_map_iff.mpr ⟨⟨by omega, ?_⟩, ?_⟩
      · intro e he
        have hle := (hentries e he).1
        omega
      · intro e he
        rcases (hentries e he).2 with ⟨raw, hraw, hle⟩
        exact ih e he hraw (by omega)

/-! ## Derivations of encodings -/

/-- The encoder writes a symbol as the grammar has it. -/
def Written (s : Symbol) : Prop :=
  ∀ b, encodeSymbol s = .ok b → Spells s.rounded b

/-- What it means for the encoder to write a symbol as the grammar has it. -/
def EncodesAs (s : Symbol) : Prop :=
  ∀ b, encodeSymbol s = .ok b → b.length < 2 ^ 28 → Spells s.rounded b

/-- The items of a list are written as the grammar has them, if each item is. -/
theorem encodeItems_written {items : List Symbol} (h : ∀ s ∈ items, Written s) {b : Bytes}
    (hb : encodeItems items = .ok b) :
    ∃ ts, DerivesList IsNull ts b ∧ roundedItems items = toSymbols ts := by
  induction items generalizing b with
  | nil =>
      cases hb
      exact ⟨[], .nil, rfl⟩
  | cons s items ih =>
      obtain ⟨raw, hraw, hb⟩ := Outcome.bind_eq_ok_iff.mp hb
      obtain ⟨rest, hrest, hb⟩ := Outcome.bind_eq_ok_iff.mp hb
      cases hb
      obtain ⟨t, ht, hs⟩ := h s List.mem_cons_self raw hraw
      obtain ⟨ts, hts, hitems⟩ := ih (fun x hx => h x (List.mem_cons_of_mem _ hx)) hrest
      refine ⟨t :: ts, .cons ht hts, ?_⟩
      rw [roundedItems, hs, hitems, toSymbols]

/-- The entries of a map are written as the grammar has them, if each value is. -/
theorem encodeEntries_written {entries : List (Utf8String × Symbol)}
    (h : ∀ e ∈ entries, Written e.2) (hkeys : ∀ e ∈ entries, e.1.length < 2 ^ 28) {b : Bytes}
    (hb : encodeEntries entries = .ok b) :
    ∃ es, DerivesEntries IsNull es b ∧ roundedEntries entries = toItems es := by
  induction entries generalizing b with
  | nil =>
      cases hb
      exact ⟨[], .nil, rfl⟩
  | cons e entries ih =>
      obtain ⟨key, s⟩ := e
      obtain ⟨kb, hkb, hb⟩ := Outcome.bind_eq_ok_iff.mp hb
      obtain ⟨raw, hraw, hb⟩ := Outcome.bind_eq_ok_iff.mp hb
      obtain ⟨rest, hrest, hb⟩ := Outcome.bind_eq_ok_iff.mp hb
      cases hb
      rw [encodeCounted_eq] at hkb
      cases hkb
      obtain ⟨t, ht, hs⟩ := h (key, s) List.mem_cons_self raw hraw
      obtain ⟨es, hes, hentries⟩ := ih (fun x hx => h x (List.mem_cons_of_mem _ hx))
        (fun x hx => hkeys x (List.mem_cons_of_mem _ hx)) hrest
      have hkey : Varint key.length (Leb128.emit 4 key.bytes.length) :=
        encodeVarint_length_varint (hkeys (key, s) List.mem_cons_self)
      have hes' := DerivesEntries.cons hkey ht hes
      rw [← List.append_assoc] at hes'
      refine ⟨(key, t) :: es, hes', ?_⟩
      rw [roundedEntries, hs, hentries, toItems]

/-- Interpretation keeps the number of items. -/
theorem toSymbols_length (ts : List Tree) : (toSymbols ts).length = ts.length := by
  rw [toSymbols_eq_map, List.length_map]

/-- An encoding spells the symbol, its single-precision floats rounded, when the
lengths in it are below {lit}`2 ^ 28`. -/
theorem encodeSymbol_written (s : Symbol) (hwf : s.All Symbol.WellFormed)
    (hshort : s.All Symbol.Short) : Written s := by
  induction s using Symbol.induct with
  | leaf s hleaf =>
      intro b hb
      have hself := hshort.self
      cases s with
      | int t value => exact spells_int hb
      | f32 value => exact spells_f32 hb
      | f64 value =>
          cases hb
          exact spells_f64 value
      | bool value =>
          cases hb
          exact ⟨.bool value, .bool, rfl⟩
      | string value =>
          rw [encodeSymbol, encodeCounted_eq] at hb
          cases hb
          exact ⟨.str value, .str (encodeVarint_length_varint hself), rfl⟩
      | bytes value =>
          rw [encodeSymbol, encodeCounted_eq] at hb
          cases hb
          exact ⟨.bytes value, .bytes (encodeVarint_length_varint hself), rfl⟩
      | uuid value =>
          obtain ⟨_, hcheck, hb⟩ := Outcome.bind_eq_ok_iff.mp hb
          cases hb
          have h16 : value.length = 16 := by simpa [raiseIf] using hcheck
          exact ⟨.fixed .uuid value, .fixed h16, rfl⟩
      | bufRef id offset length => exact spells_bufRef hb
      | null =>
          cases hb
          exact ⟨.bare 0x19, .bare rfl, rfl⟩
      | other tag value =>
          rw [encodeSymbol] at hb
          split at hb
          next hvendor =>
            rw [encodeCounted_eq] at hb
            cases hb
            exact ⟨.vendor tag value, .vendor ((isVendor_iff tag).mp hvendor)
              (encodeVarint_length_varint hself), rfl⟩
          next => cases hb
      | list items => exact hleaf.elim
      | map entries => exact hleaf.elim
  | list items ih =>
      intro b hb
      obtain ⟨_, hwf⟩ := Symbol.all_list_iff.mp hwf
      obtain ⟨hself, hshort⟩ := Symbol.all_list_iff.mp hshort
      obtain ⟨len, hcount, hb⟩ := Outcome.bind_eq_ok_iff.mp hb
      obtain ⟨body, hbody, hb⟩ := Outcome.bind_eq_ok_iff.mp hb
      cases hb
      rw [encodeVarint_length] at hcount
      cases hcount
      obtain ⟨ts, hts, hitems⟩ :=
        encodeItems_written (fun s hs => ih s hs (hwf s hs) (hshort s hs)) hbody
      have hn : ts.length = items.length := by
        rw [← toSymbols_length, ← hitems, roundedItems_eq_map, List.length_map]
      have hv : Varint ts.length (Leb128.emit 4 items.length) := by
        rw [hn]
        exact encodeVarint_length_varint hself
      exact ⟨.list ts, .list hv hts, congrArg Symbol.list hitems⟩
  | map entries ih =>
      intro b hb
      obtain ⟨hkeys, hwf⟩ := Symbol.all_map_iff.mp hwf
      obtain ⟨⟨hself, hkeysShort⟩, hshort⟩ := Symbol.all_map_iff.mp hshort
      obtain ⟨len, hcount, hb⟩ := Outcome.bind_eq_ok_iff.mp hb
      obtain ⟨body, hbody, hb⟩ := Outcome.bind_eq_ok_iff.mp hb
      cases hb
      rw [encodeVarint_length] at hcount
      cases hcount
      obtain ⟨es, hes, hentries⟩ :=
        encodeEntries_written (fun e he => ih e he (hwf e he) (hshort e he)) hkeysShort hbody
      have hn : es.length = entries.length := by
        have hlens := congrArg List.length hentries
        rw [roundedEntries_eq_map, toItems_eq_map, List.length_map, List.length_map] at hlens
        exact hlens.symm
      have hv : Varint es.length (Leb128.emit 4 entries.length) := by
        rw [hn]
        exact encodeVarint_length_varint hself
      have hkeys : (entries.map Prod.fst).Nodup := hkeys
      have hnodup : Dict.NodupKeys (toItems es) := by
        rw [← hentries, roundedEntries_eq_map]
        simpa [Dict.NodupKeys, Function.comp_def] using hkeys
      refine ⟨.map es, .map hv hes, ?_⟩
      rw [Symbol.rounded, toSymbol, Dict.ofEntries_eq_self hnodup, hentries]

/-- An encoding of less than {lit}`2 ^ 28` bytes spells the symbol, its
single-precision floats rounded. -/
theorem encodeSymbol_spells (s : Symbol) (hwf : s.All Symbol.WellFormed) : EncodesAs s := by
  intro b hb hlen
  exact encodeSymbol_written s hwf (all_short_of_encodeSymbol s hb hlen) b hb

/-- Operands back to back spell the symbols. -/
theorem encodeSymbols_spells {symbols : List Symbol}
    (hwf : ∀ s ∈ symbols, s.All Symbol.WellFormed) {b : Bytes}
    (hb : encodeSymbols symbols = .ok b) (hlen : b.length < 2 ^ 28) :
    ∃ ts, DerivesList IsNull ts b ∧ roundedItems symbols = toSymbols ts := by
  apply encodeItems_written _ hb
  intro s hs
  rcases (encodeItems_length hb).2 s hs with ⟨raw, hraw, hle⟩
  exact encodeSymbol_written s (hwf s hs) (all_short_of_encodeSymbol s hraw (by omega))

end Aicl.Bin
