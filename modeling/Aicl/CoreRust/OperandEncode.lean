import Aicl.CoreRust.OperandDecode

/-!
# What the operand encoder writes

The operand encoder of the Rust core against the operand grammar of the
instruction set.

Main results:

- Theorem {lit}`encodeOperand_spells`: without vendor operands, the encoder
  writes the operand grammar.
- Theorem {lit}`wireSize_le`: no spelling of an operand is shorter than its wire
  size.
- Theorem {lit}`all_short_of_length`: an operand with a short encoding has short
  lengths throughout.
-/

namespace Aicl.CoreRust

open Isa (Varint Tree FixedType Derives DerivesList DerivesEntries IsNull IsNullOrReserved Layout)

/-! ## Operands of fixed width -/

/-- The type of an operand of fixed width. -/
def Operand.fixedType? : Operand → Option FixedType
  | .i8 _ => some .i8 | .i16 _ => some .i16 | .i32 _ => some .i32 | .i64 _ => some .i64
  | .u8 _ => some .u8 | .u16 _ => some .u16 | .u32 _ => some .u32 | .u64 _ => some .u64
  | .f32 _ => some .f32 | .f64 _ => some .f64
  | .uuid _ => some .uuid | .handle _ => some .handle | .ref _ => some .ref
  | .bufRef _ => some .bufRef
  | .tsMs _ => some .tsMs | .durationMs _ => some .durationMs
  | _ => none

/-- A value of fixed width is written in the width of its type and read back. -/
theorem encodeValue_fixed {op : Operand} {t : FixedType} (h : op.fixedType? = some t) :
    op.kind = .ofFixed t ∧ (encodeValue op).length = t.width ∧
      Operand.ofFixed t (encodeValue op) = op := by
  cases op <;> simp only [Operand.fixedType?, Option.some.injEq, reduceCtorEq] at h <;> subst h
  case bufRef b =>
    refine ⟨rfl, by simp [encodeValue, FixedType.width], ?_⟩
    have hid : (writeU64 b.id ++ (writeU32 b.offset ++ writeU32 b.length)).take 8 =
        writeU64 b.id := List.take_left' (writeU64_length _)
    have hrest : (writeU64 b.id ++ (writeU32 b.offset ++ writeU32 b.length)).drop 8 =
        writeU32 b.offset ++ writeU32 b.length := List.drop_left' (writeU64_length _)
    have hlast : (writeU64 b.id ++ (writeU32 b.offset ++ writeU32 b.length)).drop 12 =
        writeU32 b.length := by
      rw [← List.append_assoc]
      exact List.drop_left' (by simp)
    simp only [Operand.ofFixed, encodeValue, hid, hrest, hlast,
      List.take_left' (writeU32_length b.offset), readU64_writeU64, readU32_writeU32]
  case uuid id => exact ⟨rfl, id.length_eq, by simp [Operand.ofFixed, encodeValue]⟩
  all_goals
    exact ⟨rfl, by simp [encodeValue, FixedType.width], by simp [Operand.ofFixed, encodeValue]⟩

/-! ## Derivations of encodings -/

/-- Operands of fixed width are written as the grammar has them. -/
theorem spells_of_fixed {op : Operand} {t : FixedType} (h : op.fixedType? = some t) :
    Spells IsNull op (encodeOperand op) := by
  obtain ⟨hkind, hwidth, hread⟩ := encodeValue_fixed h
  unfold encodeOperand
  rw [hkind, OperandType.toU8_ofFixed]
  exact ⟨.fixed t (encodeValue op), .fixed hwidth, hread.symm⟩

/-- The items of a list are written as the grammar has them, if each item is. -/
theorem encodeItems_spells {items : List Operand}
    (h : ∀ op ∈ items, Spells IsNull op (encodeOperand op)) :
    ∃ ts, DerivesList IsNull ts (encodeItems items) ∧ items = toOperands ts := by
  induction items with
  | nil => exact ⟨[], .nil, rfl⟩
  | cons op items ih =>
      obtain ⟨t, ht, hop⟩ := h op List.mem_cons_self
      obtain ⟨ts, hts, hitems⟩ := ih fun x hx => h x (List.mem_cons_of_mem _ hx)
      refine ⟨t :: ts, .cons ht hts, ?_⟩
      rw [toOperands, ← hop, ← hitems]

/-- The entries of a map are written as the grammar has them, if each value is. -/
theorem encodeEntries_spells {m : List (Utf8String × Operand)}
    (hkey : ∀ e ∈ m, e.1.length < 2 ^ 28)
    (h : ∀ e ∈ m, Spells IsNull e.2 (encodeOperand e.2)) :
    ∃ es, DerivesEntries IsNull es (encodeEntries m) ∧ m = toEntries es := by
  induction m with
  | nil => exact ⟨[], .nil, rfl⟩
  | cons e m ih =>
      obtain ⟨key, v⟩ := e
      obtain ⟨t, ht, hv⟩ := h (key, v) List.mem_cons_self
      obtain ⟨es, hes, hm⟩ := ih (fun x hx => hkey x (List.mem_cons_of_mem _ hx))
        fun x hx => h x (List.mem_cons_of_mem _ hx)
      refine ⟨(key, t) :: es, .cons (encodeLen_varint (hkey _ List.mem_cons_self)) ht hes, ?_⟩
      simp only at hv
      rw [toEntries, ← hv, ← hm]

/-- Interpretation keeps the number of items. -/
@[simp] theorem toOperands_length (ts : List Tree) : (toOperands ts).length = ts.length := by
  rw [toOperands_eq_map, List.length_map]

/-- Interpretation keeps the number of entries. -/
@[simp] theorem toEntries_length (es : List (Utf8String × Tree)) :
    (toEntries es).length = es.length := by
  rw [toEntries_eq_map, List.length_map]

/-- Without vendor operands, the encoder writes the operand grammar. -/
theorem encodeOperand_spells (op : Operand) (hsorted : op.All Operand.MapSorted)
    (hshort : op.All Operand.Short) (hvendor : op.All Operand.NotVendor) :
    Spells IsNull op (encodeOperand op) := by
  induction op using Operand.induct with
  | leaf op hleaf =>
      have hs := hshort.self
      have hv := hvendor.self
      cases op with
      | bool v => exact ⟨.bool v, .bool, rfl⟩
      | str s => exact ⟨.str s, .str (encodeLen_varint hs), rfl⟩
      | bytes b => exact ⟨.bytes b, .bytes (encodeLen_varint hs), rfl⟩
      | null => exact ⟨.bare 0x19, .bare rfl, rfl⟩
      | vendor tag data => exact hv.elim
      | list items => exact hleaf.elim
      | map m => exact hleaf.elim
      | _ => exact spells_of_fixed rfl
  | list items ih =>
      obtain ⟨_, hsorted⟩ := Operand.all_list_iff.mp hsorted
      obtain ⟨hcount, hshort⟩ := Operand.all_list_iff.mp hshort
      obtain ⟨_, hvendor⟩ := Operand.all_list_iff.mp hvendor
      obtain ⟨ts, hts, hitems⟩ := encodeItems_spells fun op hop =>
        ih op hop (hsorted op hop) (hshort op hop) (hvendor op hop)
      have hlen : Varint ts.length (encodeLen items.length) := by
        rw [← toOperands_length, ← hitems]
        exact encodeLen_varint hcount
      exact ⟨.list ts, .list hlen hts, by rw [toOperand, ← hitems]⟩
  | map m ih =>
      obtain ⟨hm, hsorted⟩ := Operand.all_map_iff.mp hsorted
      obtain ⟨⟨hcount, hkeys⟩, hshort⟩ := Operand.all_map_iff.mp hshort
      obtain ⟨_, hvendor⟩ := Operand.all_map_iff.mp hvendor
      obtain ⟨es, hes, hentries⟩ := encodeEntries_spells hkeys fun e he =>
        ih e he (hsorted e he) (hshort e he) (hvendor e he)
      have hlen : Varint es.length (encodeLen m.length) := by
        rw [← toEntries_length, ← hentries]
        exact encodeLen_varint hcount
      refine ⟨.map es, .map hlen hes, ?_⟩
      rw [toOperand, ← hentries, SortedMap.ofEntries_eq_self hm]

/-! ## Sizes -/

mutual

/-- The number of bytes that the grammar needs for an operand. -/
def wireSize : Operand → Nat
  | .bool _ => 2
  | .str s => 1 + ((encodeLen s.length).length + s.length)
  | .bytes b => 1 + ((encodeLen b.length).length + b.length)
  | .list items => 1 + ((encodeLen items.length).length + wireSizes items)
  | .map m => 1 + ((encodeLen m.length).length + entrySizes m)
  | .vendor _ data => 1 + ((encodeLen data.length).length + data.length)
  | op => 1 + (op.fixedType?.map FixedType.width).getD 0

/-- The number of bytes that the grammar needs for a sequence of operands. -/
def wireSizes : List Operand → Nat
  | [] => 0
  | op :: ops => wireSize op + wireSizes ops

/-- The number of bytes that the grammar needs for a sequence of entries. -/
def entrySizes : List (Utf8String × Operand) → Nat
  | [] => 0
  | (k, v) :: m => (encodeLen k.length).length + (k.length + wireSize v) + entrySizes m

end

/-- The size of a sequence of entries is a sum of weights. -/
theorem entrySizes_eq_weight (m : List (Utf8String × Operand)) :
    entrySizes m =
      SortedMap.weight (fun e => (encodeLen e.1.length).length + (e.1.length + wireSize e.2)) m := by
  induction m with
  | nil => rfl
  | cons e m ih =>
      rw [entrySizes, ih]
      rfl

/-- An operand of fixed width is written in its tag and its width. -/
theorem encodeOperand_length_fixed {op : Operand} {t : FixedType} (h : op.fixedType? = some t) :
    (encodeOperand op).length = 1 + (op.fixedType?.map FixedType.width).getD 0 := by
  obtain ⟨_, hwidth, _⟩ := encodeValue_fixed h
  simp only [encodeOperand, List.length_cons, hwidth, h, Option.map_some, Option.getD_some]
  omega

/-- Without vendor operands, the encoder writes as many bytes as are needed. -/
theorem encodeOperand_length (op : Operand) (hvendor : op.All Operand.NotVendor) :
    (encodeOperand op).length = wireSize op := by
  induction op using Operand.induct with
  | leaf op hleaf =>
      have hv := hvendor.self
      cases op with
      | list items => exact hleaf.elim
      | map m => exact hleaf.elim
      | vendor tag data => exact hv.elim
      | bool v => rfl
      | null => rfl
      | str s =>
          simp only [encodeOperand, encodeValue, wireSize, List.length_cons, List.length_append,
            Utf8String.length]
          omega
      | bytes b =>
          simp only [encodeOperand, encodeValue, wireSize, List.length_cons, List.length_append]
          omega
      | _ => exact encodeOperand_length_fixed rfl
  | list items ih =>
      have hitems : ∀ ops : List Operand, (∀ op ∈ ops, op ∈ items) →
          (encodeItems ops).length = wireSizes ops := by
        intro ops hmem
        induction ops with
        | nil => rfl
        | cons op ops ihops =>
            have hop := ih op (hmem op List.mem_cons_self)
              ((Operand.all_list_iff.mp hvendor).2 op (hmem op List.mem_cons_self))
            rw [encodeItems_cons, List.length_append, hop, wireSizes,
              ihops fun x hx => hmem x (List.mem_cons_of_mem _ hx)]
      simp only [encodeOperand, encodeValue, wireSize, List.length_cons, List.length_append,
        hitems items fun _ h => h]
      omega
  | map m ih =>
      have hentries : ∀ es : List (Utf8String × Operand), (∀ e ∈ es, e ∈ m) →
          (encodeEntries es).length = entrySizes es := by
        intro es hmem
        induction es with
        | nil => rfl
        | cons e es ihes =>
            obtain ⟨k, v⟩ := e
            have hv := ih (k, v) (hmem _ List.mem_cons_self)
              ((Operand.all_map_iff.mp hvendor).2 _ (hmem _ List.mem_cons_self))
            simp only [encodeEntries_cons, List.length_append, hv, entrySizes,
              ihes fun x hx => hmem x (List.mem_cons_of_mem _ hx)]
            simp only [Utf8String.length]
            omega
      simp only [encodeOperand, encodeValue, wireSize, List.length_cons, List.length_append,
        hentries m fun _ h => h]
      omega

/-- A fixed-width operand needs its tag and its width. -/
theorem wireSize_ofFixed (t : FixedType) (value : Bytes) :
    wireSize (.ofFixed t value) = 1 + t.width := by
  cases t <;> rfl

mutual

/-- No spelling of an operand is shorter than its size. -/
theorem wireSize_le {t : Tree} {b : Bytes} :
    Derives IsNullOrReserved t b → wireSize (toOperand t) ≤ b.length
  | .fixed hw => by
      rw [toOperand, wireSize_ofFixed, List.length_cons, hw]
      omega
  | .bool => by simp [toOperand, wireSize]
  | .str hlen => by
      have hle := encodeLen_length_le hlen (Nat.le_refl _)
      simp only [toOperand, wireSize, List.length_cons, List.length_append]
      simp only [Utf8String.length] at hle ⊢
      omega
  | .bytes hlen => by
      have hle := encodeLen_length_le hlen (Nat.le_refl _)
      simp only [toOperand, wireSize, List.length_cons, List.length_append]
      omega
  | .list hlen hs => by
      have hle := encodeLen_length_le hlen (Nat.le_refl _)
      have hsizes := wireSizes_le hs
      simp only [toOperand, wireSize, toOperands_length, List.length_cons, List.length_append]
      omega
  | @Derives.map _ es _ _ hlen hs => by
      -- entries that a later one overwrites cost bytes and leave nothing
      have hcount : (SortedMap.ofEntries (toEntries es)).length ≤ es.length := by
        simpa using SortedMap.ofEntries_length_le (toEntries es)
      have hle := encodeLen_length_le hlen hcount
      have hsizes := entrySizes_le hs
      have hkept : entrySizes (SortedMap.ofEntries (toEntries es)) ≤ entrySizes (toEntries es) := by
        rw [entrySizes_eq_weight, entrySizes_eq_weight]
        exact SortedMap.weight_ofEntries_le _ _
      simp only [toOperand, wireSize, List.length_cons, List.length_append]
      omega
  | .bare _ => by simp [toOperand, wireSize, Operand.fixedType?]
  | .vendor _ hlen => by
      have hle := encodeLen_length_le hlen (Nat.le_refl _)
      simp only [toOperand, wireSize, List.length_cons, List.length_append]
      omega

/-- No spelling of a sequence of operands is shorter than its size. -/
theorem wireSizes_le {ts : List Tree} {b : Bytes} :
    DerivesList IsNullOrReserved ts b → wireSizes (toOperands ts) ≤ b.length
  | .nil => by simp [toOperands, wireSizes]
  | .cons h hs => by
      have hhead := wireSize_le h
      have htail := wireSizes_le hs
      simp only [toOperands, wireSizes, List.length_append]
      omega

/-- No spelling of a sequence of entries is shorter than its size. -/
theorem entrySizes_le {es : List (Utf8String × Tree)} {b : Bytes} :
    DerivesEntries IsNullOrReserved es b → entrySizes (toEntries es) ≤ b.length
  | .nil => by simp [toEntries, entrySizes]
  | .cons hk h hs => by
      have hle := encodeLen_length_le hk (Nat.le_refl _)
      have hhead := wireSize_le h
      have htail := entrySizes_le hs
      simp only [toEntries, entrySizes, List.length_append]
      simp only [Utf8String.length] at hle ⊢
      omega

end

/-! ## Short encodings -/

/-- An item is written within its list, and every item takes at least one byte. -/
theorem encodeItems_length {items : List Operand} :
    items.length ≤ (encodeItems items).length ∧
      ∀ op ∈ items, (encodeOperand op).length ≤ (encodeItems items).length := by
  induction items with
  | nil => simp
  | cons op items ih =>
      obtain ⟨hcount, hitems⟩ := ih
      have hpos : 0 < (encodeOperand op).length := Nat.succ_pos _
      simp only [encodeItems_cons, List.length_cons, List.length_append]
      refine ⟨by omega, fun x hx => ?_⟩
      rcases List.mem_cons.mp hx with rfl | hx
      · omega
      · have := hitems x hx
        omega

/-- An entry is written within its map, and every entry takes at least one byte. -/
theorem encodeEntries_length {m : List (Utf8String × Operand)} :
    m.length ≤ (encodeEntries m).length ∧
      ∀ e ∈ m, e.1.length ≤ (encodeEntries m).length ∧
        (encodeOperand e.2).length ≤ (encodeEntries m).length := by
  induction m with
  | nil => simp
  | cons e m ih =>
      obtain ⟨k, v⟩ := e
      obtain ⟨hcount, hentries⟩ := ih
      have hpos : 0 < (encodeOperand v).length := Nat.succ_pos _
      have hkey : k.bytes.length = k.length := rfl
      simp only [encodeEntries_cons, List.length_cons, List.length_append]
      refine ⟨by omega, fun x hx => ?_⟩
      rcases List.mem_cons.mp hx with rfl | hx
      · simp only
        omega
      · have := hentries x hx
        omega

/-- An operand with a short encoding has short lengths throughout. -/
theorem all_short_of_length (op : Operand) (h : (encodeOperand op).length < 2 ^ 28) :
    op.All Operand.Short := by
  induction op using Operand.induct with
  | leaf op hleaf =>
      rw [Operand.all_leaf_iff hleaf]
      simp only [encodeOperand, List.length_cons] at h
      cases op with
      | list items => exact hleaf.elim
      | map m => exact hleaf.elim
      | str s =>
          simp only [encodeValue, List.length_append] at h
          simp only [Operand.Short, Utf8String.length]
          omega
      | bytes b =>
          simp only [encodeValue, List.length_append] at h
          simp only [Operand.Short]
          omega
      | vendor tag data =>
          simp only [encodeValue, List.length_append, List.length_cons] at h
          simp only [Operand.Short]
          omega
      | _ => exact trivial
  | list items ih =>
      obtain ⟨hcount, hitems⟩ := @encodeItems_length items
      simp only [encodeOperand, encodeValue, List.length_cons, List.length_append] at h
      refine Operand.all_list_iff.mpr ⟨?_, fun op hop => ih op hop ?_⟩
      · simp only [Operand.Short]
        omega
      · have := hitems op hop
        omega
  | map m ih =>
      obtain ⟨hcount, hentries⟩ := encodeEntries_length (m := m)
      simp only [encodeOperand, encodeValue, List.length_cons, List.length_append] at h
      refine Operand.all_map_iff.mpr ⟨⟨by omega, fun e he => ?_⟩, fun e he => ih e he ?_⟩
      · have := hentries e he
        omega
      · have := hentries e he
        omega

end Aicl.CoreRust
