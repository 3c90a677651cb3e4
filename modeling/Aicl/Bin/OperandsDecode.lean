import Aicl.Bin.Operands
import Aicl.Isa.Phrases

/-!
# What the Python operand decoder reads

The operand decoder of the Python package against the operand grammar of the
instruction set.  It reads the strict grammar, in which {lit}`NULL` is the only
tag that stands alone; the value is the interpretation of the syntax tree.

Main results:

- Theorem {lit}`decodeSymbol_reads`: the decoder reads exactly the operands of the
  instruction set, and raises {lit}`SymbolError` or {lit}`UnicodeDecodeError` on
  anything else.
- Theorem {lit}`symbols_read`: a counted loop of decoder calls reads as many
  operands.
-/

namespace Aicl.Bin

open Isa (Varint Tree FixedType Derives DerivesList DerivesEntries IsNull Layout EntryPhrase
  phrases_derives_iff phrases_entry_iff)
open Outcome (Reads Phrases)

/-! ## Syntax trees as symbols -/

mutual

/-- The value of a syntax tree: the entries of a map are assigned one by one. -/
def toSymbol : Tree → Symbol
  | .fixed t value => .ofFixed t value
  | .bool value => .bool value
  | .str value => .string value
  | .bytes value => .bytes value
  | .list items => .list (toSymbols items)
  | .map entries => .map (Dict.ofEntries (toItems entries))
  | .bare _ => .null
  | .vendor tag data => .other tag data

/-- The values of a sequence of syntax trees. -/
def toSymbols : List Tree → List Symbol
  | [] => []
  | t :: ts => toSymbol t :: toSymbols ts

/-- The values of a sequence of map entries. -/
def toItems : List (Utf8String × Tree) → List (Utf8String × Symbol)
  | [] => []
  | (key, t) :: es => (key, toSymbol t) :: toItems es

end

/-- Sequences are interpreted item by item. -/
theorem toSymbols_eq_map (ts : List Tree) : toSymbols ts = ts.map toSymbol := by
  induction ts with
  | nil => rfl
  | cons t ts ih => rw [toSymbols, ih, List.map_cons]

/-- Entries are interpreted value by value. -/
theorem toItems_eq_map (es : List (Utf8String × Tree)) :
    toItems es = es.map fun e => (e.1, toSymbol e.2) := by
  induction es with
  | nil => rfl
  | cons e es ih => rw [toItems, ih, List.map_cons]

/-- A symbol and the bytes that the instruction set derives it from. -/
def Spells (s : Symbol) (b : Bytes) : Prop :=
  ∃ t, Derives IsNull t b ∧ s = toSymbol t

/-! ## Reading parts of an operand -/

variable {L : Nat}

/-- A slice inside the buffer splits it. -/
theorem getSlice_split (pre rest : Bytes) (w : Nat) :
    getSlice (pre ++ rest) pre.length (pre.length + w) = rest.take w := by
  simp [getSlice]

/-- A value of fixed width. -/
theorem readFixed_reads (w : Nat) (message : String) (value : Bytes → Symbol) :
    Reads L (readFixed w message value) (fun s b => b.length = w ∧ s = value b)
      IsOperandError where
  sound pre rest _ := by
    unfold readFixed raiseIf
    by_cases hshort : (pre ++ rest).length < pre.length + w
    · rw [Outcome.failIf, if_pos hshort]
      exact isOperandError_symbolError message
    · rw [Outcome.failIf_of_not hshort, Outcome.ok_bind, unpackFrom_of_le (by omega),
        Outcome.ok_bind]
      simp only [List.length_append] at hshort
      have hw : w ≤ rest.length := by omega
      rw [getSlice_split]
      have hlen : (rest.take w).length = w := List.length_take_of_le hw
      exact ⟨rest.take w, rest.drop w, (List.take_append_drop w rest).symm, ⟨hlen, rfl⟩,
        congrArg (pre.length + ·) hlen.symm⟩
  complete := by
    rintro s b ⟨rfl, rfl⟩ pre post _
    unfold readFixed raiseIf
    have hshort : ¬ (pre ++ (b ++ post)).length < pre.length + b.length := by
      simp only [List.length_append]
      omega
    rw [Outcome.failIf_of_not hshort, Outcome.ok_bind, unpackFrom_of_le (by omega),
      Outcome.ok_bind, getSlice_append rfl rfl]
    rfl

/-- The {lit}`BOOL` arm reads a zero or a one. -/
theorem readBool_reads :
    Reads L readBool (fun s b => ∃ v, b = [if v then 1 else 0] ∧ s = .bool v)
      IsOperandError where
  sound pre rest _ := by
    unfold readBool raiseIf
    cases rest with
    | nil =>
        rw [Outcome.failIf, if_pos (by simp)]
        exact isOperandError_symbolError _
    | cons b rest =>
        rw [Outcome.failIf_of_not (by simp), Outcome.ok_bind, getItem_append_cons rfl,
          Outcome.ok_bind]
        by_cases hb : 1 < b
        · rw [Outcome.failIf, if_pos hb]
          exact isOperandError_symbolError _
        · rw [Outcome.failIf_of_not hb, Outcome.ok_bind]
          have hbit : b = if b != 0 then 1 else 0 :=
            UInt8.forall_of_fin (p := fun b => ¬ 1 < b → b = if b != 0 then 1 else 0)
              (by decide +kernel) b hb
          exact ⟨[b], rest, rfl, ⟨b != 0, congrArg (fun x => [x]) hbit, rfl⟩, rfl⟩
  complete := by
    rintro s b ⟨v, rfl, rfl⟩ pre post _
    unfold readBool raiseIf
    rw [Outcome.failIf_of_not (by simp), Outcome.ok_bind, List.singleton_append,
      getItem_append_cons rfl]
    cases v <;> rfl

/-- Bytes after their length. -/
theorem takeCounted_reads (message : Nat → Nat → String) (length : Nat) :
    Reads L
      (fun data pos => raiseIf (data.length < pos + length) .symbolError (message length pos) >>=
        fun _ => pure (getSlice data pos (pos + length), pos + length))
      (fun raw b => raw = b ∧ b.length = length) IsOperandError where
  sound pre rest _ := by
    unfold raiseIf
    by_cases hshort : (pre ++ rest).length < pre.length + length
    · rw [Outcome.failIf, if_pos hshort]
      exact isOperandError_symbolError _
    · rw [Outcome.failIf_of_not hshort, Outcome.ok_bind]
      simp only [List.length_append] at hshort
      have hw : length ≤ rest.length := by omega
      rw [getSlice_split]
      have hlen : (rest.take length).length = length := List.length_take_of_le hw
      exact ⟨rest.take length, rest.drop length, (List.take_append_drop _ _).symm, ⟨rfl, hlen⟩,
        congrArg (pre.length + ·) hlen.symm⟩
  complete := by
    rintro raw b ⟨rfl, rfl⟩ pre post _
    have hshort : ¬ (pre ++ (raw ++ post)).length < pre.length + raw.length := by
      simp only [List.length_append]
      omega
    unfold raiseIf
    rw [Outcome.failIf_of_not hshort, Outcome.ok_bind, getSlice_append rfl rfl]
    rfl

/-- Bytes with their length in front. -/
theorem readCounted_reads (message : Nat → Nat → String) :
    Reads L (readCounted message) (fun raw b => ∃ len, b = len ++ raw ∧ Varint raw.length len)
      IsOperandError := by
  refine (decodeVarint_reads.bind fun length _ _ => takeCounted_reads message length).congr
    fun raw b => ?_
  constructor
  · rintro ⟨v, len, b₂, rfl, hv, rfl, rfl⟩
    exact ⟨len, rfl, hv⟩
  · rintro ⟨len, rfl, hv⟩
    exact ⟨raw.length, len, raw, rfl, hv, rfl, rfl⟩

/-- Decoding succeeds exactly on the bytes of the string. -/
theorem decodeUtf8_eq_ok_iff {raw : Bytes} {s : Utf8String} :
    decodeUtf8 raw = .ok s ↔ s.bytes = raw := by
  unfold decodeUtf8
  rw [← Utf8String.ofBytes?_eq_some_iff]
  cases Utf8String.ofBytes? raw <;> simp

/-- A string with its length in front. -/
theorem readString_reads (message : Nat → Nat → String) :
    Reads L (readString message) (fun s b => ∃ len, b = len ++ s.bytes ∧ Varint s.length len)
      IsOperandError := by
  have hcheck : ∀ raw, (decodeUtf8 raw).Sat (fun _ => True) IsOperandError := by
    intro raw
    unfold decodeUtf8
    split
    · exact trivial
    · exact .inr rfl
  refine ((readCounted_reads message).check hcheck).congr fun s b => ?_
  constructor
  · rintro ⟨raw, ⟨len, rfl, hv⟩, hs⟩
    obtain rfl := decodeUtf8_eq_ok_iff.mp hs
    exact ⟨len, rfl, hv⟩
  · rintro ⟨len, rfl, hv⟩
    exact ⟨s.bytes, ⟨len, rfl, hv⟩, decodeUtf8_eq_ok_iff.mpr rfl⟩

/-- The tag byte. -/
theorem readTag_reads :
    Reads L readTag (fun tag b => b = [tag]) IsOperandError where
  sound pre rest _ := by
    unfold readTag raiseIf
    cases rest with
    | nil =>
        rw [Outcome.failIf, if_pos (by simp)]
        exact isOperandError_symbolError _
    | cons tag rest =>
        rw [Outcome.failIf_of_not (by simp), Outcome.ok_bind, getItem_append_cons rfl]
        exact ⟨[tag], rest, rfl, rfl, rfl⟩
  complete := by
    rintro tag b rfl pre post _
    unfold readTag raiseIf
    rw [Outcome.failIf_of_not (by simp), Outcome.ok_bind, List.singleton_append,
      getItem_append_cons rfl]
    rfl

/-! ## Nested operands -/

variable {dec : Bytes → Nat → PyResult (Symbol × Nat)}

/-- Collecting interpreted trees one by one. -/
theorem foldl_items (ts : List Tree) (items : List Symbol) :
    ts.foldl (fun items t => items ++ [toSymbol t]) items = items ++ toSymbols ts := by
  induction ts generalizing items with
  | nil => simp [toSymbols]
  | cons t ts ih => simp [toSymbols, ih]

/-- Assigning interpreted entries one by one. -/
theorem foldl_entries (es : List (Utf8String × Tree)) (d : List (Utf8String × Symbol)) :
    es.foldl (fun d e => Dict.set e.1 (toSymbol e.2) d) d =
      (toItems es).foldl (fun d e => Dict.set e.1 e.2 d) d := by
  induction es generalizing d with
  | nil => rfl
  | cons e es ih => exact ih _

/-- One round of the loop over the items of a list. -/
theorem itemStep_reads (hdec : Reads L dec Spells IsOperandError) (i : Nat) (items : List Symbol) :
    Reads L (itemStep dec i items)
      (fun items' b => ∃ t, Derives IsNull t b ∧ items' = items ++ [toSymbol t])
      IsOperandError := by
  refine (hdec.map fun s => items ++ [s]).congr fun items' b => ?_
  constructor
  · rintro ⟨_, ⟨t, ht, rfl⟩, rfl⟩
    exact ⟨t, ht, rfl⟩
  · rintro ⟨t, ht, rfl⟩
    exact ⟨_, ⟨t, ht, rfl⟩, rfl⟩

/-- The symbols that a counted loop collects. -/
theorem items_read (hdec : Reads L dec Spells IsOperandError) (n : Nat) :
    Reads L (Outcome.loop (itemStep dec) n 0 [])
      (fun ss b => ∃ ts, ts.length = n ∧ DerivesList IsNull ts b ∧ ss = toSymbols ts)
      IsOperandError := by
  refine (Reads.loop (itemStep_reads hdec) n 0 []).congr fun ss b => ?_
  simp only [phrases_derives_iff, foldl_items, List.nil_append]

/-- One round of the loop over the entries of a map. -/
theorem entryStep_reads (hdec : Reads L dec Spells IsOperandError) (i : Nat)
    (d : List (Utf8String × Symbol)) :
    Reads L (entryStep dec i d)
      (fun d' b => ∃ e, EntryPhrase IsNull e b ∧ d' = Dict.set e.1 (toSymbol e.2) d)
      IsOperandError := by
  refine ((readString_reads _).bind fun key _ _ => hdec.map fun item =>
    Dict.set key item d).congr fun d' b => ?_
  exact Isa.exists_entry_iff toSymbol fun key item => Dict.set key item d

/-- The entries that the loop of a map assigns. -/
theorem entries_read (hdec : Reads L dec Spells IsOperandError) (n : Nat) :
    Reads L (Outcome.loop (entryStep dec) n 0 [])
      (fun d b => ∃ es, es.length = n ∧ DerivesEntries IsNull es b ∧
        d = Dict.ofEntries (toItems es)) IsOperandError := by
  refine (Reads.loop (entryStep_reads hdec) n 0 []).congr fun d b => ?_
  simp only [phrases_entry_iff, foldl_entries]
  rfl

/-- A count in front of that many phrases. -/
theorem counted_read {σ : Type} {p : Nat → Bytes → Nat → PyResult (σ × Nat)}
    {G : Nat → σ → Bytes → Prop} (f : σ → Symbol) (hp : ∀ n, Reads L (p n) (G n) IsOperandError) :
    Reads L
      (fun data pos => decodeVarint data pos >>= fun r => p r.1 data r.2 >>= fun s =>
        pure (f s.1, s.2))
      (fun s b => ∃ n len body x, b = len ++ body ∧ Varint n len ∧ G n x body ∧ s = f x)
      IsOperandError := by
  refine (decodeVarint_reads.bind fun n _ _ => (hp n).map f).congr fun s b => ?_
  constructor
  · rintro ⟨n, len, body, rfl, hv, x, hx, rfl⟩
    exact ⟨n, len, body, x, rfl, hv, hx, rfl⟩
  · rintro ⟨n, len, body, x, rfl, hv, hx, rfl⟩
    exact ⟨n, len, body, rfl, hv, x, hx, rfl⟩

/-! ## The operand decoder -/

/-- The operands that a tag byte announces. -/
theorem spells_cons_iff {s : Symbol} {tag : UInt8} {body : Bytes} :
    Spells s (tag :: body) ↔ ∃ t, Layout IsNull tag (Isa.kindOf tag) t body ∧ s = toSymbol t := by
  simp only [Spells, Isa.derives_cons_iff Isa.IsNull.standalone]

/-- Every tag of fixed width has an arm of its type. -/
theorem decodeValue_fixed (t : FixedType) :
    ∃ message, decodeValue dec t.tag = readFixed t.width message (.ofFixed t) := by
  cases t <;> exact ⟨_, rfl⟩

/-- The tags that none of the first arms is for. -/
def Unnamed (tag : UInt8) : Prop :=
  fixedStruct tag = none ∧ tag ≠ S_BOOL ∧ ¬ (tag = S_STRING ∨ tag = S_BYTES) ∧ tag ≠ S_UUID ∧
    tag ≠ S_HANDLE ∧ tag ≠ S_REF ∧ tag ≠ S_BUF_REF ∧ tag ≠ S_LIST ∧ tag ≠ S_MAP ∧ tag ≠ S_NULL

instance (tag : UInt8) : Decidable (Unnamed tag) := by
  unfold Unnamed
  infer_instance

/-- The vendor and the reserved tags have no arm of their own. -/
theorem unnamed_of_kind (tag : UInt8) :
    Isa.kindOf tag = .vendor ∨ Isa.kindOf tag = .reserved → Unnamed tag :=
  UInt8.forall_of_fin
    (p := fun tag => Isa.kindOf tag = .vendor ∨ Isa.kindOf tag = .reserved → Unnamed tag)
    (by decide +kernel) tag

/-- The last arms of the chain. -/
theorem decodeValue_unnamed {tag : UInt8} (h : Unnamed tag) :
    decodeValue dec tag =
      if isVendor tag then
        fun data pos => readCounted (fun length pos =>
          s!"vendor operand 0x{hexLower 2 tag.toNat}: truncated (need {length} at {pos})") data pos
            >>= fun r => pure (.other tag r.1, r.2)
      else fun _ _ => raise .symbolError s!"Unknown operand tag: 0x{hexLower 2 tag.toNat}" := by
  obtain ⟨hfixed, hbool, hcounted, huuid, hhandle, href, hbuf, hlist, hmap, hnull⟩ := h
  funext data pos
  unfold decodeValue
  simp only [hfixed, if_neg hbool, if_neg hcounted, if_neg huuid, if_neg hhandle, if_neg href,
    if_neg hbuf, if_neg hlist, if_neg hmap, if_neg hnull]
  split <;> rfl

/-- The chain after the tag byte reads what the tag byte announces. -/
theorem decodeValue_reads (hdec : Reads L dec Spells IsOperandError) (tag : UInt8) :
    Reads L (decodeValue dec tag) (fun s body => Spells s (tag :: body)) IsOperandError := by
  simp only [spells_cons_iff]
  have htag := Isa.tag?_kindOf tag
  cases hkind : Isa.kindOf tag with
  | fixed ft =>
      rw [hkind] at htag
      obtain rfl := htag ft.tag rfl
      obtain ⟨message, harm⟩ := @decodeValue_fixed dec ft
      rw [harm]
      refine (readFixed_reads ft.width message _).congr fun s body => ?_
      constructor
      · rintro ⟨hw, rfl⟩
        exact ⟨_, ⟨rfl, hw⟩, rfl⟩
      · rintro ⟨_, ⟨rfl, hw⟩, rfl⟩
        exact ⟨hw, rfl⟩
  | bool =>
      rw [hkind] at htag
      obtain rfl := htag _ rfl
      refine (readBool_reads (L := L)).congr fun s body => ?_
      constructor
      · rintro ⟨v, rfl, rfl⟩
        exact ⟨_, ⟨v, rfl, rfl⟩, rfl⟩
      · rintro ⟨_, ⟨v, rfl, rfl⟩, rfl⟩
        exact ⟨v, rfl, rfl⟩
  | str =>
      rw [hkind] at htag
      obtain rfl := htag _ rfl
      refine ((readString_reads (L := L) _).map Symbol.string).congr fun s body => ?_
      exact Isa.exists_value_iff .str toSymbol
  | bytes =>
      rw [hkind] at htag
      obtain rfl := htag _ rfl
      refine ((readCounted_reads (L := L) _).map Symbol.bytes).congr fun s body => ?_
      exact Isa.exists_value_iff .bytes toSymbol
  | list =>
      rw [hkind] at htag
      obtain rfl := htag _ rfl
      refine (counted_read Symbol.list fun n => items_read hdec n).congr fun s body => ?_
      exact Isa.exists_sequence_iff .list toSymbols .list toSymbol fun _ => rfl
  | map =>
      rw [hkind] at htag
      obtain rfl := htag _ rfl
      refine (counted_read Symbol.map fun n => entries_read hdec n).congr fun s body => ?_
      exact Isa.exists_sequence_iff .map (fun es => Dict.ofEntries (toItems es)) .map toSymbol
        fun _ => rfl
  | null =>
      rw [hkind] at htag
      obtain rfl := htag _ rfl
      refine (Reads.pure Symbol.null).congr fun s body => ?_
      constructor
      · rintro ⟨rfl, rfl⟩
        exact ⟨.bare 0x19, ⟨rfl, rfl, rfl⟩, rfl⟩
      · rintro ⟨_, ⟨rfl, rfl, _⟩, rfl⟩
        exact ⟨rfl, rfl⟩
  | vendor =>
      have hvendor : isVendor tag = true :=
        (isVendor_iff tag).mpr ((Isa.kindOf_eq_vendor_iff tag).mp hkind)
      rw [decodeValue_unnamed (unnamed_of_kind tag (.inl hkind)), if_pos hvendor]
      refine ((readCounted_reads _).map (Symbol.other tag)).congr fun s body => ?_
      exact Isa.exists_value_iff (.vendor tag) toSymbol
  | reserved =>
      have hvendor : ¬ isVendor tag = true := by
        rw [isVendor_iff, ← Isa.kindOf_eq_vendor_iff, hkind]
        simp
      rw [decodeValue_unnamed (unnamed_of_kind tag (.inr hkind)), if_neg hvendor]
      refine (Reads.fail (isOperandError_symbolError _)).congr fun s body => ?_
      constructor
      · exact False.elim
      · -- a reserved tag does not stand alone in the strict grammar
        rintro ⟨_, ⟨_, _, hnull⟩, _⟩
        rw [show tag = 0x19 from hnull] at hkind
        cases hkind

/-- The decoder, with fuel above the length of what is left, reads exactly the
operands of the instruction set. -/
theorem decodeSymbolFuel_reads (fuel : Nat) :
    Reads fuel (decodeSymbolFuel fuel) Spells IsOperandError := by
  induction fuel with
  | zero =>
      exact
        { sound := fun _ _ h => absurd h (Nat.not_lt_zero _)
          complete := fun _ _ _ h => absurd h (Nat.not_lt_zero _) }
  | succ fuel ih =>
      have hvalue : ∀ (tag : UInt8) (b : Bytes), b = [tag] →
          Reads (fuel + 1 - b.length) (decodeValue (decodeSymbolFuel fuel) tag)
            (fun s body => Spells s (tag :: body)) IsOperandError := by
        rintro tag b rfl
        exact decodeValue_reads ih tag
      refine (readTag_reads.bind_short hvalue).congr fun s b => ?_
      constructor
      · rintro ⟨tag, _, body, rfl, rfl, h⟩
        exact h
      · rintro ⟨t, ht, rfl⟩
        obtain ⟨tag, body, rfl⟩ := ht.exists_cons
        exact ⟨tag, [tag], body, rfl, rfl, t, ht, rfl⟩

/-- The decoder reads exactly the operands of the instruction set. -/
theorem decodeSymbol_reads (L : Nat) : Reads L decodeSymbol Spells IsOperandError where
  sound pre rest _ :=
    (decodeSymbolFuel_reads ((pre ++ rest).length + 1)).sound pre rest (by
      simp only [List.length_append]
      omega)
  complete h pre post _ :=
    (decodeSymbolFuel_reads ((pre ++ (_ ++ post)).length + 1)).complete h pre post (by
      simp only [List.length_append]
      omega)

/-- The symbols that a counted loop of decoder calls collects. -/
theorem symbols_read (n : Nat) :
    Reads L (Outcome.loop (itemStep decodeSymbol) n 0 [])
      (fun ss b => ∃ ts, ts.length = n ∧ DerivesList IsNull ts b ∧ ss = toSymbols ts)
      IsOperandError :=
  items_read (decodeSymbol_reads L) n

end Aicl.Bin
