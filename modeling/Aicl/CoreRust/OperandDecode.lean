import Aicl.CoreRust.OperandCodec
import Aicl.Isa.Phrases

/-!
# What the operand decoder reads

The operand decoder of the Rust core against the operand grammar of the
instruction set.  It reads the grammar in which the reserved tags stand alone,
as {lit}`NULL` does; the value is the interpretation of the syntax tree.

Main results:

- Theorem {lit}`decodeOperand_reads`: the decoder reads exactly the operands of
  the lenient grammar, never reports {lit}`UnknownType`, and never panics.
- Theorem {lit}`operands_read`: a counted loop of decoder calls reads as many
  operands.
-/

namespace Aicl.CoreRust

open Isa (Varint Tree FixedType Derives DerivesList DerivesEntries IsNullOrReserved Layout EntryPhrase
  phrases_derives_iff phrases_entry_iff)
open Outcome (Reads ReadsFront Phrases)

/-! ## Syntax trees as operands -/

/-- The value that a fixed-width operand is read as. -/
def Operand.ofFixed : FixedType → Bytes → Operand
  | .i8, bs => .i8 (readU8 bs).toInt8
  | .i16, bs => .i16 (readU16 bs).toInt16
  | .i32, bs => .i32 (readU32 bs).toInt32
  | .i64, bs => .i64 (readU64 bs).toInt64
  | .u8, bs => .u8 (readU8 bs)
  | .u16, bs => .u16 (readU16 bs)
  | .u32, bs => .u32 (readU32 bs)
  | .u64, bs => .u64 (readU64 bs)
  | .f32, bs => .f32 (readU32 bs)
  | .f64, bs => .f64 (readU64 bs)
  | .uuid, bs => .uuid (Id16.ofSlice bs)
  | .handle, bs => .handle (readU64 bs)
  | .ref, bs => .ref (readU16 bs)
  | .bufRef, bs => .bufRef
      { id := readU64 (bs.take 8)
        offset := readU32 ((bs.drop 8).take 4)
        length := readU32 (bs.drop 12) }
  | .tsMs, bs => .tsMs (readU64 bs).toInt64
  | .durationMs, bs => .durationMs (readU32 bs)

mutual

/-- The value of a syntax tree: bare tags are {lit}`Null`, the entries of a map
are inserted one by one. -/
def toOperand : Tree → Operand
  | .fixed t value => .ofFixed t value
  | .bool value => .bool value
  | .str value => .str value
  | .bytes value => .bytes value
  | .list items => .list (toOperands items)
  | .map entries => .map (SortedMap.ofEntries (toEntries entries))
  | .bare _ => .null
  | .vendor tag data => .vendor tag data

/-- The values of a sequence of syntax trees. -/
def toOperands : List Tree → List Operand
  | [] => []
  | t :: ts => toOperand t :: toOperands ts

/-- The values of a sequence of map entries. -/
def toEntries : List (Utf8String × Tree) → List (Utf8String × Operand)
  | [] => []
  | (key, t) :: es => (key, toOperand t) :: toEntries es

end

/-- Sequences are interpreted item by item. -/
theorem toOperands_eq_map (ts : List Tree) : toOperands ts = ts.map toOperand := by
  induction ts with
  | nil => rfl
  | cons t ts ih => rw [toOperands, ih, List.map_cons]

/-- Entries are interpreted value by value. -/
theorem toEntries_eq_map (es : List (Utf8String × Tree)) :
    toEntries es = es.map fun e => (e.1, toOperand e.2) := by
  induction es with
  | nil => rfl
  | cons e es ih => rw [toEntries, ih, List.map_cons]

/-- A value has its maps sorted. -/
theorem toOperand_sorted (t : Tree) : (toOperand t).All Operand.MapSorted := by
  induction t using Tree.induct with
  | fixed ft value =>
      refine (Operand.all_leaf_iff ?_).mpr ?_ <;> cases ft <;> trivial
  | list items ih =>
      refine Operand.all_list_iff.mpr ⟨trivial, fun op hop => ?_⟩
      rw [toOperands_eq_map] at hop
      obtain ⟨t, ht, rfl⟩ := List.mem_map.mp hop
      exact ih t ht
  | map entries ih =>
      refine Operand.all_map_iff.mpr ⟨SortedMap.ofEntries_sorted _, fun e he => ?_⟩
      have hmem := SortedMap.mem_ofEntries he
      rw [toEntries_eq_map] at hmem
      obtain ⟨e', he', rfl⟩ := List.mem_map.mp hmem
      exact ih e' he'
  | _ => refine (Operand.all_leaf_iff ?_).mpr ?_ <;> trivial

/-- The values of a sequence have their maps sorted. -/
theorem toOperands_sorted (ts : List Tree) : ∀ op ∈ toOperands ts, op.All Operand.MapSorted := by
  intro op hop
  rw [toOperands_eq_map] at hop
  obtain ⟨t, _, rfl⟩ := List.mem_map.mp hop
  exact toOperand_sorted t

/-- An operand and the bytes that the grammar derives it from. -/
def Spells (bare : UInt8 → Prop) (op : Operand) (b : Bytes) : Prop :=
  ∃ t, Derives bare t b ∧ op = toOperand t

/-- An operand that the instruction set spells is one that a lenient reader
sees. -/
theorem Spells.lenient {op : Operand} {b : Bytes} (h : Spells Isa.IsNull op b) :
    Spells IsNullOrReserved op b := by
  obtain ⟨t, ht, rfl⟩ := h
  exact ⟨t, ht.mono Isa.IsNull.orReserved, rfl⟩

/-- The operand decoder has no way to report an unknown type. -/
def NotUnknownType (e : AiclError) : Prop :=
  e.code ≠ .unknownType

/-- A varint is never refused as an unknown type. -/
theorem IsVarintError.notUnknownType {e : AiclError} (h : IsVarintError e) : NotUnknownType e := by
  intro hcode
  rcases h with h | h <;> simp [h] at hcode

/-! ## Reading parts of an operand -/

variable {L : Nat}

/-- {lit}`need_bytes` succeeds when the bytes are there. -/
theorem needBytes_of_le {data : Bytes} {pos n : Nat} (h : pos + n ≤ data.length) (idx : UInt32) :
    needBytes data pos n idx = .ok () := by
  unfold needBytes
  rw [if_neg (by omega)]

/-- {lit}`need_bytes` reports what is missing. -/
theorem needBytes_sat (data : Bytes) (pos n : Nat) (idx : UInt32) :
    (needBytes data pos n idx).Sat (fun _ => pos + n ≤ data.length) NotUnknownType := by
  unfold needBytes
  split
  · simp [NotUnknownType]
  · simp only [Outcome.sat_ok]
    omega

/-- Bytes read at a position, after the check that they are there. -/
theorem readRaw_reads (idx : UInt32) (w : Nat) :
    Reads L (readRaw idx w) (fun raw b => raw = b ∧ b.length = w) NotUnknownType where
  sound pre rest _ := by
    refine (needBytes_sat _ _ _ _).bind ?_
    intro _ hle
    rw [List.length_append] at hle
    refine (Outcome.slice_sat (by omega) (by simp only [List.length_append]; omega)).bind ?_
    rintro raw ⟨hsplit, hlen⟩
    rw [List.take_left] at hsplit
    have hlen' : raw.length = w := by omega
    exact ⟨raw, _, List.append_cancel_left hsplit, ⟨rfl, hlen'⟩,
      congrArg (pre.length + ·) hlen'.symm⟩
  complete := by
    rintro raw b ⟨rfl, rfl⟩ pre post _
    unfold readRaw
    rw [needBytes_of_le (by simp)]
    simp [Outcome.slice_append]

/-- An arm of fixed width. -/
theorem readFixed_reads (idx : UInt32) (w : Nat) (value : Bytes → Operand) :
    Reads L (readFixed w idx value) (fun op b => b.length = w ∧ op = value b) NotUnknownType := by
  refine ((readRaw_reads idx w).map value).congr fun op b => ?_
  constructor
  · rintro ⟨raw, ⟨rfl, hlen⟩, rfl⟩
    exact ⟨hlen, rfl⟩
  · rintro ⟨hlen, rfl⟩
    exact ⟨b, ⟨rfl, hlen⟩, rfl⟩

/-- Reading the byte at a position is reading a value of width one. -/
theorem readByte_eq (idx : UInt32) (value : UInt8 → Operand) :
    readByte idx value = readFixed 1 idx fun bs => value (readU8 bs) := by
  funext data pos
  unfold readByte readFixed readRaw needBytes
  split
  · rfl
  next h =>
    have hlt : pos < data.length := by omega
    have htake : (data.drop pos).take (pos + 1 - pos) = [data[pos]] := by
      rw [Nat.add_sub_cancel_left, List.drop_eq_getElem_cons hlt]
      rfl
    rw [Outcome.index_of_lt hlt, Outcome.slice_of_le (by omega) (by omega), htake]
    simp

/-- The three slices of a buffer reference are parts of one slice. -/
theorem readBufRef_eq (idx : UInt32) :
    readBufRef idx = readFixed 16 idx (Operand.ofFixed .bufRef) := by
  funext data pos
  unfold readBufRef readFixed readRaw needBytes
  split
  · rfl
  next h =>
    rw [Outcome.slice_of_le (by omega) (by omega), Outcome.slice_of_le (by omega) (by omega),
      Outcome.slice_of_le (by omega) (by omega), Outcome.slice_of_le (by omega) (by omega)]
    simp [Operand.ofFixed, List.drop_take, List.take_take, Nat.add_sub_add_left]

/-- Every arm of fixed width reads its type. -/
theorem decodeValue_fixed (dec : Bytes → UInt32 → AiclResult (Operand × Nat)) (t : FixedType)
    (idx : UInt32) :
    decodeValue dec (.ofFixed t) idx = readFixed t.width idx (Operand.ofFixed t) := by
  cases t with
  | i8 => exact readByte_eq idx _
  | u8 => exact readByte_eq idx _
  | bufRef => exact readBufRef_eq idx
  | _ => rfl

/-- The {lit}`Bool` arm reads a zero or a one. -/
theorem readBool_reads (idx : UInt32) :
    Reads L (readBool idx) (fun op b => ∃ v, b = [if v then 1 else 0] ∧ op = .bool v)
      NotUnknownType where
  sound pre rest _ := by
    refine (needBytes_sat _ _ _ _).bind ?_
    intro _ hle
    cases rest with
    | nil =>
        rw [List.append_nil] at hle
        omega
    | cons b rest =>
        rw [Outcome.index_append_cons rfl, Outcome.ok_bind]
        split
        next => simp [NotUnknownType]
        next hb =>
          have hbit : b = if b != 0 then 1 else 0 :=
            UInt8.forall_of_fin (p := fun b => ¬ 1 < b → b = if b != 0 then 1 else 0)
              (by decide +kernel) b hb
          exact ⟨[b], rest, rfl, ⟨b != 0, congrArg (fun x => [x]) hbit, rfl⟩, rfl⟩
  complete := by
    rintro op b ⟨v, rfl, rfl⟩ pre post _
    unfold readBool
    rw [needBytes_of_le (by simp), List.singleton_append, Outcome.index_append_cons rfl]
    cases v <;> rfl

/-- A varint at a position. -/
theorem readVarint_reads :
    Reads L readVarint (fun v b => Varint v.toNat b) NotUnknownType := by
  have hfront : ReadsFront L decodeVarint (fun v b => Varint v.toNat b) NotUnknownType :=
    { sound := fun rest _ => (decodeVarint_sat rest).mono
        (fun _ ⟨b, post, hb, hv, hlen⟩ => ⟨b, post, hb, hv, hlen.symm⟩)
        fun _ he => he.notUnknownType
      complete := fun hv post _ => decodeVarint_eq_ok_iff.mpr ⟨_, post, rfl, hv, rfl⟩ }
  exact hfront.nested

/-- Bytes with their length in front. -/
theorem readCounted_reads (idx : UInt32) :
    Reads L (readCounted idx) (fun raw b => ∃ len, b = len ++ raw ∧ Varint raw.length len)
      NotUnknownType := by
  refine (readVarint_reads.bind fun len _ _ => readRaw_reads idx len.toNat).congr fun raw b => ?_
  constructor
  · rintro ⟨v, len, b₂, rfl, hv, rfl, hlen⟩
    exact ⟨len, rfl, hlen ▸ hv⟩
  · rintro ⟨len, rfl, hv⟩
    have hnat := hv.toNat_ofNat
    exact ⟨UInt32.ofNat raw.length, len, raw, rfl, hnat.symm ▸ hv, rfl, hnat.symm⟩

/-- Bytes with their length in front, checked to be UTF-8. -/
theorem readString_reads (idx : UInt32) (message : String) :
    Reads L (readString idx message) (fun s b => ∃ len, b = len ++ s.bytes ∧ Varint s.length len)
      NotUnknownType := by
  have hcheck : ∀ raw, (checkUtf8 message raw).Sat (fun _ => True) NotUnknownType := by
    intro raw
    unfold checkUtf8
    split <;> simp [NotUnknownType]
  have hok : ∀ {raw s}, checkUtf8 message raw = .ok s ↔ s.bytes = raw := by
    intro raw s
    unfold checkUtf8
    rw [← Utf8String.ofBytes?_eq_some_iff]
    cases Utf8String.ofBytes? raw <;> simp
  refine ((readCounted_reads idx).check hcheck).congr fun s b => ?_
  constructor
  · rintro ⟨raw, ⟨len, rfl, hv⟩, hs⟩
    obtain rfl := hok.mp hs
    exact ⟨len, rfl, hv⟩
  · rintro ⟨len, rfl, hv⟩
    exact ⟨s.bytes, ⟨len, rfl, hv⟩, hok.mpr rfl⟩

/-! ## Nested operands -/

/-- A function that decodes the operands at the front of slices shorter than
{lit}`L`. -/
abbrev ReadsOperands (L : Nat) (dec : Bytes → UInt32 → AiclResult (Operand × Nat)) : Prop :=
  ∀ idx, ReadsFront L (dec · idx) (Spells IsNullOrReserved) NotUnknownType

variable {dec : Bytes → UInt32 → AiclResult (Operand × Nat)}

/-- Collecting interpreted trees one by one. -/
theorem foldl_items (ts : List Tree) (ops : List Operand) :
    ts.foldl (fun ops t => ops ++ [toOperand t]) ops = ops ++ toOperands ts := by
  induction ts generalizing ops with
  | nil => simp [toOperands]
  | cons t ts ih => simp [toOperands, ih]

/-- Inserting interpreted entries one by one. -/
theorem foldl_entries (es : List (Utf8String × Tree)) (m : List (Utf8String × Operand)) :
    es.foldl (fun m e => SortedMap.insert e.1 (toOperand e.2) m) m =
      (toEntries es).foldl (fun m e => SortedMap.insert e.1 e.2 m) m := by
  induction es generalizing m with
  | nil => rfl
  | cons e es ih => exact ih _

/-- The operands that a counted loop collects. -/
theorem items_read (hdec : ReadsOperands L dec)
    (index : Nat → UInt32) (n : Nat) :
    Reads L (Outcome.loop (itemStep dec index) n 0 [])
      (fun ops b => ∃ ts, ts.length = n ∧ DerivesList IsNullOrReserved ts b ∧ ops = toOperands ts)
      NotUnknownType := by
  have hstep : ∀ i items, Reads L (itemStep dec index i items)
      (fun items' b => ∃ t, Derives IsNullOrReserved t b ∧ items' = items ++ [toOperand t])
      NotUnknownType := by
    intro i items
    refine ((hdec (index i)).nested.map fun op => items ++ [op]).congr fun items' b => ?_
    constructor
    · rintro ⟨_, ⟨t, ht, rfl⟩, rfl⟩
      exact ⟨t, ht, rfl⟩
    · rintro ⟨t, ht, rfl⟩
      exact ⟨_, ⟨t, ht, rfl⟩, rfl⟩
  refine (Reads.loop hstep n 0 []).congr fun ops b => ?_
  simp only [phrases_derives_iff, foldl_items, List.nil_append]

/-- The entries that the loop of a map inserts. -/
theorem entries_read (hdec : ReadsOperands L dec)
    (idx : UInt32) (n : Nat) :
    Reads L (Outcome.loop (entryStep dec idx) n 0 [])
      (fun m b => ∃ es, es.length = n ∧ DerivesEntries IsNullOrReserved es b ∧
        m = SortedMap.ofEntries (toEntries es)) NotUnknownType := by
  have hstep : ∀ i m, Reads L (entryStep dec idx i m)
      (fun m' b => ∃ e, EntryPhrase IsNullOrReserved e b ∧
        m' = SortedMap.insert e.1 (toOperand e.2) m) NotUnknownType := by
    intro i m
    refine ((readString_reads idx _).bind fun key _ _ =>
      (hdec (idx * 1000 + UInt32.ofNat i)).nested.map fun value =>
        SortedMap.insert key value m).congr fun m' b => ?_
    exact Isa.exists_entry_iff toOperand fun key value => SortedMap.insert key value m
  refine (Reads.loop hstep n 0 []).congr fun m b => ?_
  simp only [phrases_entry_iff, foldl_entries]
  rfl

/-- The {lit}`Null` arm reads nothing after a tag that stands alone. -/
theorem null_reads {tag : UInt8} {k : Isa.Kind} (htag : IsNullOrReserved tag)
    (hk : k = .null ∨ k = .reserved) :
    Reads L (fun (_ : Bytes) pos => (.ok (.null, pos) : AiclResult (Operand × Nat)))
      (fun op body => ∃ t, Layout IsNullOrReserved tag k t body ∧ op = toOperand t)
      NotUnknownType := by
  refine (Reads.pure Operand.null).congr fun op body => ?_
  constructor
  · rintro ⟨rfl, rfl⟩
    rcases hk with rfl | rfl <;> exact ⟨.bare tag, ⟨rfl, rfl, htag⟩, rfl⟩
  · rcases hk with rfl | rfl <;> (rintro ⟨_, ⟨rfl, rfl, _⟩, rfl⟩; exact ⟨rfl, rfl⟩)

/-- A count in front of that many phrases. -/
theorem counted_read {σ : Type} {p : Nat → Bytes → Nat → AiclResult (σ × Nat)}
    {G : Nat → σ → Bytes → Prop} (f : σ → Operand)
    (hp : ∀ n, Reads L (p n) (G n) NotUnknownType) :
    Reads L
      (fun data pos => readVarint data pos >>= fun r => p r.1.toNat data r.2 >>= fun s =>
        pure (f s.1, s.2))
      (fun op b => ∃ n len body s, b = len ++ body ∧ Varint n len ∧ G n s body ∧ op = f s)
      NotUnknownType := by
  refine (readVarint_reads.bind fun v _ _ => (hp v.toNat).map f).congr fun op b => ?_
  constructor
  · rintro ⟨v, len, body, rfl, hv, s, hs, rfl⟩
    exact ⟨v.toNat, len, body, s, rfl, hv, hs, rfl⟩
  · rintro ⟨n, len, body, s, rfl, hv, hs, rfl⟩
    have hnat := hv.toNat_ofNat
    exact ⟨UInt32.ofNat n, len, body, rfl, hnat.symm ▸ hv, s, hnat.symm ▸ hs, rfl⟩

/-! ## The operand decoder -/

/-- The operands that a tag byte announces. -/
theorem spells_cons_iff {op : Operand} {tag : UInt8} {body : Bytes} :
    Spells IsNullOrReserved op (tag :: body) ↔
      ∃ t, Layout IsNullOrReserved tag (Isa.kindOf tag) t body ∧ op = toOperand t := by
  simp only [Spells, Isa.derives_cons_iff IsNullOrReserved.standalone]

/-- The match on the operand type reads what the tag byte announces. -/
theorem decodeValue_reads (hdec : ReadsOperands L dec)
    (tag : UInt8) (idx : UInt32) :
    Reads L (decodeValue dec (.fromU8 tag) idx)
      (fun op body => Spells IsNullOrReserved op (tag :: body)) NotUnknownType := by
  simp only [spells_cons_iff]
  rw [OperandType.fromU8_kindOf]
  cases hkind : Isa.kindOf tag with
  | fixed ft =>
      have harm : decodeValue dec (.ofKind tag (.fixed ft)) idx = _ := decodeValue_fixed dec ft idx
      rw [harm]
      refine (readFixed_reads idx ft.width _).congr fun op body => ?_
      constructor
      · rintro ⟨hw, rfl⟩
        exact ⟨_, ⟨rfl, hw⟩, rfl⟩
      · rintro ⟨_, ⟨rfl, hw⟩, rfl⟩
        exact ⟨hw, rfl⟩
  | bool =>
      refine (readBool_reads idx).congr fun op body => ?_
      constructor
      · rintro ⟨v, rfl, rfl⟩
        exact ⟨_, ⟨v, rfl, rfl⟩, rfl⟩
      · rintro ⟨_, ⟨v, rfl, rfl⟩, rfl⟩
        exact ⟨v, rfl, rfl⟩
  | str =>
      refine ((readString_reads idx _).map Operand.str).congr fun op body => ?_
      exact Isa.exists_value_iff .str toOperand
  | bytes =>
      refine ((readCounted_reads idx).map Operand.bytes).congr fun op body => ?_
      exact Isa.exists_value_iff .bytes toOperand
  | list =>
      refine (counted_read .list fun n =>
        items_read hdec (fun i => idx * 1000 + UInt32.ofNat i) n).congr fun op body => ?_
      exact Isa.exists_sequence_iff .list toOperands .list toOperand fun _ => rfl
  | map =>
      refine (counted_read .map fun n => entries_read hdec idx n).congr fun op body => ?_
      exact Isa.exists_sequence_iff .map (fun es => SortedMap.ofEntries (toEntries es)) .map
        toOperand fun _ => rfl
  | vendor =>
      refine ((readCounted_reads idx).map (Operand.vendor tag)).congr fun op body => ?_
      exact Isa.exists_value_iff (.vendor tag) toOperand
  | null => exact null_reads (Isa.isNullOrReserved_of_kind (.inl hkind)) (.inl rfl)
  | reserved => exact null_reads (Isa.isNullOrReserved_of_kind (.inr hkind)) (.inr rfl)

/-- The operand decoder, with fuel above the length of the slice, reads exactly
the operands of the lenient grammar. -/
theorem decodeOperandFuel_reads (fuel : Nat) : ReadsOperands fuel (decodeOperandFuel fuel) := by
  intro idx
  induction fuel generalizing idx with
  | zero =>
      exact
        { sound := fun _ h => absurd h (Nat.not_lt_zero _)
          complete := fun _ _ h => absurd h (Nat.not_lt_zero _) }
  | succ fuel ih =>
      have herr : NotUnknownType (.new .truncated s!"operand {idx}: no tag byte") := by
        simp [NotUnknownType]
      refine (Reads.front herr fun tag => decodeValue_reads ih tag idx).congr fun op b => ?_
      constructor
      · rintro ⟨tag, body, rfl, h⟩
        exact h
      · rintro ⟨t, ht, rfl⟩
        obtain ⟨tag, body, rfl⟩ := ht.exists_cons
        exact ⟨tag, body, rfl, t, ht, rfl⟩

/-- The operand decoder reads exactly the operands of the lenient grammar, from
slices of any length. -/
theorem decodeOperand_reads (L : Nat) : ReadsOperands L decodeOperand := fun idx =>
  { sound := fun rest _ =>
      (decodeOperandFuel_reads (rest.length + 1) idx).sound rest (Nat.lt_succ_self _)
    complete := fun h post _ =>
      (decodeOperandFuel_reads ((_ ++ post).length + 1) idx).complete h post (Nat.lt_succ_self _) }

/-- The operand at the front of a slice. -/
theorem decodeOperand_eq_ok_iff {data : Bytes} {idx : UInt32} {op : Operand} {n : Nat} :
    decodeOperand data idx = .ok (op, n) ↔
      ∃ b post, data = b ++ post ∧ Spells IsNullOrReserved op b ∧ b.length = n :=
  (decodeOperand_reads (data.length + 1) idx).eq_ok_iff (Nat.lt_succ_self _)

/-- A decoded operand has its maps sorted. -/
theorem decodeOperand_sorted {data : Bytes} {idx : UInt32} {op : Operand} {n : Nat}
    (h : decodeOperand data idx = .ok (op, n)) : op.All Operand.MapSorted := by
  obtain ⟨_, _, _, ⟨t, _, rfl⟩, _⟩ := decodeOperand_eq_ok_iff.mp h
  exact toOperand_sorted t

/-- The operands that a counted loop of decoder calls collects. -/
theorem operands_read (index : Nat → UInt32) (n : Nat) :
    Reads L (Outcome.loop (itemStep decodeOperand index) n 0 [])
      (fun ops b => ∃ ts, ts.length = n ∧ DerivesList IsNullOrReserved ts b ∧ ops = toOperands ts)
      NotUnknownType :=
  items_read (decodeOperand_reads L) index n

end Aicl.CoreRust
