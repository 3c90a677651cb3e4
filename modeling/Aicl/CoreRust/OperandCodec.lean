import Aicl.CoreRust.Operand
import Aicl.CoreRust.Varint
import Aicl.Foundation.Reader

/-!
# The operand codec of the Rust core

{lit}`encode_operand` and {lit}`decode_operand` of {lit}`core-rust/src/codec.rs`,
arm by arm.  The decoder follows its recursion with a fuel argument; a decoder
that runs out of it panics, so that a proof of panic freedom is also a proof that
the fuel of {lit}`decodeOperand` is enough.  The index that the source threads
through for its error messages wraps at 32 bits.

Main definitions:

- Definition {lit}`encodeOperand`: the bytes appended for an operand.
- Definition {lit}`decodeOperand`: the operand at the front of a slice and the
  number of bytes it takes.
-/

namespace Aicl.CoreRust

/-! ## Big-endian words -/

/-- A number in a fixed number of bytes. -/
def writeU16 (v : UInt16) : Bytes := BigEndian.toBytes 2 v.toNat

/-- {lit}`write_u32::<BigEndian>`. -/
def writeU32 (v : UInt32) : Bytes := BigEndian.toBytes 4 v.toNat

/-- {lit}`write_u64::<BigEndian>`. -/
def writeU64 (v : UInt64) : Bytes := BigEndian.toBytes 8 v.toNat

/-- A byte read as a number. -/
def readU8 (bs : Bytes) : UInt8 := UInt8.ofNat (BigEndian.ofBytes bs)

/-- {lit}`read_u16::<BigEndian>`. -/
def readU16 (bs : Bytes) : UInt16 := UInt16.ofNat (BigEndian.ofBytes bs)

/-- {lit}`read_u32::<BigEndian>` and {lit}`u32::from_be_bytes`. -/
def readU32 (bs : Bytes) : UInt32 := UInt32.ofNat (BigEndian.ofBytes bs)

/-- {lit}`read_u64::<BigEndian>`. -/
def readU64 (bs : Bytes) : UInt64 := UInt64.ofNat (BigEndian.ofBytes bs)

@[simp] theorem writeU16_length (v : UInt16) : (writeU16 v).length = 2 :=
  BigEndian.toBytes_length 2 _

@[simp] theorem writeU32_length (v : UInt32) : (writeU32 v).length = 4 :=
  BigEndian.toBytes_length 4 _

@[simp] theorem writeU64_length (v : UInt64) : (writeU64 v).length = 8 :=
  BigEndian.toBytes_length 8 _

@[simp] theorem readU8_singleton (v : UInt8) : readU8 [v] = v := by
  simp [readU8, BigEndian.ofBytes]

@[simp] theorem readU16_writeU16 (v : UInt16) : readU16 (writeU16 v) = v := by
  unfold readU16 writeU16
  rw [BigEndian.ofBytes_toBytes v.toNat_lt, UInt16.ofNat_toNat]

@[simp] theorem readU32_writeU32 (v : UInt32) : readU32 (writeU32 v) = v := by
  unfold readU32 writeU32
  rw [BigEndian.ofBytes_toBytes v.toNat_lt, UInt32.ofNat_toNat]

@[simp] theorem readU64_writeU64 (v : UInt64) : readU64 (writeU64 v) = v := by
  unfold readU64 writeU64
  rw [BigEndian.ofBytes_toBytes v.toNat_lt, UInt64.ofNat_toNat]

/-- The number of a byte. -/
theorem readU8_toNat {bs : Bytes} (h : bs.length = 1) :
    (readU8 bs).toNat = BigEndian.ofBytes bs := by
  have hlt := BigEndian.ofBytes_lt bs
  rw [h] at hlt
  exact UInt8.toNat_ofNat_of_lt' hlt

/-- The number of a 16-bit word. -/
theorem readU16_toNat {bs : Bytes} (h : bs.length = 2) :
    (readU16 bs).toNat = BigEndian.ofBytes bs := by
  have hlt := BigEndian.ofBytes_lt bs
  rw [h] at hlt
  exact UInt16.toNat_ofNat_of_lt' hlt

/-- The number of a 64-bit word. -/
theorem readU64_toNat {bs : Bytes} (h : bs.length = 8) :
    (readU64 bs).toNat = BigEndian.ofBytes bs := by
  have hlt := BigEndian.ofBytes_lt bs
  rw [h] at hlt
  exact UInt64.toNat_ofNat_of_lt' hlt

/-- The number of a 32-bit word. -/
theorem readU32_toNat {bs : Bytes} (h : bs.length = 4) :
    (readU32 bs).toNat = BigEndian.ofBytes bs := by
  have hlt := BigEndian.ofBytes_lt bs
  rw [h] at hlt
  exact UInt32.toNat_ofNat_of_lt' hlt

/-! ## The encoder -/

mutual

/-- The match of {lit}`encode_operand`: what follows the tag byte. -/
def encodeValue : Operand → Bytes
  | .null => []
  | .i8 v => [v.toUInt8]
  | .i16 v => writeU16 v.toUInt16
  | .i32 v => writeU32 v.toUInt32
  | .i64 v => writeU64 v.toUInt64
  | .u8 v => [v]
  | .u16 v => writeU16 v
  | .u32 v => writeU32 v
  | .u64 v => writeU64 v
  | .f32 bits => writeU32 bits
  | .f64 bits => writeU64 bits
  | .bool v => [if v then 1 else 0]
  | .str s => encodeLen s.length ++ s.bytes
  | .bytes b => encodeLen b.length ++ b
  | .uuid id => id.bytes
  | .handle v => writeU64 v
  | .ref v => writeU16 v
  | .bufRef b => writeU64 b.id ++ (writeU32 b.offset ++ writeU32 b.length)
  | .list items => encodeLen items.length ++ encodeItems items
  | .map m => encodeLen m.length ++ encodeEntries m
  | .tsMs v => writeU64 v.toUInt64
  | .durationMs v => writeU32 v
  | .vendor tag data => encodeLen data.length ++ (tag :: data)

/-- The loop over the items of a list: {lit}`encode_operand` of each. -/
def encodeItems : List Operand → Bytes
  | [] => []
  | item :: items => item.kind.toU8 :: (encodeValue item ++ encodeItems items)

/-- The loop over the entries of a map. -/
def encodeEntries : List (Utf8String × Operand) → Bytes
  | [] => []
  | (k, v) :: m =>
      encodeLen k.length ++ (k.bytes ++ (v.kind.toU8 :: (encodeValue v ++ encodeEntries m)))

end

/-- {lit}`encode_operand`: the bytes appended to the output. -/
def encodeOperand (op : Operand) : Bytes :=
  op.kind.toU8 :: encodeValue op

/-- The items of a list are written one after the other. -/
theorem encodeItems_cons (item : Operand) (items : List Operand) :
    encodeItems (item :: items) = encodeOperand item ++ encodeItems items := rfl

/-- The entries of a map are written one after the other. -/
theorem encodeEntries_cons (k : Utf8String) (v : Operand) (m : List (Utf8String × Operand)) :
    encodeEntries ((k, v) :: m) =
      encodeLen k.length ++ (k.bytes ++ (encodeOperand v ++ encodeEntries m)) := rfl

/-! ## The decoder -/

/-- {lit}`need_bytes`. -/
def needBytes (data : Bytes) (pos n : Nat) (idx : UInt32) : AiclResult Unit :=
  if data.length < pos + n then
    .err (.new .truncated s!"operand {idx}: need {n} bytes, have {data.length - pos}")
  else .ok ()

/-- An arm that reads one byte at the position. -/
def readByte (idx : UInt32) (value : UInt8 → Operand) (data : Bytes) (pos : Nat) :
    AiclResult (Operand × Nat) := do
  needBytes data pos 1 idx
  let b ← Outcome.index data pos
  pure (value b, pos + 1)

/-- {lit}`w` bytes at the position, after {lit}`need_bytes`. -/
def readRaw (idx : UInt32) (w : Nat) (data : Bytes) (pos : Nat) : AiclResult (Bytes × Nat) := do
  needBytes data pos w idx
  let raw ← Outcome.slice data pos (pos + w)
  pure (raw, pos + w)

/-- An arm that reads a value of {lit}`w` bytes at the position. -/
def readFixed (w : Nat) (idx : UInt32) (value : Bytes → Operand) (data : Bytes) (pos : Nat) :
    AiclResult (Operand × Nat) := do
  let (raw, pos) ← readRaw idx w data pos
  pure (value raw, pos)

/-- The {lit}`BufRef` arm. -/
def readBufRef (idx : UInt32) (data : Bytes) (pos : Nat) : AiclResult (Operand × Nat) := do
  needBytes data pos 16 idx
  let id ← Outcome.slice data pos (pos + 8)
  let offset ← Outcome.slice data (pos + 8) (pos + 12)
  let length ← Outcome.slice data (pos + 12) (pos + 16)
  pure (.bufRef { id := readU64 id, offset := readU32 offset, length := readU32 length }, pos + 16)

/-- The {lit}`Bool` arm. -/
def readBool (idx : UInt32) (data : Bytes) (pos : Nat) : AiclResult (Operand × Nat) := do
  needBytes data pos 1 idx
  let b ← Outcome.index data pos
  if 1 < b then .err (.new .invalidBool s!"operand {idx}: invalid BOOL {b}")
  else pure (.bool (b != 0), pos + 1)

/-- {lit}`decode_varint(&data[pos..])`, and the position after it. -/
def readVarint (data : Bytes) (pos : Nat) : AiclResult (UInt32 × Nat) := do
  let rest ← Outcome.sliceFrom data pos
  let (v, consumed) ← decodeVarint rest
  pure (v, pos + consumed)

/-- What the {lit}`Str`, {lit}`Bytes`, {lit}`Map` key and {lit}`Vendor` arms share:
a varint length and that many bytes. -/
def readCounted (idx : UInt32) (data : Bytes) (pos : Nat) : AiclResult (Bytes × Nat) := do
  let (len, pos) ← readVarint data pos
  readRaw idx len.toNat data pos

/-- {lit}`core::str::from_utf8` with the error of the arm. -/
def checkUtf8 (message : String) (raw : Bytes) : AiclResult Utf8String :=
  match Utf8String.ofBytes? raw with
  | some s => .ok s
  | none => .err (.new .invalidUtf8 message)

/-- A string: counted bytes that are checked to be UTF-8. -/
def readString (idx : UInt32) (message : String) (data : Bytes) (pos : Nat) :
    AiclResult (Utf8String × Nat) := do
  let (raw, pos) ← readCounted idx data pos
  let s ← checkUtf8 message raw
  pure (s, pos)

/-- A nested call {lit}`decode_operand(&data[pos..], idx)`. -/
def nestedOperand (dec : Bytes → UInt32 → AiclResult (Operand × Nat)) (idx : UInt32)
    (data : Bytes) (pos : Nat) : AiclResult (Operand × Nat) := do
  let rest ← Outcome.sliceFrom data pos
  let (op, consumed) ← dec rest idx
  pure (op, pos + consumed)

/-- One round of the loop that collects operands; {lit}`index` gives the index
that the operand is decoded under. -/
def itemStep (dec : Bytes → UInt32 → AiclResult (Operand × Nat)) (index : Nat → UInt32) (i : Nat)
    (items : List Operand) (data : Bytes) (pos : Nat) : AiclResult (List Operand × Nat) := do
  let (item, pos) ← nestedOperand dec (index i) data pos
  pure (items ++ [item], pos)

/-- One round of the loop over the entries of a map. -/
def entryStep (dec : Bytes → UInt32 → AiclResult (Operand × Nat)) (idx : UInt32) (i : Nat)
    (map : List (Utf8String × Operand)) (data : Bytes) (pos : Nat) :
    AiclResult (List (Utf8String × Operand) × Nat) := do
  let (key, pos) ← readString idx s!"map key {i}: invalid UTF-8" data pos
  let (value, pos) ← nestedOperand dec (idx * 1000 + UInt32.ofNat i) data pos
  pure (SortedMap.insert key value map, pos)

/-- The match of {lit}`decode_operand` on the operand type, with the function that
it calls for nested operands.  Its {lit}`UnknownType` arm is left out: the types
before it are all there are. -/
def decodeValue (dec : Bytes → UInt32 → AiclResult (Operand × Nat)) (tag : OperandType)
    (idx : UInt32) (data : Bytes) (pos : Nat) : AiclResult (Operand × Nat) :=
  match tag with
  | .null => pure (.null, pos)
  | .i8 => readByte idx (fun b => .i8 b.toInt8) data pos
  | .i16 => readFixed 2 idx (fun bs => .i16 (readU16 bs).toInt16) data pos
  | .i32 => readFixed 4 idx (fun bs => .i32 (readU32 bs).toInt32) data pos
  | .i64 => readFixed 8 idx (fun bs => .i64 (readU64 bs).toInt64) data pos
  | .u8 => readByte idx .u8 data pos
  | .u16 => readFixed 2 idx (fun bs => .u16 (readU16 bs)) data pos
  | .u32 => readFixed 4 idx (fun bs => .u32 (readU32 bs)) data pos
  | .u64 => readFixed 8 idx (fun bs => .u64 (readU64 bs)) data pos
  | .f32 => readFixed 4 idx (fun bs => .f32 (readU32 bs)) data pos
  | .f64 => readFixed 8 idx (fun bs => .f64 (readU64 bs)) data pos
  | .bool => readBool idx data pos
  | .str => do
      let (s, pos) ← readString idx s!"operand {idx}: invalid UTF-8" data pos
      pure (.str s, pos)
  | .bytes => do
      let (raw, pos) ← readCounted idx data pos
      pure (.bytes raw, pos)
  | .uuid => readFixed 16 idx (fun bs => .uuid (Id16.ofSlice bs)) data pos
  | .handle => readFixed 8 idx (fun bs => .handle (readU64 bs)) data pos
  | .ref => readFixed 2 idx (fun bs => .ref (readU16 bs)) data pos
  | .bufRef => readBufRef idx data pos
  | .list => do
      let (count, pos) ← readVarint data pos
      let (items, pos) ← Outcome.loop (itemStep dec fun i => idx * 1000 + UInt32.ofNat i)
        count.toNat 0 [] data pos
      pure (.list items, pos)
  | .map => do
      let (count, pos) ← readVarint data pos
      let (map, pos) ← Outcome.loop (entryStep dec idx) count.toNat 0 [] data pos
      pure (.map map, pos)
  | .tsMs => readFixed 8 idx (fun bs => .tsMs (readU64 bs).toInt64) data pos
  | .durationMs => readFixed 4 idx (fun bs => .durationMs (readU32 bs)) data pos
  | .vendor v => do
      let (raw, pos) ← readCounted idx data pos
      pure (.vendor v raw, pos)

/-- The body of {lit}`decode_operand`. -/
def decodeOperandWith (dec : Bytes → UInt32 → AiclResult (Operand × Nat)) (data : Bytes)
    (idx : UInt32) : AiclResult (Operand × Nat) :=
  if data.isEmpty then .err (.new .truncated s!"operand {idx}: no tag byte")
  else do
    let tag ← Outcome.index data 0
    decodeValue dec (OperandType.fromU8 tag) idx data 1

/-- {lit}`decode_operand` with a bound on the depth of its recursion. -/
def decodeOperandFuel : (fuel : Nat) → Bytes → UInt32 → AiclResult (Operand × Nat)
  | 0, _, _ => .panic
  | fuel + 1, data, idx => decodeOperandWith (decodeOperandFuel fuel) data idx

/-- {lit}`decode_operand`: every nested call gets a shorter slice. -/
def decodeOperand (data : Bytes) (idx : UInt32) : AiclResult (Operand × Nat) :=
  decodeOperandFuel (data.length + 1) data idx

end Aicl.CoreRust
