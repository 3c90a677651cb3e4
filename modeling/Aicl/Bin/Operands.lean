import Aicl.Bin.Symbol
import Aicl.Bin.Varint
import Aicl.Foundation.Ieee754

/-!
# The operand codec of the Python package

{lit}`encode_symbol` and {lit}`decode_symbol` of {lit}`aicl/bin/operands.py`, arm by
arm.  The decoder follows its recursion with a fuel argument; the recursion of
the language is taken as unlimited, so that {lit}`decodeSymbol` has fuel for every
buffer.

Main definitions:

- Definition {lit}`encodeSymbol`: the bytes of a symbol, or what encoding it
  raises.
- Definition {lit}`decodeSymbol`: the symbol at a position and the position after
  it.
-/

namespace Aicl.Bin

/-! ## The encoder -/

/-- A byte string with its length in front. -/
def encodeCounted (raw : Bytes) : PyResult Bytes := do
  let len ← encodeVarint raw.length
  pure (len ++ raw)

/-- {lit}`struct.pack(">f", value)`. -/
def packF32 (value : UInt64) : PyResult Bytes :=
  match Ieee754.narrow value with
  | some single => .ok (BigEndian.toBytes 4 single.toNat)
  | none => .err .overflowError

/-- {lit}`struct.pack(">d", value)`. -/
def packF64 (value : UInt64) : Bytes := BigEndian.toBytes 8 value.toNat

mutual

/-- {lit}`encode_symbol`. -/
def encodeSymbol : Symbol → PyResult Bytes
  | .int t value => do
      let raw ← packInt t.signed t.width value
      pure (t.tag :: raw)
  | .f32 value => do
      let raw ← packF32 value
      pure (S_F32 :: raw)
  | .f64 value => pure (S_F64 :: packF64 value)
  | .bool value => pure [S_BOOL, if value then 1 else 0]
  | .string value => do
      let raw ← encodeCounted value.bytes
      pure (S_STRING :: raw)
  | .bytes value => do
      let raw ← encodeCounted value
      pure (S_BYTES :: raw)
  | .uuid value => do
      raiseIf (value.length ≠ 16) .symbolError
        s!"UUID operand must be 16 bytes, got {value.length}"
      pure (S_UUID :: value)
  | .bufRef id offset length => do
      let id ← packInt false 8 id
      let offset ← packInt false 4 offset
      let length ← packInt false 4 length
      pure (S_BUF_REF :: (id ++ (offset ++ length)))
  | .list value => do
      let len ← encodeVarint value.length
      let items ← encodeItems value
      pure (S_LIST :: (len ++ items))
  | .map value => do
      let len ← encodeVarint value.length
      let entries ← encodeEntries value
      pure (S_MAP :: (len ++ entries))
  | .null => pure [S_NULL]
  | .other tag value =>
      if isVendor tag then do
        let raw ← encodeCounted value
        pure (tag :: raw)
      else raise .symbolError s!"Unknown operand tag: 0x{hexLower 2 tag.toNat}"

/-- The loop over the items of a list. -/
def encodeItems : List Symbol → PyResult Bytes
  | [] => pure []
  | item :: items => do
      let raw ← encodeSymbol item
      let rest ← encodeItems items
      pure (raw ++ rest)

/-- The loop over the entries of a map. -/
def encodeEntries : List (Utf8String × Symbol) → PyResult Bytes
  | [] => pure []
  | (key, item) :: entries => do
      let kb ← encodeCounted key.bytes
      let raw ← encodeSymbol item
      let rest ← encodeEntries entries
      pure (kb ++ (raw ++ rest))

end

/-- {lit}`encode_symbols`: operands back to back. -/
def encodeSymbols (symbols : List Symbol) : PyResult Bytes := encodeItems symbols

/-! ## Reading parts of an operand -/

/-- A value of fixed width, after the check that its bytes are there. -/
def readFixed (w : Nat) (message : String) (value : Bytes → Symbol) (data : Bytes) (pos : Nat) :
    PyResult (Symbol × Nat) := do
  raiseIf (data.length < pos + w) .symbolError message
  let raw ← unpackFrom w data pos
  pure (value raw, pos + w)

/-- The {lit}`BOOL` arm. -/
def readBool (data : Bytes) (pos : Nat) : PyResult (Symbol × Nat) := do
  raiseIf (data.length ≤ pos) .symbolError "operand BOOL: need 1 byte"
  let raw ← getItem data pos
  raiseIf (1 < raw) .symbolError s!"operand BOOL: invalid value {raw}"
  pure (.bool (raw != 0), pos + 1)

/-- A byte string with its length in front. -/
def readCounted (message : Nat → Nat → String) (data : Bytes) (pos : Nat) :
    PyResult (Bytes × Nat) := do
  let (length, pos) ← decodeVarint data pos
  let stop := pos + length
  raiseIf (data.length < stop) .symbolError (message length pos)
  pure (getSlice data pos stop, stop)

/-- {lit}`raw.decode("utf-8")`. -/
def decodeUtf8 (raw : Bytes) : PyResult Utf8String :=
  match Utf8String.ofBytes? raw with
  | some s => .ok s
  | none => .err .unicodeDecodeError

/-- A string with its length in front. -/
def readString (message : Nat → Nat → String) (data : Bytes) (pos : Nat) :
    PyResult (Utf8String × Nat) := do
  let (raw, pos) ← readCounted message data pos
  let s ← decodeUtf8 raw
  pure (s, pos)

/-- The value of a fixed-width operand. -/
def Symbol.ofFixed : Isa.FixedType → Bytes → Symbol
  | .i8, bs => .int .i8 (unpackInt true bs)
  | .i16, bs => .int .i16 (unpackInt true bs)
  | .i32, bs => .int .i32 (unpackInt true bs)
  | .i64, bs => .int .i64 (unpackInt true bs)
  | .u8, bs => .int .u8 (unpackInt false bs)
  | .u16, bs => .int .u16 (unpackInt false bs)
  | .u32, bs => .int .u32 (unpackInt false bs)
  | .u64, bs => .int .u64 (unpackInt false bs)
  | .f32, bs => .f32 (Ieee754.widen (UInt32.ofNat (BigEndian.ofBytes bs)))
  | .f64, bs => .f64 (UInt64.ofNat (BigEndian.ofBytes bs))
  | .uuid, bs => .uuid bs
  | .handle, bs => .int .handle (unpackInt false bs)
  | .ref, bs => .int .ref (unpackInt false bs)
  | .bufRef, bs =>
      .bufRef (unpackInt false (bs.take 8)) (unpackInt false ((bs.drop 8).take 4))
        (unpackInt false (bs.drop 12))
  | .tsMs, bs => .int .tsMs (unpackInt true bs)
  | .durationMs, bs => .int .durationMs (unpackInt false bs)

/-- The tags of {lit}`_FIXED_STRUCT`, with the type of their format. -/
def fixedStruct (tag : UInt8) : Option Isa.FixedType :=
  if tag = S_I8 then some .i8 else if tag = S_I16 then some .i16
  else if tag = S_I32 then some .i32 else if tag = S_I64 then some .i64
  else if tag = S_U8 then some .u8 else if tag = S_U16 then some .u16
  else if tag = S_U32 then some .u32 else if tag = S_U64 then some .u64
  else if tag = S_F32 then some .f32 else if tag = S_F64 then some .f64
  else if tag = S_TS_MS then some .tsMs else if tag = S_DURATION_MS then some .durationMs
  else none

/-! ## The decoder -/

section Nested

variable (dec : Bytes → Nat → PyResult (Symbol × Nat))

/-- One round of the loop over the items of a list. -/
def itemStep (_ : Nat) (items : List Symbol) (data : Bytes) (pos : Nat) :
    PyResult (List Symbol × Nat) := do
  let (item, pos) ← dec data pos
  pure (items ++ [item], pos)

/-- One round of the loop over the entries of a map. -/
def entryStep (_ : Nat) (result : List (Utf8String × Symbol)) (data : Bytes) (pos : Nat) :
    PyResult (List (Utf8String × Symbol) × Nat) := do
  let (key, pos) ← readString
    (fun klen pos => s!"operand MAP: truncated key (need {klen} at {pos})") data pos
  let (item, pos) ← dec data pos
  pure (Dict.set key item result, pos)

/-- The chain of {lit}`decode_symbol` after the tag byte, with {lit}`dec` for the
nested operands. -/
def decodeValue (tag : UInt8) (data : Bytes) (pos : Nat) : PyResult (Symbol × Nat) :=
  match fixedStruct tag with
  | some t =>
      readFixed t.width s!"operand 0x{hexLower 2 tag.toNat}: need {t.width} bytes" (.ofFixed t)
        data pos
  | none =>
      if tag = S_BOOL then readBool data pos
      else if tag = S_STRING ∨ tag = S_BYTES then do
        let message := fun length pos =>
          s!"operand 0x{hexLower 2 tag.toNat}: truncated (need {length} at {pos})"
        if tag = S_STRING then
          let (s, pos) ← readString message data pos
          pure (.string s, pos)
        else
          let (raw, pos) ← readCounted message data pos
          pure (.bytes raw, pos)
      else if tag = S_UUID then
        readFixed 16 "operand UUID: need 16 bytes" (.ofFixed .uuid) data pos
      else if tag = S_HANDLE then
        readFixed 8 "operand HANDLE: need 8 bytes" (.ofFixed .handle) data pos
      else if tag = S_REF then
        readFixed 2 "operand REF: need 2 bytes" (.ofFixed .ref) data pos
      else if tag = S_BUF_REF then
        readFixed 16 "operand BUF_REF: need 16 bytes" (.ofFixed .bufRef) data pos
      else if tag = S_LIST then do
        let (count, pos) ← decodeVarint data pos
        let (items, pos) ← Outcome.loop (itemStep dec) count 0 [] data pos
        pure (.list items, pos)
      else if tag = S_MAP then do
        let (count, pos) ← decodeVarint data pos
        let (result, pos) ← Outcome.loop (entryStep dec) count 0 [] data pos
        pure (.map result, pos)
      else if tag = S_NULL then pure (.null, pos)
      else if isVendor tag then do
        let (raw, pos) ← readCounted (fun length pos =>
          s!"vendor operand 0x{hexLower 2 tag.toNat}: truncated (need {length} at {pos})") data pos
        pure (.other tag raw, pos)
      else raise .symbolError s!"Unknown operand tag: 0x{hexLower 2 tag.toNat}"

end Nested

/-- The tag byte of an operand. -/
def readTag (data : Bytes) (pos : Nat) : PyResult (UInt8 × Nat) := do
  raiseIf (data.length ≤ pos) .symbolError "operand: no tag byte"
  let tag ← getItem data pos
  pure (tag, pos + 1)

/-- {lit}`decode_symbol`, as deep as the fuel reaches. -/
def decodeSymbolFuel : Nat → Bytes → Nat → PyResult (Symbol × Nat)
  | 0, _, _ => .panic
  | fuel + 1, data, pos => do
      let (tag, pos) ← readTag data pos
      decodeValue (decodeSymbolFuel fuel) tag data pos

/-- {lit}`decode_symbol`: every nested operand is shorter than the buffer. -/
def decodeSymbol (data : Bytes) (pos : Nat) : PyResult (Symbol × Nat) :=
  decodeSymbolFuel (data.length + 1) data pos

/-- A list of a bool and a null, followed by a byte that is left. -/
example : decodeSymbol [0x17, 0x02, 0x10, 0x01, 0x19, 0xFF] 0 =
    .ok (.list [.bool true, .null], 5) := by
  rfl

end Aicl.Bin
