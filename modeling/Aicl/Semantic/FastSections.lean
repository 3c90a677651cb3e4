import Aicl.Bin.Encode
import Aicl.Foundation.Truncation
import Aicl.Semantic.Adapter

/-!
# Sections of the fast codecs

What {lit}`aicl/semantic/fast_codec.py` and {lit}`aicl/semantic/fast_action_codec.py`
share: strings and JSON with two bytes of length in front, a masked deadline, a
confidence in thousandths, and the action that a decoder returns.  The two files define
the functions for strings and JSON in the same words.

Main results:

- Theorem {lit}`decodeStr16_readsBack`: a string is read back.
- Theorem {lit}`decodeJsonSmall_readsBack`: a dictionary is read back.
- Theorem {lit}`decodeJsonSmall_detectsCut`: a dictionary that is cut off is reported.
-/

namespace Aicl.Semantic

open Bin (getSlice unpackFrom decodeUtf8 pack fmtH)
open Outcome (Remains ReadsBack ReadsThrough CutOff DetectsCut OverrunsCut StartsInside Raises)

/-! ## The standard library -/

/-- What the fast codecs use besides: {lit}`json.dumps` with compact separators and
{lit}`ensure_ascii=False`, {lit}`json.loads` of bytes (nothing for an exception), and
{lit}`int(value * 1000)` and {lit}`n / 1000.0` of floats. -/
structure FastLibrary extends Library where
  dumpsUtf8 : Value → SemResult Utf8String
  loadsBytes : Bytes → Option Value
  toThousandths : UInt64 → SemResult Int
  ofThousandths : Nat → UInt64

mutual

/-- A value that JSON can express without floats; keys are texts, none occurs twice. -/
def Value.IsJson : Value → Prop
  | .null => True
  | .bool _ => True
  | .int _ => True
  | .float _ => False
  | .str _ => True
  | .list items => ItemsAreJson items
  | .dict entries => (entries.map Prod.fst).Nodup ∧ EntriesAreJson entries
  | .object _ _ => False

/-- The items of such a list. -/
def ItemsAreJson : List Value → Prop
  | [] => True
  | item :: items => item.IsJson ∧ ItemsAreJson items

/-- The entries of such a dictionary. -/
def EntriesAreJson : List (Value × Value) → Prop
  | [] => True
  | (key, value) :: entries =>
      (∃ text, key = .str text) ∧ value.IsJson ∧ EntriesAreJson entries

end

/-- The four dictionaries of an action are JSON objects without floats. -/
structure ModelAction.IsJson (action : ModelAction) : Prop where
  inputs : (Value.ofEntries action.inputs).IsJson
  params : (Value.ofEntries action.params).IsJson
  result : (Value.ofEntries action.result).IsJson
  metadata : (Value.ofEntries action.metadata).IsJson

/-- {lit}`json.loads` inverts {lit}`json.dumps` on JSON objects without floats; the text
of an object is not empty. -/
def FastLibrary.InvertsJson (lib : FastLibrary) : Prop :=
  ∀ (entries : Entries) (text : Utf8String), (Value.ofEntries entries).IsJson →
    lib.dumpsUtf8 (.ofEntries entries) = .ok text →
      text.length ≠ 0 ∧ lib.loadsBytes text.bytes = some (.ofEntries entries)

/-- {lit}`json.loads` rejects the text of an object that is cut off. -/
def FastLibrary.RejectsCuts (lib : FastLibrary) : Prop :=
  ∀ (entries : Entries) (text : Utf8String), lib.dumpsUtf8 (.ofEntries entries) = .ok text →
    ∀ c, CutOff c text.bytes → lib.loadsBytes c = none

/-! ## Fields -/

/-- The bytes of an unpacked field, with the position after it. -/
def readField (w : Nat) (data : Bytes) (pos : Nat) : SemResult (Bytes × Nat) := do
  let raw ← liftBin (unpackFrom w data pos)
  pure (raw, pos + w)

/-- {lit}`pos += n`. -/
def skip (n : Nat) (_ : Bytes) (pos : Nat) : SemResult (Unit × Nat) := pure ((), pos + n)

/-- {lit}`struct.unpack_from` of one number that a field spells, with the position after
it. -/
def readNumber (value : Bytes → Nat) (w : Nat) (data : Bytes) (pos : Nat) :
    SemResult (Nat × Nat) := do
  let (raw, pos) ← readField w data pos
  pure (value raw, pos)

/-- An unsigned big-endian number. -/
abbrev readWord (w : Nat) : Bytes → Nat → SemResult (Nat × Nat) := readNumber BigEndian.ofBytes w

/-! ## Strings -/

/-- {lit}`_encode_str16`. -/
def encodeStr16 (value : Utf8String) : SemResult Bytes := do
  let len ← liftBin (pack [(fmtH, value.length)])
  pure (len ++ value.bytes)

/-- {lit}`_decode_str16`. -/
def decodeStr16 (data : Bytes) (pos : Nat) : SemResult (Utf8String × Nat) := do
  let (length, pos) ← readWord 2 data pos
  let text ← liftBin (decodeUtf8 (getSlice data pos (pos + length)))
  pure (text, pos + length)

/-! ## JSON -/

/-- {lit}`_encode_json_small` of a dictionary. -/
def encodeJsonSmall (lib : FastLibrary) (entries : Entries) : SemResult Bytes :=
  if entries.isEmpty then pure [0, 0]
  else do
    let text ← lib.dumpsUtf8 (.ofEntries entries)
    let len ← liftBin (pack [(fmtH, text.length)])
    pure (len ++ text.bytes)

/-- {lit}`_decode_json_small`. -/
def decodeJsonSmall (lib : FastLibrary) (data : Bytes) (pos : Nat) : SemResult (Value × Nat) := do
  let (length, pos) ← readWord 2 data pos
  if length = 0 then pure (.dict [], pos)
  else
    match lib.loadsBytes (getSlice data pos (pos + length)) with
    | some value => pure (value, pos + length)
    | none => .err (.builtin "ValueError")

/-- A section that is written only when its dictionary is not empty. -/
def encodeJsonSection (lib : FastLibrary) (entries : Entries) : SemResult Bytes :=
  if entries.isEmpty then pure [] else encodeJsonSmall lib entries

/-- A section that is read only when its flag is set. -/
def decodeJsonSection (lib : FastLibrary) (flag : Bool) (data : Bytes) (pos : Nat) :
    SemResult (Value × Nat) :=
  if flag then decodeJsonSmall lib data pos else pure (.dict [], pos)

/-! ## Numbers -/

/-- {lit}`deadline_ms & 0xFFFFFFFF`. -/
def maskDeadline (deadlineMs : Int) : Nat := (deadlineMs % 2 ^ 32).toNat

/-- A deadline survives the mask when it fits four bytes. -/
theorem maskDeadline_eq_iff {deadlineMs : Int} (h : 0 ≤ deadlineMs) :
    (maskDeadline deadlineMs : Int) = deadlineMs ↔ deadlineMs < 2 ^ 32 := by
  unfold maskDeadline
  omega

/-- {lit}`min(int(confidence * 1000), 65535)`. -/
def confidenceInt (lib : FastLibrary) (confidence : UInt64) : SemResult Int := do
  let n ← lib.toThousandths confidence
  pure (min n 65535)

/-! ## Decoded actions -/

/-- The action that a decoder returns; its dictionaries are what {lit}`json.loads`
made of their bytes. -/
structure DecodedAction where
  intent : ModelIntent
  target : Utf8String
  inputs : Value
  params : Value
  result : Value
  confidence : UInt64
  stream : Bool
  cancel : Bool
  correlationId : Utf8String
  deadlineMs : Nat
  metadata : Value

/-- A decoded action has the fields of an action, apart from the confidence and the
correlation identifier. -/
structure DecodedAction.SameFields (action : ModelAction) (decoded : DecodedAction) : Prop where
  intent : decoded.intent = action.intent
  target : decoded.target = action.target
  inputs : decoded.inputs = .ofEntries action.inputs
  params : decoded.params = .ofEntries action.params
  result : decoded.result = .ofEntries action.result
  stream : decoded.stream = action.stream
  cancel : decoded.cancel = action.cancel
  deadlineMs : (decoded.deadlineMs : Int) = action.deadlineMs
  metadata : decoded.metadata = .ofEntries action.metadata

/-! ## Reading fields -/

section Fields

variable {data b c rest : Bytes} {pos w n : Nat}

/-- A slice of what remains. -/
theorem getSlice_of_remains (h : Remains data pos (b ++ rest)) :
    getSlice data pos (pos + b.length) = b := by
  rw [getSlice, h.drop, Nat.add_sub_cancel_left, List.take_left]

/-- A slice that reaches the end. -/
theorem getSlice_of_remains_le (h : Remains data pos c) (hn : c.length ≤ n) :
    getSlice data pos (pos + n) = c := by
  rw [getSlice, h.drop, Nat.add_sub_cancel_left, List.take_of_length_le hn]

/-- A field is read back. -/
theorem readField_readsBack (hb : b.length = w) : ReadsBack (readField w) b b := by
  intro data pos rest h
  have hlen := h.length
  rw [List.length_append] at hlen
  unfold readField
  subst hb
  rw [Bin.unpackFrom_of_le (by omega), getSlice_of_remains h]
  rfl

/-- A field that does not end inside the buffer is not read. -/
theorem readField_raises (h : data.length < pos + w) : Raises (readField w data pos) := by
  unfold readField unpackFrom
  rw [if_neg (Nat.not_le_of_lt h)]
  trivial

/-- A field that is cut off is reported. -/
theorem readField_detectsCut (hb : b.length = w) : DetectsCut (readField w) b := by
  intro data pos c hat hc
  have hlen := hat.length
  have hlt := hc.length_lt
  exact readField_raises (by omega)

/-- A field starts inside the buffer. -/
theorem readField_startsInside (w : Nat) : StartsInside (readField w) :=
  fun _ _ h => readField_raises (by omega)

/-- Skipping is reading back nothing. -/
theorem skip_readsBack (hb : b.length = n) : ReadsBack (skip n) () b := by
  intro data pos rest _
  rw [hb]
  rfl

/-- Skipping passes over a cut. -/
theorem skip_overrunsCut (hb : b.length = n) : OverrunsCut (skip n) b := by
  intro data pos c hat hc
  have hlen := hat.length
  have hlt := hc.length_lt
  show data.length < pos + n
  omega

/-- A packed number is not negative, and its bytes spell it. -/
theorem packWord_eq_ok {v : Int} (h : liftBin (pack [((false, w), v)]) = .ok b) :
    b.length = w ∧ (BigEndian.ofBytes b : Int) = v := by
  have ⟨raw, hraw, hb⟩ := Outcome.bind_eq_ok_iff.mp (liftBin_eq_ok_iff.mp h)
  cases hb
  have ⟨m, hm, hlt, hbytes⟩ := Bin.packInt_unsigned hraw
  rw [List.append_nil, Bin.packInt_length hraw, hbytes, BigEndian.ofBytes_toBytes hlt]
  exact ⟨rfl, hm.symm⟩

/-- A number is read back from its bytes. -/
theorem readNumber_readsBack (value : Bytes → Nat) (hb : b.length = w) :
    ReadsBack (readNumber value w) (value b) b := by
  intro data pos rest hat
  unfold readNumber
  rw [(readField_readsBack hb).step hat]
  rfl

/-- A number that is cut off is reported. -/
theorem readNumber_detectsCut (value : Bytes → Nat) (hb : b.length = w) :
    DetectsCut (readNumber value w) b :=
  fun data pos c hat hc => (readField_detectsCut hb data pos c hat hc).bind

/-- A number starts inside the buffer. -/
theorem readNumber_startsInside (value : Bytes → Nat) (w : Nat) : StartsInside (readNumber value w) :=
  fun data pos h => (readField_startsInside w data pos h).bind

/-- A packed number is read back. -/
theorem readWord_readsBack_packed (h : liftBin (pack [((false, w), (n : Int))]) = .ok b) :
    ReadsBack (readWord w) n b := by
  have ⟨hlength, hvalue⟩ := packWord_eq_ok h
  rw [← Int.ofNat_inj.mp hvalue]
  exact readNumber_readsBack _ hlength

end Fields

/-! ## Reading strings -/

section Strings

variable {s : Utf8String} {b : Bytes}

/-- Decoding a text returns or raises. -/
theorem liftBin_decodeUtf8_sat (data : Bytes) :
    (liftBin (decodeUtf8 data)).Sat (fun _ => True) fun _ => True := by
  unfold decodeUtf8
  split <;> trivial

/-- The section of a string. -/
theorem encodeStr16_eq_ok (h : encodeStr16 s = .ok b) :
    ∃ len, liftBin (pack [(fmtH, (s.length : Int))]) = .ok len ∧ b = len ++ s.bytes := by
  have ⟨len, hlen, h⟩ := Outcome.bind_eq_ok_iff.mp h
  cases h
  exact ⟨len, hlen, rfl⟩

/-- A string is read back. -/
theorem decodeStr16_readsBack (h : encodeStr16 s = .ok b) : ReadsBack decodeStr16 s b := by
  have ⟨len, hlen, hb⟩ := encodeStr16_eq_ok h
  have htext : decodeUtf8 s.bytes = .ok s := Bin.decodeUtf8_eq_ok_iff.mpr rfl
  intro data pos rest hat
  rw [hb, List.append_assoc] at hat
  have hslice := getSlice_of_remains hat.advance
  unfold decodeStr16
  rw [(readWord_readsBack_packed hlen).step hat]
  dsimp only
  rw [Utf8String.length, hslice, htext, hb, List.length_append, Nat.add_assoc]
  rfl

/-- A string that is cut off is reported or passed over. -/
theorem decodeStr16_overrunsCut (h : encodeStr16 s = .ok b) : OverrunsCut decodeStr16 b := by
  have ⟨len, hlen, hb⟩ := encodeStr16_eq_ok h
  intro data pos c hat hc
  rw [hb] at hc
  unfold decodeStr16
  rcases hc.append with hcut | ⟨c', hc', hcut⟩
  · have hraises :=
      readNumber_detectsCut BigEndian.ofBytes (packWord_eq_ok hlen).1 data pos c hat hcut
    exact hraises.bind.mono (fun _ hfalse => hfalse.elim) fun _ he => he
  · rw [hc'] at hat
    rw [(readWord_readsBack_packed hlen).step hat]
    have hrest := hat.advance.length
    have hlt := hcut.length_lt
    dsimp only
    refine Outcome.Sat.bind (liftBin_decodeUtf8_sat _) ?_
    intro text _
    show data.length < pos + len.length + s.length
    rw [Utf8String.length]
    omega

/-- A string starts inside the buffer. -/
theorem decodeStr16_startsInside : StartsInside decodeStr16 :=
  fun data pos h => (readNumber_startsInside _ 2 data pos h).bind

end Strings

/-! ## Reading JSON -/

section Json

variable {lib : FastLibrary} {entries : Entries} {b : Bytes}

/-- The section of an empty dictionary has length zero. -/
theorem packLength_zero : liftBin (pack [(fmtH, ((0 : Nat) : Int))]) = .ok [0, 0] := rfl

/-- The section of a dictionary. -/
theorem encodeJsonSmall_eq_ok (h : encodeJsonSmall lib entries = .ok b) :
    (entries = [] ∧ b = [0, 0]) ∨
      ∃ text len, lib.dumpsUtf8 (.ofEntries entries) = .ok text ∧
        liftBin (pack [(fmtH, (text.length : Int))]) = .ok len ∧ b = len ++ text.bytes := by
  unfold encodeJsonSmall at h
  split at h
  next hempty =>
    cases h
    exact .inl ⟨List.isEmpty_iff.mp hempty, rfl⟩
  next =>
    have ⟨text, htext, h⟩ := Outcome.bind_eq_ok_iff.mp h
    have ⟨len, hlen, h⟩ := Outcome.bind_eq_ok_iff.mp h
    cases h
    exact .inr ⟨text, len, htext, hlen, rfl⟩

/-- Reading a length, and the text after it. -/
theorem decodeJsonSmall_of_length {data rest len : Bytes} {pos n : Nat}
    (hlen : liftBin (pack [(fmtH, (n : Int))]) = .ok len) (hat : Remains data pos (len ++ rest)) :
    decodeJsonSmall lib data pos =
      if n = 0 then pure (.dict [], pos + len.length)
      else
        match lib.loadsBytes (getSlice data (pos + len.length) (pos + len.length + n)) with
        | some value => pure (value, pos + len.length + n)
        | none => .err (.builtin "ValueError") := by
  unfold decodeJsonSmall
  rw [(readWord_readsBack_packed hlen).step hat]

/-- A dictionary is read back. -/
theorem decodeJsonSmall_readsBack (hlib : lib.InvertsJson) (hjson : (Value.ofEntries entries).IsJson)
    (h : encodeJsonSmall lib entries = .ok b) :
    ReadsBack (decodeJsonSmall lib) (.ofEntries entries) b := by
  intro data pos rest hat
  rcases encodeJsonSmall_eq_ok h with ⟨hempty, hb⟩ | ⟨text, len, htext, hlen, hb⟩
  · rw [hb] at hat
    rw [decodeJsonSmall_of_length packLength_zero hat, if_pos rfl, hempty, hb]
    rfl
  · have ⟨hne, hloads⟩ := hlib entries text hjson htext
    rw [hb, List.append_assoc] at hat
    have hslice := getSlice_of_remains hat.advance
    rw [decodeJsonSmall_of_length hlen hat, if_neg hne, Utf8String.length, hslice, hloads, hb,
      List.length_append, Nat.add_assoc]
    rfl

/-- A dictionary is read through. -/
theorem decodeJsonSmall_readsThrough (h : encodeJsonSmall lib entries = .ok b) :
    ReadsThrough (decodeJsonSmall lib) (fun _ => True) b := by
  intro data pos rest hat
  rcases encodeJsonSmall_eq_ok h with ⟨hempty, hb⟩ | ⟨text, len, htext, hlen, hb⟩
  · rw [hb] at hat
    rw [decodeJsonSmall_of_length packLength_zero hat, if_pos rfl, hb]
    exact ⟨trivial, rfl⟩
  · rw [hb, List.append_assoc] at hat
    rw [decodeJsonSmall_of_length hlen hat, hb, List.length_append, ← Nat.add_assoc]
    split
    next hzero => exact ⟨trivial, by rw [← Utf8String.length, hzero, Nat.add_zero]⟩
    next =>
      split
      · exact ⟨trivial, rfl⟩
      · trivial

/-- A dictionary that is cut off is reported. -/
theorem decodeJsonSmall_detectsCut (hlib : lib.RejectsCuts) (h : encodeJsonSmall lib entries = .ok b) :
    DetectsCut (decodeJsonSmall lib) b := by
  intro data pos c hat hc
  rcases encodeJsonSmall_eq_ok h with ⟨hempty, hb⟩ | ⟨text, len, htext, hlen, hb⟩
  · rw [hb] at hc
    exact (readNumber_detectsCut _ rfl data pos c hat hc).bind
  · rw [hb] at hc
    rcases hc.append with hcut | ⟨c', hc', hcut⟩
    · exact (readNumber_detectsCut _ (packWord_eq_ok hlen).1 data pos c hat hcut).bind
    · rw [hc'] at hat
      have hlt := hcut.length_lt
      have hslice : getSlice data (pos + len.length) (pos + len.length + text.length) = c' :=
        getSlice_of_remains_le hat.advance hlt.le
      have hne : text.length ≠ 0 := Nat.ne_of_gt (Nat.zero_lt_of_lt hlt)
      rw [decodeJsonSmall_of_length hlen hat, if_neg hne, hslice, hlib entries text htext c' hcut]
      trivial

/-- A dictionary starts inside the buffer. -/
theorem decodeJsonSmall_startsInside (lib : FastLibrary) : StartsInside (decodeJsonSmall lib) :=
  fun data pos h => (readNumber_startsInside _ 2 data pos h).bind

end Json

/-! ## Sections with a flag -/

section Flags

variable {lib : FastLibrary} {entries : Entries} {b : Bytes}

/-- The section of a dictionary is empty, or that of the dictionary. -/
theorem encodeJsonSection_eq_ok (h : encodeJsonSection lib entries = .ok b) :
    (entries = [] ∧ b = []) ∨ (entries ≠ [] ∧ encodeJsonSmall lib entries = .ok b) := by
  unfold encodeJsonSection at h
  split at h
  next hempty =>
    cases h
    exact .inl ⟨List.isEmpty_iff.mp hempty, rfl⟩
  next hne => exact .inr ⟨by simpa using hne, h⟩

/-- The flag of a dictionary that is not empty. -/
theorem decodeJsonSection_of_ne_nil (h : entries ≠ []) :
    decodeJsonSection lib (!entries.isEmpty) = decodeJsonSmall lib := by
  have hflag : (!entries.isEmpty) = true := by simpa using h
  rw [hflag]
  rfl

/-- A section is read back when its flag says whether it is there. -/
theorem decodeJsonSection_readsBack (hlib : lib.InvertsJson)
    (hjson : (Value.ofEntries entries).IsJson) (h : encodeJsonSection lib entries = .ok b) :
    ReadsBack (decodeJsonSection lib (!entries.isEmpty)) (.ofEntries entries) b := by
  rcases encodeJsonSection_eq_ok h with ⟨hempty, hb⟩ | ⟨hne, h⟩
  · subst hempty hb
    exact fun _ _ _ _ => rfl
  · rw [decodeJsonSection_of_ne_nil hne]
    exact decodeJsonSmall_readsBack hlib hjson h

/-- A section is read through. -/
theorem decodeJsonSection_readsThrough (h : encodeJsonSection lib entries = .ok b) :
    ReadsThrough (decodeJsonSection lib (!entries.isEmpty)) (fun _ => True) b := by
  rcases encodeJsonSection_eq_ok h with ⟨hempty, hb⟩ | ⟨hne, h⟩
  · subst hempty hb
    exact fun _ _ _ _ => ⟨trivial, rfl⟩
  · rw [decodeJsonSection_of_ne_nil hne]
    exact decodeJsonSmall_readsThrough h

/-- A section that is cut off is reported. -/
theorem decodeJsonSection_detectsCut (hlib : lib.RejectsCuts)
    (h : encodeJsonSection lib entries = .ok b) :
    DetectsCut (decodeJsonSection lib (!entries.isEmpty)) b := by
  rcases encodeJsonSection_eq_ok h with ⟨hempty, hb⟩ | ⟨hne, h⟩
  · rw [hb]
    exact DetectsCut.nil
  · rw [decodeJsonSection_of_ne_nil hne]
    exact decodeJsonSmall_detectsCut hlib h

end Flags

end Aicl.Semantic
