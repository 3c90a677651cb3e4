import Aicl.Foundation.Outcome
import Aicl.Isa.Tags

/-!
# Exceptions of the Python package

The exception classes of {lit}`aicl/bin/exceptions.py`, the exceptions of the
interpreter that its functions let through, and the operations of the
interpreter that raise them: indexing, {lit}`struct` and {lit}`int`.  A function
returns or raises; the third outcome stands for a recursion that the model cuts
off, and is shown not to occur.

Main results:

- Theorem {lit}`packInt_eq_ok_iff`: {lit}`struct.pack` writes exactly the numbers
  of its range.
- Theorem {lit}`unpackInt_packed`: reading back a packed number.
-/

namespace Aicl.Bin

/-! ## Exceptions -/

/-- The exception classes of the package. -/
inductive AiclBinError where
  | headerError | tlvError | symbolError | encodeError | decodeError | checksumError
  | truncatedPacketError | invalidPacketError | versionMismatchError
deriving DecidableEq, Repr

/-- An exception: one of the package with its message, or one of the
interpreter. -/
inductive PyError where
  | bin (cls : AiclBinError) (message : String)
  | structError | unicodeDecodeError | indexError | overflowError
  | valueError (message : String)
deriving DecidableEq, Repr

/-- How a call ends. -/
abbrev PyResult (α : Type) := Outcome PyError α

/-- {lit}`raise cls(message)`. -/
def raise {α : Type} (cls : AiclBinError) (message : String) : PyResult α :=
  .err (.bin cls message)

/-- {lit}`if c: raise cls(message)`. -/
def raiseIf (c : Prop) [Decidable c] (cls : AiclBinError) (message : String) : PyResult Unit :=
  Outcome.failIf c (.bin cls message)

/-! ## Texts of numbers and bytes -/

/-- Lower-case hexadecimal digits, padded with zeros to a width. -/
def hexLower (width n : Nat) : String :=
  let digits := Nat.toDigits 16 n
  String.ofList (List.replicate (width - digits.length) '0' ++ digits)

/-- {lit}`repr` of a byte inside quotes. -/
def reprByte (quote b : UInt8) : String :=
  if b = quote ∨ b = 0x5C then String.ofList [Char.ofNat 0x5C, Char.ofNat b.toNat]
  else if b = 0x09 then "\\t"
  else if b = 0x0A then "\\n"
  else if b = 0x0D then "\\r"
  else if 0x20 ≤ b ∧ b < 0x7F then String.ofList [Char.ofNat b.toNat]
  else "\\x" ++ hexLower 2 b.toNat

/-- {lit}`repr` of a byte string: single quotes, unless it holds one and no
double quote. -/
def reprBytes (bs : Bytes) : String :=
  let quote : UInt8 := if 0x27 ∈ bs ∧ 0x22 ∉ bs then 0x22 else 0x27
  let mark := String.ofList [Char.ofNat quote.toNat]
  "b" ++ mark ++ String.join (bs.map (reprByte quote)) ++ mark

/-! ## Access to a buffer -/

/-- {lit}`data[i]` for an index that is not negative. -/
def getItem (data : Bytes) (i : Nat) : PyResult UInt8 :=
  match data[i]? with
  | some b => .ok b
  | none => .err .indexError

/-- {lit}`data[a:b]` for bounds that are not negative: cut off at the end. -/
def getSlice (data : Bytes) (a b : Nat) : Bytes :=
  (data.drop a).take (b - a)

/-- The bytes that {lit}`struct.unpack_from` reads at an offset. -/
def unpackFrom (w : Nat) (data : Bytes) (offset : Nat) : PyResult Bytes :=
  if offset + w ≤ data.length then .ok (getSlice data offset (offset + w)) else .err .structError

/-- An index inside the buffer. -/
theorem getItem_append_cons {pre post : Bytes} {b : UInt8} {i : Nat} (h : pre.length = i) :
    getItem (pre ++ b :: post) i = .ok b := by
  subst h
  simp [getItem]

/-- The slice between two parts of a concatenation. -/
theorem getSlice_append {pre mid post : Bytes} {a b : Nat} (ha : pre.length = a)
    (hb : a + mid.length = b) : getSlice (pre ++ (mid ++ post)) a b = mid := by
  subst ha hb
  simp [getSlice]

/-- Unpacking inside the buffer does not raise. -/
theorem unpackFrom_of_le {w offset : Nat} {data : Bytes} (h : offset + w ≤ data.length) :
    unpackFrom w data offset = .ok (getSlice data offset (offset + w)) :=
  if_pos h

/-! ## Packed numbers -/

/-- The numbers that {lit}`struct` keeps in {lit}`w` bytes, with or without a sign. -/
def InRange (signed : Bool) (w : Nat) (v : Int) : Prop :=
  if signed then -(256 ^ w / 2 : Nat) ≤ v ∧ v < (256 ^ w / 2 : Nat) else 0 ≤ v ∧ v < (256 ^ w : Nat)

instance (signed : Bool) (w : Nat) (v : Int) : Decidable (InRange signed w v) := by
  unfold InRange
  infer_instance

/-- {lit}`struct.pack` of one number, big-endian; negative ones in two's
complement. -/
def packInt (signed : Bool) (w : Nat) (v : Int) : PyResult Bytes :=
  if InRange signed w v then .ok (BigEndian.toBytes w (v % (256 ^ w : Nat)).toNat)
  else .err .structError

/-- {lit}`struct.unpack` of one big-endian number. -/
def unpackInt (signed : Bool) (bs : Bytes) : Int :=
  let n := BigEndian.ofBytes bs
  if signed ∧ 256 ^ bs.length / 2 ≤ n then (n : Int) - (256 ^ bs.length : Nat) else n

/-- {lit}`struct.pack` writes exactly the numbers of its range. -/
theorem packInt_eq_ok_iff {signed : Bool} {w : Nat} {v : Int} {bs : Bytes} :
    packInt signed w v = .ok bs ↔
      InRange signed w v ∧ bs = BigEndian.toBytes w (v % (256 ^ w : Nat)).toNat := by
  unfold packInt
  split
  next h => simp [h, eq_comm]
  next h => simp [h]

/-- A packed number takes its width. -/
theorem packInt_length {signed : Bool} {w : Nat} {v : Int} {bs : Bytes}
    (h : packInt signed w v = .ok bs) : bs.length = w := by
  obtain ⟨_, rfl⟩ := packInt_eq_ok_iff.mp h
  exact BigEndian.toBytes_length w _

/-- Half of the numbers of one byte or more are negative. -/
theorem two_mul_half {w : Nat} (hw : 0 < w) : 256 ^ w / 2 * 2 = 256 ^ w := by
  obtain ⟨k, rfl⟩ : ∃ k, w = k + 1 := ⟨w - 1, by omega⟩
  rw [Nat.pow_succ]
  omega

/-- Reading back a packed number. -/
theorem unpackInt_packed {signed : Bool} {w : Nat} (hw : 0 < w) {v : Int}
    (h : InRange signed w v) :
    unpackInt signed (BigEndian.toBytes w (v % (256 ^ w : Nat)).toNat) = v := by
  have hhalf := two_mul_half hw
  have hpos : 0 < 256 ^ w := Nat.pow_pos (by decide)
  unfold InRange at h
  unfold unpackInt
  rw [BigEndian.toBytes_length]
  generalize hm : 256 ^ w = m at *
  have hdigits : BigEndian.ofBytes (BigEndian.toBytes w (v % (m : Nat)).toNat) =
      (v % (m : Nat)).toNat := by
    apply BigEndian.ofBytes_toBytes
    rw [hm]
    have := Int.emod_lt_of_pos v (show (0 : Int) < m by omega)
    omega
  simp only [hdigits]
  cases signed with
  | true =>
      simp only [if_true] at h
      rcases Int.lt_or_le v 0 with hneg | hnonneg
      · have hmod : v % (m : Int) = v + m := by
          rw [← Int.add_emod_right, Int.emod_eq_of_lt (by omega) (by omega)]
        rw [hmod, if_pos ⟨rfl, by omega⟩]
        omega
      · rw [Int.emod_eq_of_lt hnonneg (by omega), if_neg (by omega)]
        omega
  | false =>
      simp only [Bool.false_eq_true, if_false, false_and] at h ⊢
      rw [Int.emod_eq_of_lt h.1 h.2]
      omega

end Aicl.Bin
