import Aicl.Bin.Exceptions
import Aicl.Foundation.Reader
import Aicl.Isa.Grammar

/-!
# Varints of the Python package

{lit}`encode_varint` and {lit}`decode_varint` of {lit}`aicl/bin/varint.py`, with
the unbounded integers of the language.

Main results:

- Theorem {lit}`decodeVarint_reads`: the decoder reads exactly the varints of the
  instruction set.
- Theorem {lit}`encodeVarint_length_varint`: a length below {lit}`2 ^ 28` is
  written as a varint.
-/

namespace Aicl.Bin

open Isa (Varint)
open Outcome (Reads)

/-! ## The decoder -/

/-- The loop of {lit}`decode_varint` at its {lit}`i`-th byte, with {lit}`k` rounds
left. -/
def decodeVarintLoop (data : Bytes) (pos : Nat) : (k i shift value : Nat) → PyResult (Nat × Nat)
  | 0, _, _, _ => raise .symbolError "varint > 4 bytes"
  | k + 1, i, shift, value => do
      raiseIf (data.length ≤ pos + i) .symbolError "varint truncated"
      let byte ← getItem data (pos + i)
      let value := value ||| ((byte.toNat &&& 0x7F) <<< shift)
      if byte.toNat &&& 0x80 = 0 then pure (value, pos + i + 1)
      else decodeVarintLoop data pos k (i + 1) (shift + 7) value

/-- {lit}`decode_varint`: the value and the position after it. -/
def decodeVarint (data : Bytes) (pos : Nat) : PyResult (Nat × Nat) :=
  decodeVarintLoop data pos 4 0 0 0

/-- What the operand decoder raises on bytes it does not accept. -/
def IsOperandError (e : PyError) : Prop :=
  (∃ message, e = .bin .symbolError message) ∨ e = .unicodeDecodeError

/-- A {lit}`SymbolError` is one of them. -/
@[simp] theorem isOperandError_symbolError (message : String) :
    IsOperandError (.bin .symbolError message) :=
  .inl ⟨message, rfl⟩

/-- The loop is the bounded reader of LEB128 numerals. -/
theorem decodeVarintLoop_spec (pre : Bytes) : ∀ (k : Nat) (mid rest : Bytes) (shift value : Nat),
    match Leb128.read k shift value rest with
    | some (n, len) => decodeVarintLoop (pre ++ (mid ++ rest)) pre.length k mid.length shift value =
        .ok (n, pre.length + mid.length + len)
    | none => ∃ e, decodeVarintLoop (pre ++ (mid ++ rest)) pre.length k mid.length shift value =
        .err e ∧ IsOperandError e
  | 0, _, _, _, _ => ⟨_, rfl, isOperandError_symbolError _⟩
  | k + 1, mid, [], shift, value => by
      have hend : (pre ++ (mid ++ [])).length ≤ pre.length + mid.length := by simp
      refine ⟨_, ?_, isOperandError_symbolError "varint truncated"⟩
      rw [decodeVarintLoop, raiseIf, Outcome.failIf, if_pos hend]
      rfl
  | k + 1, mid, byte :: rest, shift, value => by
      have hlen : ¬ (pre ++ (mid ++ byte :: rest)).length ≤ pre.length + mid.length := by
        simp only [List.length_append, List.length_cons]
        omega
      have hget : getItem (pre ++ (mid ++ byte :: rest)) (pre.length + mid.length) = .ok byte := by
        rw [← List.append_assoc]
        exact getItem_append_cons (by simp)
      simp only [Leb128.read, decodeVarintLoop, raiseIf, Outcome.failIf_of_not hlen, hget,
        Outcome.ok_bind]
      by_cases hlast : byte.toNat &&& 0x80 = 0
      · simp only [if_pos hlast]
        rfl
      · simp only [if_neg hlast]
        have hrec := decodeVarintLoop_spec pre k (mid ++ [byte]) rest (shift + 7)
          (value ||| ((byte.toNat &&& 0x7F) <<< shift))
        simp only [List.append_assoc, List.singleton_append, List.length_append,
          List.length_singleton] at hrec
        split at hrec
        next n len hread =>
          simp only [hread, Option.map_some]
          rw [hrec]
          congr 2
          omega
        next hread =>
          simp only [hread, Option.map_none]
          exact hrec

/-- The decoder reads exactly the varints of the instruction set. -/
theorem decodeVarint_reads {L : Nat} : Reads L decodeVarint Varint IsOperandError where
  sound pre rest _ := by
    have hspec := decodeVarintLoop_spec pre 4 [] rest 0 0
    split at hspec
    next n len hread =>
      obtain ⟨bs, post, rfl, hn, rfl, hk⟩ := Leb128.read_eq_some_iff.mp hread
      have heq : decodeVarint (pre ++ (bs ++ post)) pre.length =
          .ok (n, pre.length + bs.length) := hspec
      rw [heq]
      exact ⟨bs, post, rfl, ⟨hn, hk⟩, rfl⟩
    next hread =>
      obtain ⟨e, heq, he⟩ := hspec
      have heq' : decodeVarint (pre ++ rest) pre.length = .err e := heq
      rw [heq']
      exact he
  complete := by
    intro n bs h pre post _
    have hspec := decodeVarintLoop_spec pre 4 [] (bs ++ post) 0 0
    rw [h.read_append post] at hspec
    exact hspec

/-! ## The encoder -/

/-- The loop of {lit}`encode_varint`, with {lit}`k` rounds left. -/
def encodeVarintLoop : (k value : Nat) → Bytes
  | 0, _ => []
  | k + 1, value =>
      let more := 0x7F < value
      UInt8.ofNat ((value &&& 0x7F) ||| (if more then 0x80 else 0)) ::
        if more then encodeVarintLoop k (value >>> 7) else []

/-- {lit}`encode_varint`. -/
def encodeVarint (value : Int) : PyResult Bytes := do
  raiseIf (value < 0) .symbolError s!"varint value must be non-negative, got {value}"
  pure (encodeVarintLoop 4 value.toNat)

/-- The continuation bit is above the payload. -/
theorem low_or_high (n : Nat) : (n &&& 0x7F) ||| 0x80 = n % 128 + 128 := by
  have hlt : n % 128 < 2 ^ 7 := Nat.mod_lt _ (by decide)
  rw [Leb128.and_low]
  exact Leb128.or_shiftLeft (x := 1) hlt

/-- The loop writes the shortest numeral. -/
theorem encodeVarintLoop_eq (k value : Nat) : encodeVarintLoop k value = Leb128.emit k value := by
  induction k generalizing value with
  | zero => rfl
  | succ k ih =>
      have hshift : value >>> 7 = value / 128 := Nat.shiftRight_eq_div_pow value 7
      simp only [encodeVarintLoop, Leb128.emit, ih, hshift]
      split
      next hbig => rw [low_or_high]
      next hsmall =>
        have hlow : value &&& 0x7F = value := by
          rw [Leb128.and_low]
          omega
        rw [hlow, Nat.or_zero]

/-- A length is written as its shortest numeral. -/
theorem encodeVarint_length (n : Nat) : encodeVarint n = .ok (Leb128.emit 4 n) := by
  have hnonneg : ¬ (n : Int) < 0 := by omega
  unfold encodeVarint raiseIf
  rw [Outcome.failIf_of_not hnonneg, Outcome.ok_bind, Int.toNat_natCast, encodeVarintLoop_eq]
  rfl

/-- A length below {lit}`2 ^ 28` is written as a varint. -/
theorem encodeVarint_length_varint {n : Nat} (h : n < 2 ^ 28) : Varint n (Leb128.emit 4 n) :=
  ⟨Leb128.emit_spec (by decide) h, Leb128.emit_length_le_bound 4 n⟩

end Aicl.Bin
