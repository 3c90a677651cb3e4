import Aicl.CoreRust.Error
import Aicl.Isa.Grammar

/-!
# Varints of the Rust core

{lit}`encode_varint` and {lit}`decode_varint` of {lit}`core-rust/src/codec.rs`,
with the 32-bit arithmetic of their loops.

Main results:

- Theorem {lit}`decodeVarint_append`: the decoder reads every varint of the
  instruction set, whatever follows it.
- Theorem {lit}`decodeVarint_sat`: it reads nothing else, and does not panic.
- Theorem {lit}`encodeLen_varint`: a length below {lit}`2 ^ 28` is written as a
  varint.
-/

namespace Aicl.CoreRust

open Isa (Varint)

/-! ## The decoder -/

/-- The loop of {lit}`decode_varint`, at byte {lit}`i`. -/
def decodeVarintLoop : (i : Nat) → (shift value : UInt32) → Bytes → AiclResult (UInt32 × Nat)
  | _, _, _, [] => .err (.new .truncated "varint truncated")
  | i, shift, value, byte :: data =>
      if 4 ≤ i then .err (.new .varintOverflow "varint > 4 bytes")
      else
        let value := value ||| ((byte &&& 0x7F).toUInt32 <<< shift)
        if byte &&& 0x80 = 0 then .ok (value, i + 1)
        else decodeVarintLoop (i + 1) (shift + 7) value data

/-- {lit}`decode_varint`: the value and the number of bytes read. -/
def decodeVarint (data : Bytes) : AiclResult (UInt32 × Nat) :=
  decodeVarintLoop 0 0 0 data

/-- How {lit}`decode_varint` reports a numeral it does not accept. -/
def IsVarintError (e : AiclError) : Prop :=
  e.code = .truncated ∨ e.code = .varintOverflow

/-- The test of the continuation bit, on numbers. -/
theorem byte_and_high_eq_zero_iff (b : UInt8) : b &&& 0x80 = 0 ↔ b.toNat &&& 0x80 = 0 := by
  rw [← UInt8.toNat_inj, UInt8.toNat_and]
  rfl

/-- One round of the loop loses no bits below the fourth payload. -/
theorem payload_toNat (b : UInt8) (value : UInt32) {shift : Nat} (hshift : shift ≤ 21) :
    (value ||| ((b &&& 0x7F).toUInt32 <<< (UInt32.ofNat shift))).toNat =
      value.toNat ||| ((b.toNat &&& 0x7F) <<< shift) := by
  have hlow : (b.toNat &&& 0x7F) < 2 ^ 7 := by
    rw [Leb128.and_low]
    exact Nat.mod_lt _ (by decide)
  have hbound : (b.toNat &&& 0x7F) <<< shift < 2 ^ 32 := by
    rw [Nat.shiftLeft_eq]
    calc (b.toNat &&& 0x7F) * 2 ^ shift < 2 ^ 7 * 2 ^ shift :=
          Nat.mul_lt_mul_of_pos_right hlow (Nat.pow_pos (by decide))
      _ = 2 ^ (7 + shift) := (Nat.pow_add 2 7 shift).symm
      _ ≤ 2 ^ 32 := Nat.pow_le_pow_right (by decide) (by omega)
  have hmod : shift % 2 ^ 32 % 32 = shift := by omega
  rw [UInt32.toNat_or, UInt32.toNat_shiftLeft, UInt32.toNat_ofNat', hmod, UInt8.toNat_toUInt32,
    UInt8.toNat_and]
  exact congrArg _ (Nat.mod_eq_of_lt hbound)

/-- The loop is the bounded reader of LEB128 numerals. -/
theorem decodeVarintLoop_spec : ∀ (data : Bytes) {k i : Nat} {value : UInt32}, i + k = 4 →
    value.toNat < 2 ^ (7 * i) →
    match Leb128.read k (7 * i) value.toNat data with
    | some (n, len) => decodeVarintLoop i (UInt32.ofNat (7 * i)) value data =
        .ok (UInt32.ofNat n, i + len)
    | none => ∃ e, decodeVarintLoop i (UInt32.ofNat (7 * i)) value data = .err e ∧
        IsVarintError e
  | [], k, i, value, _, _ => by
      have hread : Leb128.read k (7 * i) value.toNat [] = none := by cases k <;> rfl
      rw [hread]
      exact ⟨_, rfl, .inl rfl⟩
  | b :: data, 0, i, value, hi, _ => by
      obtain rfl : i = 4 := by omega
      exact ⟨_, rfl, .inr rfl⟩
  | b :: data, k + 1, i, value, hi, hvalue => by
      have hi4 : ¬ 4 ≤ i := by omega
      have hround := @payload_toNat b value (7 * i) (by omega)
      have hshift : UInt32.ofNat (7 * i) + 7 = UInt32.ofNat (7 * (i + 1)) := by
        rw [Nat.mul_add, UInt32.ofNat_add]
        rfl
      simp only [Leb128.read, decodeVarintLoop, if_neg hi4, byte_and_high_eq_zero_iff]
      by_cases hlast : b.toNat &&& 0x80 = 0
      · simp only [if_pos hlast]
        rw [← hround, UInt32.ofNat_toNat]
      · simp only [if_neg hlast, hshift]
        have hacc := Leb128.acc_lt b hvalue
        rw [← hround] at hacc ⊢
        have hrec := decodeVarintLoop_spec data (k := k) (i := i + 1) (by omega) hacc
        rw [Nat.mul_add] at hrec ⊢
        split at hrec
        next n len hread =>
          simp only [hread, Option.map_some]
          rw [hrec, Nat.add_right_comm, Nat.add_assoc]
        next hread =>
          simp only [hread, Option.map_none]
          exact hrec

/-- The decoder reads a varint of the instruction set, whatever follows it. -/
theorem decodeVarint_append {n : Nat} {bs : Bytes} (h : Varint n bs) (post : Bytes) :
    decodeVarint (bs ++ post) = .ok (UInt32.ofNat n, bs.length) := by
  have hspec := @decodeVarintLoop_spec (bs ++ post) 4 0 0 rfl (by decide)
  simp only [Nat.mul_zero, UInt32.toNat_zero, h.read_append post] at hspec
  rw [Nat.zero_add] at hspec
  exact hspec

/-- What the decoder reads is a varint of the instruction set; it does not panic. -/
theorem decodeVarint_sat (data : Bytes) :
    (decodeVarint data).Sat
      (fun r => ∃ bs post, data = bs ++ post ∧ Varint r.1.toNat bs ∧ bs.length = r.2)
      IsVarintError := by
  have hspec := @decodeVarintLoop_spec data 4 0 0 rfl (by decide)
  simp only [Nat.mul_zero, UInt32.toNat_zero] at hspec
  split at hspec
  next n len hread =>
    obtain ⟨bs, post, rfl, hn, rfl, hk⟩ := Leb128.read_eq_some_iff.mp hread
    have hv : Varint n bs := ⟨hn, hk⟩
    rw [decodeVarint_append hv]
    refine ⟨bs, post, rfl, ?_, rfl⟩
    rwa [hv.toNat_ofNat]
  next hread =>
    obtain ⟨e, heq, he⟩ := hspec
    have heq' : decodeVarint data = .err e := heq
    rw [heq']
    exact he

/-- A varint at the front of the data is what the decoder reads there. -/
theorem decodeVarint_eq_ok_iff {data : Bytes} {v : UInt32} {len : Nat} :
    decodeVarint data = .ok (v, len) ↔
      ∃ bs post, data = bs ++ post ∧ Varint v.toNat bs ∧ bs.length = len := by
  constructor
  · exact (decodeVarint_sat data).of_eq_ok
  · rintro ⟨bs, post, rfl, hv, rfl⟩
    rw [decodeVarint_append hv, UInt32.ofNat_toNat]

/-! ## The encoder -/

/-- The loop of {lit}`encode_varint`, with {lit}`room` places left in its buffer. -/
def encodeVarintLoop : (room : Nat) → (value : UInt32) → Bytes
  | 0, _ => []
  | room + 1, value =>
      let more := 0x7F < value
      ((value.toUInt8 &&& 0x7F) ||| (if more then 0x80 else 0)) ::
        if more then encodeVarintLoop room (value >>> 7) else []

/-- {lit}`encode_varint`: the bytes appended to the output. -/
def encodeVarint (value : UInt32) : Bytes :=
  encodeVarintLoop 4 value

/-- A length or a count, written as the source casts it: {lit}`len() as u32`. -/
def encodeLen (n : Nat) : Bytes :=
  encodeVarint (UInt32.ofNat n)

/-- The byte of a round that more bytes follow. -/
theorem low_or_high (b : UInt8) : (b &&& 0x7F) ||| 0x80 = UInt8.ofNat (b.toNat % 128 + 128) :=
  UInt8.forall_of_fin (p := fun b => (b &&& 0x7F) ||| 0x80 = UInt8.ofNat (b.toNat % 128 + 128))
    (by decide +kernel) b

/-- The byte of the last round. -/
theorem low_or_zero (b : UInt8) : b.toNat ≤ 0x7F → (b &&& 0x7F) ||| 0 = b :=
  UInt8.forall_of_fin (p := fun b => b.toNat ≤ 0x7F → (b &&& 0x7F) ||| 0 = b)
    (by decide +kernel) b

/-- The loop writes the shortest numeral. -/
theorem encodeVarintLoop_eq (room : Nat) (value : UInt32) :
    encodeVarintLoop room value = Leb128.emit room value.toNat := by
  induction room generalizing value with
  | zero => rfl
  | succ room ih =>
      have hmore : 0x7F < value ↔ 0x7F < value.toNat := UInt32.lt_iff_toNat_lt
      have hshift : (value >>> 7).toNat = value.toNat / 128 := by
        rw [UInt32.toNat_shiftRight]
        exact Nat.shiftRight_eq_div_pow _ _
      have hbyte : value.toUInt8.toNat = value.toNat % 256 := UInt32.toNat_toUInt8 value
      simp only [encodeVarintLoop, Leb128.emit, hmore, ih, hshift]
      split
      next hbig =>
        rw [low_or_high, hbyte, Nat.mod_mod_of_dvd _ (by decide)]
      next hsmall =>
        rw [low_or_zero _ (by omega)]
        congr 1

/-- A length below {lit}`2 ^ 28` is written as a varint. -/
theorem encodeLen_varint {n : Nat} (h : n < 2 ^ 28) : Varint n (encodeLen n) := by
  have hmod : n % 2 ^ 32 = n := Nat.mod_eq_of_lt (h.trans (by decide))
  unfold encodeLen encodeVarint
  rw [encodeVarintLoop_eq, UInt32.toNat_ofNat', hmod]
  exact ⟨Leb128.emit_spec (by decide) h, Leb128.emit_length_le_bound 4 n⟩

/-- No varint of an equal or larger number is shorter than a written length. -/
theorem encodeLen_length_le {n m : Nat} {bs : Bytes} (h : Varint m bs) (hn : n ≤ m) :
    (encodeLen n).length ≤ bs.length := by
  have hmod : n % 2 ^ 32 = n := Nat.mod_eq_of_lt (hn.trans_lt (h.lt.trans (by decide)))
  unfold encodeLen encodeVarint
  rw [encodeVarintLoop_eq, UInt32.toNat_ofNat', hmod]
  exact Leb128.emit_length_le h.1 hn

end Aicl.CoreRust
