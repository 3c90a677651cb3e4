import Mathlib

/-!
# Big-endian numerals over bytes

The bytes of a natural number, most significant first, in a fixed number of
places, and the number that a byte string spells.

Main results:

- Theorem {lit}`BigEndian.ofBytes_toBytes`: reading back a numeral that fits its
  places.
- Theorem {lit}`BigEndian.toBytes_ofBytes`: writing a read numeral in the same
  number of places gives the same bytes.
-/

/-- A property of bytes that the kernel checks on all 256 of them. -/
theorem UInt8.forall_of_fin {p : UInt8 → Prop} (h : ∀ n : Fin 256, p (UInt8.ofNat n.val))
    (b : UInt8) : p b := by
  have hb := h ⟨b.toNat, b.toNat_lt⟩
  rwa [UInt8.ofNat_toNat] at hb

namespace BigEndian

/-- The low {lit}`w` base-256 digits of {lit}`n`, most significant first. -/
def toBytes : (w : Nat) → (n : Nat) → List UInt8
  | 0, _ => []
  | w + 1, n => UInt8.ofNat (n / 256 ^ w) :: toBytes w n

/-- The number spelled by a byte string, most significant byte first. -/
def ofBytes : List UInt8 → Nat
  | [] => 0
  | b :: bs => b.toNat * 256 ^ bs.length + ofBytes bs

@[simp] theorem toBytes_length (w n : Nat) : (toBytes w n).length = w := by
  induction w with
  | zero => rfl
  | succ w ih => simp [toBytes, ih]

/-- A numeral of {lit}`w` bytes is below {lit}`256 ^ w`. -/
theorem ofBytes_lt (bs : List UInt8) : ofBytes bs < 256 ^ bs.length := by
  induction bs with
  | nil => simp [ofBytes]
  | cons b bs ih =>
      have hb : b.toNat + 1 ≤ 256 := b.toNat_lt
      have hstep := Nat.mul_le_mul_right (256 ^ bs.length) hb
      simp only [ofBytes, List.length_cons, Nat.pow_succ]
      rw [Nat.add_mul, Nat.one_mul] at hstep
      omega

/-- Only the low digits of a number are written. -/
theorem ofBytes_toBytes_mod (w n : Nat) : ofBytes (toBytes w n) = n % 256 ^ w := by
  induction w with
  | zero => simp [toBytes, ofBytes, Nat.mod_one]
  | succ w ih =>
      have hsplit : n % 256 ^ (w + 1) = n % 256 ^ w + 256 ^ w * (n / 256 ^ w % 256) := by
        rw [Nat.pow_succ, Nat.mod_mul]
      simp only [toBytes, ofBytes, toBytes_length, ih, UInt8.toNat_ofNat']
      rw [hsplit, Nat.mul_comm, Nat.add_comm]

/-- A number that fits its places is read back. -/
theorem ofBytes_toBytes {w n : Nat} (h : n < 256 ^ w) : ofBytes (toBytes w n) = n := by
  rw [ofBytes_toBytes_mod, Nat.mod_eq_of_lt h]

/-- Digits above the written places do not show. -/
theorem toBytes_add_mul (w n k : Nat) : toBytes w (n + k * 256 ^ w) = toBytes w n := by
  induction w generalizing k with
  | zero => rfl
  | succ w ih =>
      have hpow : k * 256 ^ (w + 1) = (k * 256) * 256 ^ w := by
        rw [Nat.pow_succ, Nat.mul_comm (256 ^ w), Nat.mul_assoc]
      have hhead : (n + k * 256 * 256 ^ w) / 256 ^ w = n / 256 ^ w + k * 256 :=
        Nat.add_mul_div_right _ _ (Nat.pow_pos (by decide))
      simp only [toBytes, hpow, ih, hhead]
      congr 1
      apply UInt8.toNat_inj.mp
      simp

/-- A read numeral is written back in the same bytes. -/
theorem toBytes_ofBytes (bs : List UInt8) : toBytes bs.length (ofBytes bs) = bs := by
  induction bs with
  | nil => rfl
  | cons b bs ih =>
      have hlt := ofBytes_lt bs
      have hhead : (b.toNat * 256 ^ bs.length + ofBytes bs) / 256 ^ bs.length = b.toNat := by
        rw [Nat.add_comm, Nat.add_mul_div_right _ _ (Nat.pow_pos (by decide)), Nat.div_eq_of_lt hlt,
          Nat.zero_add]
      simp only [List.length_cons, toBytes, ofBytes]
      rw [hhead, Nat.add_comm, toBytes_add_mul, ih, UInt8.ofNat_toNat]

/-- Two byte strings of one length that spell the same number are equal. -/
theorem ofBytes_inj {as bs : List UInt8} (hlen : as.length = bs.length)
    (h : ofBytes as = ofBytes bs) : as = bs := by
  rw [← toBytes_ofBytes as, ← toBytes_ofBytes bs, hlen, h]

end BigEndian
