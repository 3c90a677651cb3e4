import Aicl.Foundation.BigEndian

/-!
# Unsigned LEB128 numerals

A LEB128 numeral spells a natural number seven bits a byte, low bits first, with
the top bit set on every byte but the last.  The relation {lit}`Leb128` admits
every such spelling, padded ones included; {lit}`emit` writes the shortest one
and {lit}`read` is the accumulating reader with a bound on the number of bytes.

Main results:

- Theorem {lit}`Leb128.read_eq_some_iff`: the bounded reader accepts exactly the
  numerals that fit its bound, and returns their value and length.
- Theorem {lit}`Leb128.exists_starts_iff`: which byte strings start with a numeral.
- Theorem {lit}`Leb128.emit_spec`: the writer spells its argument.
- Theorem {lit}`Leb128.emit_four_length`: the number of bytes that are written.
- Theorem {lit}`Leb128.emit_length_le`: no spelling of an equal or larger number
  is shorter than the one the writer emits.
-/

/-- The byte string spells the number, seven bits a byte, low bits first. -/
inductive Leb128 : Nat → List UInt8 → Prop
  | last {b : UInt8} : b.toNat < 128 → Leb128 b.toNat [b]
  | more {b : UInt8} {n : Nat} {bs : List UInt8} :
      128 ≤ b.toNat → Leb128 n bs → Leb128 (b.toNat - 128 + 128 * n) (b :: bs)

namespace Leb128

/-! ## Bit facts for one byte -/

/-- Masking with {lit}`0x7F` keeps the low seven bits. -/
theorem and_low (n : Nat) : n &&& 0x7F = n % 128 :=
  Nat.and_two_pow_sub_one_eq_mod n 7

/-- The continuation bit of a byte is clear exactly below 128. -/
theorem and_high_eq_zero_iff {n : Nat} (h : n < 256) : n &&& 0x80 = 0 ↔ n < 128 := by
  have hall : ∀ m : Fin 256, (m.val &&& 0x80 = 0) = (m.val < 128) := by decide +kernel
  rw [hall ⟨n, h⟩]

/-- Adding a shifted payload above an accumulator is a bitwise or. -/
theorem or_shiftLeft {acc s x : Nat} (h : acc < 2 ^ s) : acc ||| (x <<< s) = acc + x * 2 ^ s := by
  rw [Nat.or_comm, ← Nat.shiftLeft_add_eq_or_of_lt h, Nat.shiftLeft_eq, Nat.add_comm]

/-! ## Values and lengths -/

/-- A numeral has at least one byte. -/
theorem length_pos {n : Nat} {bs : List UInt8} (h : Leb128 n bs) : 0 < bs.length := by
  cases h <;> simp

/-- A numeral of {lit}`k` bytes is below {lit}`128 ^ k`. -/
theorem lt_pow {n : Nat} {bs : List UInt8} (h : Leb128 n bs) : n < 128 ^ bs.length := by
  induction h with
  | last hb => simpa using hb
  | @more b n bs hb _ ih =>
      have hbyte : b.toNat < 256 := b.toNat_lt
      simp only [List.length_cons, Nat.pow_succ]
      omega

/-! ## The bounded reader -/

/-- Read a numeral of at most {lit}`k` more bytes, or-ing each payload in at the
current shift; the value and the number of bytes read. -/
def read : (k shift acc : Nat) → List UInt8 → Option (Nat × Nat)
  | 0, _, _, _ => none
  | _ + 1, _, _, [] => none
  | k + 1, shift, acc, b :: bs =>
      let acc := acc ||| ((b.toNat &&& 0x7F) <<< shift)
      if b.toNat &&& 0x80 = 0 then some (acc, 1)
      else (read k (shift + 7) acc bs).map fun r => (r.1, r.2 + 1)

/-- The accumulator stays below the next shift. -/
theorem acc_lt {acc shift : Nat} (b : UInt8) (h : acc < 2 ^ shift) :
    acc ||| ((b.toNat &&& 0x7F) <<< shift) < 2 ^ (shift + 7) := by
  have hmod : b.toNat % 128 + 1 ≤ 128 := Nat.mod_lt _ (by decide)
  have hmul := Nat.mul_le_mul_right (2 ^ shift) hmod
  rw [and_low, or_shiftLeft h, Nat.pow_add]
  rw [Nat.add_mul] at hmul
  omega

/-- One payload and the shifted rest make up the value of a longer numeral. -/
theorem shift_step (acc low n shift : Nat) :
    acc + low * 2 ^ shift + n * 2 ^ (shift + 7) = acc + (low + 128 * n) * 2 ^ shift := by
  have hpow : n * 2 ^ (shift + 7) = 128 * n * 2 ^ shift := by
    rw [Nat.pow_add, Nat.mul_comm (2 ^ shift), ← Nat.mul_assoc, Nat.mul_comm n]
  rw [hpow, Nat.add_mul, Nat.add_assoc]

/-- The reader accepts a numeral that fits its bound, whatever follows it. -/
theorem read_append {n : Nat} {bs : List UInt8} (h : Leb128 n bs) :
    ∀ {k shift acc : Nat} (post : List UInt8), bs.length ≤ k → acc < 2 ^ shift →
      read k shift acc (bs ++ post) = some (acc + n * 2 ^ shift, bs.length) := by
  induction h with
  | @last b hb =>
      intro k shift acc post hk hacc
      obtain ⟨k, rfl⟩ : ∃ j, k = j + 1 := ⟨k - 1, by simp at hk; omega⟩
      have hclear := (and_high_eq_zero_iff b.toNat_lt).mpr hb
      simp only [List.cons_append, List.nil_append, read, hclear, if_true, and_low,
        or_shiftLeft hacc, Nat.mod_eq_of_lt hb, List.length_cons, List.length_nil]
  | @more b n bs hb _ ih =>
      intro k shift acc post hk hacc
      obtain ⟨k, rfl⟩ : ∃ j, k = j + 1 := ⟨k - 1, by simp at hk; omega⟩
      have hset : ¬ b.toNat &&& 0x80 = 0 := by
        rw [and_high_eq_zero_iff b.toNat_lt]
        omega
      have hlow : b.toNat % 128 = b.toNat - 128 := by
        have := b.toNat_lt
        omega
      simp only [List.cons_append, read, if_neg hset]
      rw [ih post (by simpa using hk) (acc_lt b hacc), and_low, or_shiftLeft hacc, hlow,
        shift_step]
      rfl

/-- Whatever the reader accepts starts with a numeral of that value. -/
theorem of_read_eq_some : ∀ {k shift acc : Nat} {data : List UInt8} {v len : Nat},
    acc < 2 ^ shift → read k shift acc data = some (v, len) →
      ∃ n bs post, data = bs ++ post ∧ Leb128 n bs ∧ bs.length = len ∧ len ≤ k ∧
        v = acc + n * 2 ^ shift
  | 0, _, _, _, _, _, _, h => by simp [read] at h
  | _ + 1, _, _, [], _, _, _, h => by simp [read] at h
  | k + 1, shift, acc, b :: data, v, len, hacc, h => by
      simp only [read] at h
      split at h
      next hclear =>
        have hb := (and_high_eq_zero_iff b.toNat_lt).mp hclear
        simp only [Option.some.injEq, Prod.mk.injEq] at h
        refine ⟨b.toNat, [b], data, rfl, .last hb, h.2, by omega, ?_⟩
        rw [← h.1, and_low, or_shiftLeft hacc, Nat.mod_eq_of_lt hb]
      next hset =>
        have hb : 128 ≤ b.toNat := by
          rw [and_high_eq_zero_iff b.toNat_lt] at hset
          omega
        have hlow : b.toNat % 128 = b.toNat - 128 := by
          have := b.toNat_lt
          omega
        obtain ⟨⟨v', len'⟩, hrest, hpair⟩ := Option.map_eq_some_iff.mp h
        obtain ⟨n, bs, post, rfl, hn, rfl, hlen, rfl⟩ := of_read_eq_some (acc_lt b hacc) hrest
        simp only [Prod.mk.injEq] at hpair
        refine ⟨b.toNat - 128 + 128 * n, b :: bs, post, rfl, .more hb hn, ?_, ?_, ?_⟩
        · simpa using hpair.2
        · omega
        · rw [← hpair.1, and_low, or_shiftLeft hacc, hlow, shift_step]

/-- The bounded reader, from an empty accumulator, accepts exactly the numerals
of at most {lit}`k` bytes. -/
theorem read_eq_some_iff {k v len : Nat} {data : List UInt8} :
    read k 0 0 data = some (v, len) ↔
      ∃ bs post, data = bs ++ post ∧ Leb128 v bs ∧ bs.length = len ∧ len ≤ k := by
  constructor
  · intro h
    obtain ⟨n, bs, post, hdata, hn, hlen, hk, hv⟩ := of_read_eq_some (by simp) h
    have hvn : v = n := by simpa using hv
    exact ⟨bs, post, hdata, hvn ▸ hn, hlen, hk⟩
  · rintro ⟨bs, post, rfl, hn, rfl, hk⟩
    have hread := @read_append _ _ hn k 0 0 post hk (by simp)
    simpa using hread

/-- A byte string starts with a numeral of at most {lit}`k` bytes exactly when one of
its first {lit}`k` bytes has a clear continuation bit. -/
theorem exists_starts_iff {k : Nat} {data : List UInt8} :
    (∃ n bs post, data = bs ++ post ∧ Leb128 n bs ∧ bs.length ≤ k) ↔
      ∃ b ∈ data.take k, b.toNat < 128 := by
  constructor
  · rintro ⟨n, bs, post, rfl, hn, hk⟩
    induction hn generalizing k with
    | @last b hb =>
        obtain ⟨k, rfl⟩ := Nat.exists_eq_add_of_le' hk
        exact ⟨b, List.mem_cons_self, hb⟩
    | @more b n bs hb _ ih =>
        obtain ⟨k, rfl⟩ := Nat.exists_eq_add_of_le' ((Nat.succ_pos _).trans_le hk)
        obtain ⟨b', hmem, hb'⟩ := @ih k (Nat.le_of_succ_le_succ hk)
        exact ⟨b', List.mem_cons_of_mem b hmem, hb'⟩
  · induction k generalizing data with
    | zero => simp
    | succ k ih =>
        cases data with
        | nil => simp
        | cons b data =>
            rintro ⟨b', hmem, hb'⟩
            by_cases hb : b.toNat < 128
            · exact ⟨_, [b], data, rfl, .last hb, Nat.succ_pos k⟩
            · have hrest : b' ∈ data.take k := by
                rcases List.mem_cons.mp hmem with rfl | hrest
                · exact absurd hb' hb
                · exact hrest
              obtain ⟨n, bs, post, rfl, hn, hk⟩ := ih ⟨b', hrest, hb'⟩
              exact ⟨_, b :: bs, post, rfl, .more (Nat.le_of_not_lt hb) hn, Nat.succ_le_succ hk⟩

/-! ## The shortest numeral -/

/-- Write {lit}`n` in at most {lit}`k` bytes; a number that needs more loses its
high bits. -/
def emit : (k n : Nat) → List UInt8
  | 0, _ => []
  | k + 1, n =>
      if 0x7F < n then UInt8.ofNat (n % 128 + 128) :: emit k (n / 128)
      else [UInt8.ofNat n]

/-- The writer spells a number that fits its bound. -/
theorem emit_spec : ∀ {k n : Nat}, 0 < k → n < 128 ^ k → Leb128 n (emit k n)
  | k + 1, n, _, hn => by
      unfold emit
      split
      next hbig =>
        have hk : 0 < k := by
          rcases Nat.eq_zero_or_pos k with rfl | hk
          · omega
          · exact hk
        have hrest : n / 128 < 128 ^ k := by
          rw [Nat.pow_succ] at hn
          exact Nat.div_lt_of_lt_mul (by omega)
        have hbyte : (UInt8.ofNat (n % 128 + 128)).toNat = n % 128 + 128 := by
          simp only [UInt8.toNat_ofNat']
          omega
        have hvalue : n = (UInt8.ofNat (n % 128 + 128)).toNat - 128 + 128 * (n / 128) := by
          rw [hbyte]
          omega
        have hspell := Leb128.more (by omega) (emit_spec hk hrest)
          (b := UInt8.ofNat (n % 128 + 128))
        rwa [← hvalue] at hspell
      next hsmall =>
        have hbyte : (UInt8.ofNat n).toNat = n := by
          simp only [UInt8.toNat_ofNat']
          omega
        have hspell := Leb128.last (b := UInt8.ofNat n) (by omega)
        rwa [hbyte] at hspell

/-- The writer keeps to its bound. -/
theorem emit_length_le_bound (k n : Nat) : (emit k n).length ≤ k := by
  induction k generalizing n with
  | zero => simp [emit]
  | succ k ih =>
      unfold emit
      split
      · simpa using ih (n / 128)
      · simp

/-- The number of bytes in which at most four bytes spell a number. -/
def width (n : Nat) : Nat :=
  if n < 2 ^ 7 then 1
  else if n < 2 ^ 14 then 2
  else if n < 2 ^ 21 then 3
  else 4

/-- A writer of at most four bytes writes that many. -/
theorem emit_four_length (n : Nat) : (emit 4 n).length = width n := by
  have hrounds : (emit 4 n).length =
      if 0x7F < n then
        if 0x7F < n / 128 then if 0x7F < n / 128 / 128 then 4 else 3 else 2
      else 1 := by
    simp only [emit]
    split_ifs <;> rfl
  rw [hrounds, width]
  split_ifs <;> omega

/-- No numeral of an equal or larger number is shorter than the emitted one. -/
theorem emit_length_le {m : Nat} {bs : List UInt8} (h : Leb128 m bs) :
    ∀ {k n : Nat}, n ≤ m → (emit k n).length ≤ bs.length := by
  induction h with
  | @last b hb =>
      intro k n hn
      cases k with
      | zero => simp [emit]
      | succ k =>
          have hsmall : ¬ 0x7F < n := by omega
          simp [emit, hsmall]
  | @more b m bs hb _ ih =>
      intro k n hn
      cases k with
      | zero => simp [emit]
      | succ k =>
          have hbyte : b.toNat < 256 := b.toNat_lt
          unfold emit
          split
          · simpa using ih (k := k) (n := n / 128) (by omega)
          · simp

end Leb128
