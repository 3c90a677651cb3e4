import Aicl.Foundation.Crc32

/-!
# Cyclic redundancy checks

A reflected cyclic redundancy check of any width, one message bit at a time.  The
register adds a bit at its low end, shifts, and adds the generator when a one is
shifted out.  A generator with its top bit set makes the shift injective, and as
many bits as the register is wide can be added to it all at once; so messages that
differ within that many consecutive bits have different checksums.

Main results:

- Theorem {lit}`CrcRegister.run_eq_iterate`: the bits of a short message added at
  once.
- Theorem {lit}`CrcRegister.run_burst_ne`: a burst within the width of the register
  changes the register.
- Theorem {lit}`Crc32.ieee_ne_of_burst`: CRC-32 detects every burst of 32 bits.
-/

namespace CrcRegister

variable {w : Nat}

/-! ## Bits in a register -/

/-- A bit at the low end of a register. -/
def lowBit (b : Bool) : BitVec w := BitVec.ofNat w b.toNat

/-- A message in a register, its first bit at the low end. -/
def pack : List Bool → BitVec w
  | [] => 0
  | b :: bits => (pack bits <<< 1) ^^^ lowBit b

/-- The bit at the low end. -/
theorem getLsbD_lowBit (b : Bool) (i : Nat) :
    (lowBit b : BitVec w).getLsbD i = (decide (i < w) && (decide (i = 0) && b)) := by
  unfold lowBit
  rw [BitVec.getLsbD_ofNat]
  cases b with
  | false => simp
  | true =>
      have hone : Nat.testBit 1 i = decide (i = 0) := by
        rw [Bool.eq_iff_iff, decide_eq_true_iff]
        exact Nat.testBit_one_eq_true_iff_self_eq_zero
      simp [hone]

/-- The bits of a packed message. -/
theorem getLsbD_pack (bits : List Bool) (i : Nat) :
    (pack bits : BitVec w).getLsbD i = (decide (i < w) && bits.getD i false) := by
  induction bits generalizing i with
  | nil => simp [pack]
  | cons b bits ih =>
      rw [pack, BitVec.getLsbD_xor, BitVec.getLsbD_shiftLeft, getLsbD_lowBit]
      cases i with
      | zero => simp
      | succ i =>
          rw [Nat.add_sub_cancel, ih]
          by_cases hi : i + 1 < w
          · simp [hi, Nat.lt_of_succ_lt hi]
          · simp [hi]

/-- Messages of one length that fit the register are packed differently. -/
theorem pack_injective {bits bits' : List Bool} (hlen : bits'.length = bits.length)
    (hw : bits.length ≤ w) (h : (pack bits : BitVec w) = pack bits') : bits = bits' := by
  apply List.ext_getElem hlen.symm
  intro i hi hi'
  have hbit := congrArg (fun r => r.getLsbD i) h
  have hiw : i < w := by omega
  simp only [getLsbD_pack, hiw, decide_true, Bool.true_and] at hbit
  rwa [List.getD_eq_getElem bits false hi, List.getD_eq_getElem bits' false hi'] at hbit

/-! ## The shift -/

section Register

variable (poly : BitVec w)

/-- Shift one bit out of the register. -/
def shift (r : BitVec w) : BitVec w :=
  if r.getLsbD 0 then (r >>> 1) ^^^ poly else r >>> 1

/-- Feed one bit. -/
def feedBit (r : BitVec w) (b : Bool) : BitVec w := shift poly (r ^^^ lowBit b)

/-- Feed the bits of a message. -/
def run (r : BitVec w) (bits : List Bool) : BitVec w := bits.foldl (feedBit poly) r

/-- The shift is linear. -/
theorem shift_xor (r s : BitVec w) : shift poly (r ^^^ s) = shift poly r ^^^ shift poly s := by
  unfold shift
  rw [BitVec.getLsbD_xor, BitVec.ushiftRight_xor_distrib]
  cases r.getLsbD 0 <;> cases s.getLsbD 0
  case true.true =>
    have hcancel : (r >>> 1 ^^^ poly) ^^^ (s >>> 1 ^^^ poly) = r >>> 1 ^^^ s >>> 1 := by
      rw [BitVec.xor_assoc, BitVec.xor_comm (s >>> 1) poly, ← BitVec.xor_assoc poly,
        BitVec.xor_self, BitVec.zero_xor]
    simpa using hcancel.symm
  case true.false =>
    have hcomm : (r >>> 1 ^^^ s >>> 1) ^^^ poly = (r >>> 1 ^^^ poly) ^^^ s >>> 1 := by
      rw [BitVec.xor_assoc, BitVec.xor_comm (s >>> 1), ← BitVec.xor_assoc]
    simpa using hcomm
  case false.true => simp [BitVec.xor_assoc]
  case false.false => simp

/-- Shifting what was moved up by one place moves it back, when nothing was lost. -/
theorem shift_shiftLeft {r : BitVec w} (h : r.getLsbD (w - 1) = false) :
    shift poly (r <<< 1) = r := by
  have hlow : (r <<< 1).getLsbD 0 = false := by simp
  unfold shift
  rw [hlow, if_neg Bool.false_ne_true]
  apply BitVec.eq_of_getLsbD_eq
  intro i hi
  rw [BitVec.getLsbD_ushiftRight, BitVec.getLsbD_shiftLeft, Nat.add_sub_cancel_left]
  by_cases hlast : 1 + i < w
  · simp [hlast]
  · obtain rfl : i = w - 1 := by omega
    simp [h]

variable {poly}

/-- The top bit of the generator tells which bit was shifted out. -/
theorem shift_msb (hpoly : poly.getLsbD (w - 1) = true) (r : BitVec w) :
    (shift poly r).getLsbD (w - 1) = r.getLsbD 0 := by
  have hout : (r >>> 1).getLsbD (w - 1) = false := by
    rw [BitVec.getLsbD_ushiftRight]
    exact BitVec.getLsbD_of_ge r _ (by omega)
  unfold shift
  cases r.getLsbD 0 with
  | true => simp [hpoly, hout]
  | false => simpa using hout

/-- With such a generator the shift is injective. -/
theorem shift_injective (hpoly : poly.getLsbD (w - 1) = true) :
    Function.Injective (shift poly) := by
  intro r s heq
  have hlow : r.getLsbD 0 = s.getLsbD 0 := by
    rw [← shift_msb hpoly r, heq, shift_msb hpoly s]
  have hhigh : r >>> 1 = s >>> 1 := by
    unfold shift at heq
    rw [hlow] at heq
    split at heq
    next => exact (BitVec.xor_left_inj poly).mp heq
    next => exact heq
  apply BitVec.eq_of_getLsbD_eq
  intro i _
  cases i with
  | zero => exact hlow
  | succ i =>
      have hbit := congrArg (fun x => x.getLsbD i) hhigh
      simpa [BitVec.getLsbD_ushiftRight, Nat.add_comm] using hbit

/-! ## Messages -/

/-- A message in two parts. -/
theorem run_append (r : BitVec w) (bits bits' : List Bool) :
    run poly r (bits ++ bits') = run poly (run poly r bits) bits' :=
  List.foldl_append

/-- What is fed into different registers leaves them different. -/
theorem run_injective (hpoly : poly.getLsbD (w - 1) = true) (bits : List Bool) :
    Function.Injective fun r => run poly r bits := by
  induction bits with
  | nil => exact Function.injective_id
  | cons b bits ih =>
      intro r s heq
      have hfeed : feedBit poly r b = feedBit poly s b := ih heq
      exact (BitVec.xor_left_inj _).mp (shift_injective hpoly hfeed)

/-- A message that fits the register may be added at once, before it is shifted. -/
theorem run_eq_iterate (r : BitVec w) {bits : List Bool} (h : bits.length ≤ w) :
    run poly r bits = (shift poly)^[bits.length] (r ^^^ pack bits) := by
  induction bits generalizing r with
  | nil => simp [run, pack]
  | cons b bits ih =>
      rw [List.length_cons] at h
      have htop : (pack bits : BitVec w).getLsbD (w - 1) = false := by
        rw [getLsbD_pack, List.getD_eq_default bits false (by omega), Bool.and_false]
      have hadd : feedBit poly r b ^^^ pack bits = shift poly (r ^^^ pack (b :: bits)) := by
        calc feedBit poly r b ^^^ pack bits
            = shift poly (r ^^^ lowBit b) ^^^ shift poly (pack bits <<< 1) := by
              rw [shift_shiftLeft poly htop, feedBit]
          _ = shift poly ((r ^^^ lowBit b) ^^^ (pack bits <<< 1)) := (shift_xor poly _ _).symm
          _ = shift poly (r ^^^ pack (b :: bits)) := by
              rw [pack, BitVec.xor_assoc, BitVec.xor_comm (lowBit b)]
      calc run poly r (b :: bits)
          = run poly (feedBit poly r b) bits := rfl
        _ = (shift poly)^[bits.length] (feedBit poly r b ^^^ pack bits) := ih _ (by omega)
        _ = (shift poly)^[(b :: bits).length] (r ^^^ pack (b :: bits)) := by
            rw [hadd, List.length_cons, Function.iterate_succ_apply]

/-- Messages that differ within as many consecutive bits as the register is wide
leave different registers. -/
theorem run_burst_ne (hpoly : poly.getLsbD (w - 1) = true) (r : BitVec w)
    (before after : List Bool) {bits bits' : List Bool} (hlen : bits'.length = bits.length)
    (hw : bits.length ≤ w) (hne : bits' ≠ bits) :
    run poly r (before ++ (bits' ++ after)) ≠ run poly r (before ++ (bits ++ after)) := by
  intro heq
  rw [run_append, run_append, run_append, run_append] at heq
  have hmid := run_injective hpoly after heq
  rw [run_eq_iterate _ hw, run_eq_iterate _ (hlen.trans_le hw), hlen] at hmid
  have hpacked := (shift_injective hpoly).iterate bits.length hmid
  exact hne (pack_injective hlen.symm (hlen.trans_le hw) ((BitVec.xor_right_inj _).mp hpacked))

end Register

end CrcRegister

namespace Crc32

/-! ## CRC-32 as a register -/

/-- The generator. -/
def poly : BitVec 32 := 0xEDB88320

/-- The bits of a byte, the low one first. -/
def byteBits (b : UInt8) : List Bool := (List.range 8).map b.toNat.testBit

/-- The bits of bytes in the order in which the register takes them. -/
def bits (data : List UInt8) : List Bool := data.flatMap byteBits

/-- A byte has eight bits. -/
@[simp] theorem byteBits_length (b : UInt8) : (byteBits b).length = 8 := by
  simp [byteBits]

/-- The bits of the first byte come first. -/
theorem bits_cons (b : UInt8) (data : List UInt8) : bits (b :: data) = byteBits b ++ bits data :=
  List.flatMap_cons

/-- Bytes have eight bits each. -/
theorem bits_length (data : List UInt8) : (bits data).length = 8 * data.length := by
  induction data with
  | nil => rfl
  | cons b data ih =>
      rw [bits_cons, List.length_append, byteBits_length, ih, List.length_cons]
      omega

/-- The bits of the first bytes. -/
theorem bits_take (n : Nat) (data : List UInt8) : bits (data.take n) = (bits data).take (8 * n) := by
  induction data generalizing n with
  | nil => simp [bits]
  | cons b data ih =>
      cases n with
      | zero => rfl
      | succ n =>
          have hlen : 8 * (n + 1) = (byteBits b).length + 8 * n := by
            rw [byteBits_length]
            omega
          rw [List.take_succ_cons, bits_cons, bits_cons, ih, hlen, List.take_length_add_append]

/-- The bits of the bytes behind the first ones. -/
theorem bits_drop (n : Nat) (data : List UInt8) : bits (data.drop n) = (bits data).drop (8 * n) := by
  induction data generalizing n with
  | nil => simp [bits]
  | cons b data ih =>
      cases n with
      | zero => rfl
      | succ n =>
          have hlen : 8 * (n + 1) = (byteBits b).length + 8 * n := by
            rw [byteBits_length]
            omega
          rw [List.drop_succ_cons, bits_cons, ih, hlen, List.drop_length_add_append]

/-- The bit of a byte at a place. -/
theorem byteBits_getD (b : UInt8) (i : Nat) : (byteBits b).getD i false = b.toNat.testBit i := by
  by_cases hi : i < 8
  · rw [List.getD_eq_getElem _ _ (by simpa using hi)]
    simp [byteBits]
  · have hlt : b.toNat < 2 ^ i :=
      b.toNat_lt.trans_le (Nat.pow_le_pow_right (by decide) (Nat.le_of_not_lt hi))
    rw [List.getD_eq_default _ _ (by simpa using hi), Nat.testBit_lt_two_pow hlt]

/-- The bits of a byte fill the low end of a register. -/
theorem pack_byteBits (b : UInt8) :
    CrcRegister.pack (byteBits b) = b.toUInt32.toBitVec := by
  apply BitVec.eq_of_getLsbD_eq
  intro i hi
  rw [CrcRegister.getLsbD_pack, byteBits_getD, decide_eq_true hi, Bool.true_and,
    BitVec.getLsbD]
  simp

/-- A byte is determined by its bits. -/
theorem byteBits_injective : Function.Injective byteBits := by
  intro b c heq
  have hpack := (pack_byteBits b).symm.trans ((congrArg _ heq).trans (pack_byteBits c))
  have hword : b.toUInt32 = c.toUInt32 := UInt32.toBitVec_inj.mp hpack
  exact UInt8.toNat_inj.mp (by simpa using congrArg UInt32.toNat hword)

/-- Bytes are determined by their bits. -/
theorem bits_injective : Function.Injective bits := by
  intro data data' heq
  induction data generalizing data' with
  | nil =>
      have hlen := congrArg List.length heq
      rw [bits_length, bits_length] at hlen
      simpa [eq_comm] using hlen
  | cons b data ih =>
      cases data' with
      | nil =>
          have hlen := congrArg List.length heq
          rw [bits_length, bits_length] at hlen
          simp at hlen
      | cons b' data' =>
          rw [bits_cons, bits_cons] at heq
          obtain ⟨hbyte, hrest⟩ := List.append_inj heq (by simp)
          rw [byteBits_injective hbyte, ih hrest]

/-- The shift of CRC-32. -/
theorem shiftBit_toBitVec (crc : UInt32) :
    (shiftBit crc).toBitVec = CrcRegister.shift poly crc.toBitVec := by
  have hlow : crc &&& 1 = 1 ↔ crc.toBitVec.getLsbD 0 = true := by
    rw [← UInt32.toNat_inj, UInt32.toNat_and, UInt32.toNat_one, Nat.and_one_is_mod, BitVec.getLsbD,
      Nat.testBit_zero, decide_eq_true_iff, UInt32.toNat_toBitVec]
  have hshift : (crc >>> 1).toBitVec = crc.toBitVec >>> 1 := by
    rw [UInt32.toBitVec_shiftRight]
    rfl
  unfold shiftBit CrcRegister.shift
  simp only [hlow]
  split
  next => rw [UInt32.toBitVec_xor, hshift]; rfl
  next => exact hshift

/-- A byte is fed bit by bit. -/
theorem feed_toBitVec (crc : UInt32) (b : UInt8) :
    (feed crc b).toBitVec = CrcRegister.run poly crc.toBitVec (byteBits b) := by
  have hword : (crc ^^^ b.toUInt32).toBitVec = crc.toBitVec ^^^ CrcRegister.pack (byteBits b) := by
    rw [UInt32.toBitVec_xor, pack_byteBits]
  rw [CrcRegister.run_eq_iterate _ (by simp), byteBits_length, ← hword]
  simp only [feed, Nat.repeat, Function.iterate_succ_apply, Function.iterate_zero, id_eq,
    shiftBit_toBitVec]

/-- Bytes are fed bit by bit. -/
theorem foldl_feed_toBitVec (crc : UInt32) (data : List UInt8) :
    (data.foldl feed crc).toBitVec = CrcRegister.run poly crc.toBitVec (bits data) := by
  induction data generalizing crc with
  | nil => rfl
  | cons b data ih =>
      rw [List.foldl_cons, ih, feed_toBitVec, bits_cons, CrcRegister.run_append]

/-! ## Bursts -/

/-- A byte string was changed into another one of its length, within {lit}`n`
consecutive bits. -/
structure Burst (n : Nat) (data data' : List UInt8) : Prop where
  length_eq : data'.length = data.length
  ne : data' ≠ data
  confined : ∃ k, (bits data').take k = (bits data).take k ∧
    (bits data').drop (k + n) = (bits data).drop (k + n)

/-- A burst of {lit}`n` bits does not reach both sides of a gap of so many bits. -/
theorem Burst.take_eq_or_drop_eq {n a b : Nat} {data data' : List UInt8} (h : Burst n data data')
    (hgap : 8 * a + n ≤ 8 * b) : data'.take a = data.take a ∨ data'.drop b = data.drop b := by
  obtain ⟨k, hbefore, hafter⟩ := h.confined
  rcases le_or_gt (8 * a) k with hk | hk
  · left
    have hcut := congrArg (List.take (8 * a)) hbefore
    rw [List.take_take, List.take_take, Nat.min_eq_left hk] at hcut
    apply bits_injective
    rw [bits_take, bits_take, hcut]
  · right
    have hcut := congrArg (List.drop (8 * b - (k + n))) hafter
    rw [List.drop_drop, List.drop_drop, Nat.add_sub_cancel' (by omega)] at hcut
    apply bits_injective
    rw [bits_drop, bits_drop, hcut]

/-- A burst that leaves what stands from some byte on is one before that byte. -/
theorem Burst.take {n b : Nat} {data data' : List UInt8} (h : Burst n data data')
    (hdrop : data'.drop b = data.drop b) : Burst n (data.take b) (data'.take b) := by
  obtain ⟨k, hbefore, hafter⟩ := h.confined
  refine ⟨?_, ?_, k, ?_, ?_⟩
  · rw [List.length_take, List.length_take, h.length_eq]
  · intro htake
    apply h.ne
    rw [← List.take_append_drop b data', htake, hdrop, List.take_append_drop]
  · rw [bits_take, bits_take, List.take_take, List.take_take, Nat.min_comm k, ← List.take_take,
      hbefore, List.take_take]
  · rw [bits_take, bits_take, List.drop_take, List.drop_take, hafter]

/-- CRC-32 detects every burst of 32 bits. -/
theorem ieee_ne_of_burst {data data' : List UInt8} (h : Burst 32 data data') :
    ieee data' ≠ ieee data := by
  obtain ⟨hlength, hne, k, hbefore, hafter⟩ := h
  have hsplit : ∀ l : List Bool, l = l.take k ++ ((l.drop k).take 32 ++ l.drop (k + 32)) := by
    intro l
    rw [← List.drop_drop, List.take_append_drop, List.take_append_drop]
  have hmid : ((bits data').drop k).take 32 ≠ ((bits data).drop k).take 32 := by
    intro heq
    apply hne
    apply bits_injective
    rw [hsplit (bits data'), hbefore, heq, hafter, ← hsplit]
  have hlen : (((bits data').drop k).take 32).length = (((bits data).drop k).take 32).length := by
    simp only [List.length_take, List.length_drop, bits_length, hlength]
  intro heq
  have hregister := congrArg UInt32.toBitVec heq
  simp only [ieee, UInt32.toBitVec_xor, foldl_feed_toBitVec] at hregister
  have hrun := (BitVec.xor_left_inj _).mp hregister
  rw [hsplit (bits data'), hsplit (bits data), hbefore, hafter] at hrun
  exact CrcRegister.run_burst_ne (by decide) _ _ _ hlen (List.length_take_le _ _) hmid hrun

end Crc32
