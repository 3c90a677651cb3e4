import Aicl.Bin.Varint
import Aicl.CoreRust.Instruction

/-!
# Varints in both languages

{lit}`encode_varint` and {lit}`decode_varint` of {lit}`core-rust/src/codec.rs` and of
{lit}`aicl/bin/varint.py`, and the second {lit}`decode_varint` of the Rust core, in
{lit}`core-rust/src/instruction.rs`.

Main results:

- Theorem {lit}`readAlike_iff`: what the three decoders read.
- Theorem {lit}`refusedAlike_iff`: what they refuse.
- Theorem {lit}`varints_agree`: the encoders write the same bytes, and the decoders
  agree on every byte string.
-/

namespace Aicl.Interop

open Isa (Varint)
open CoreRust (AiclInstruction)

/-! ## What is wanted -/

/-- The byte carries the continuation bit. -/
def Continues (b : UInt8) : Prop := b &&& 0x80 ≠ 0

/-- The first four bytes all carry the continuation bit, or the bytes end before one
without it. -/
def Unfinished (data : Bytes) : Prop :=
  (4 ≤ data.length ∧ ∀ b ∈ data.take 4, Continues b) ∨ ∀ b ∈ data, Continues b

/-- The three decoders return the value and the length; the one of the Python package,
which is given a position, returns the position after it. -/
structure ReadAlike (data : Bytes) (v : UInt32) (len : Nat) : Prop where
  codec : CoreRust.decodeVarint data = .ok (v, len)
  instruction : AiclInstruction.decodeVarint data = .ok (v, len)
  python : ∀ pre, Bin.decodeVarint (pre ++ data) pre.length = .ok (v.toNat, pre.length + len)

/-- The three decoders report an error. -/
structure RefusedAlike (data : Bytes) : Prop where
  codec : ∃ e, CoreRust.decodeVarint data = .err e
  instruction : ∃ e, AiclInstruction.decodeVarint data = .err e
  python : ∀ pre, ∃ e, Bin.decodeVarint (pre ++ data) pre.length = .err e

/-- Both encoders write the bytes, at least one and at most four, no shorter ones are
read as the value, and they are read back in front of everything. -/
structure WrittenAlike (v : UInt32) (e : Bytes) : Prop where
  rust : CoreRust.encodeVarint v = e
  python : Bin.encodeVarint v.toNat = .ok e
  length_pos : 1 ≤ e.length
  length_le : e.length ≤ 4
  shortest : ∀ data len, ReadAlike data v len → e.length ≤ len
  read_back : ∀ s, ReadAlike (e ++ s) v e.length

/-! ## The decoders -/

variable {data : Bytes} {v : UInt32} {len : Nat}

/-- The decoders read the varints of the instruction set. -/
theorem readAlike_iff :
    ReadAlike data v len ↔ ∃ bs post, data = bs ++ post ∧ Varint v.toNat bs ∧ bs.length = len := by
  constructor
  · intro h
    exact CoreRust.decodeVarint_eq_ok_iff.mp h.codec
  · intro h
    have hcodec := CoreRust.decodeVarint_eq_ok_iff.mpr h
    refine ⟨hcodec, (AiclInstruction.decodeVarintLoop_eq_ok_iff data 0 0 0).mpr hcodec, ?_⟩
    intro pre
    obtain ⟨bs, post, rfl, hv, rfl⟩ := h
    exact (Bin.decodeVarint_reads (L := (bs ++ post).length + 1)).complete hv pre post
      (Nat.lt_succ_self _)

/-- They refuse everything else. -/
theorem refusedAlike_iff :
    RefusedAlike data ↔ ¬ ∃ n bs post, data = bs ++ post ∧ Varint n bs := by
  constructor
  · rintro h ⟨n, bs, post, rfl, hv⟩
    obtain ⟨e, herr⟩ := h.codec
    rw [CoreRust.decodeVarint_append hv post] at herr
    cases herr
  · intro h
    have hnone : ∀ r, CoreRust.decodeVarint data ≠ .ok r := by
      intro r hr
      obtain ⟨bs, post, hsplit, hv, -⟩ := CoreRust.decodeVarint_eq_ok_iff.mp hr
      exact h ⟨_, bs, post, hsplit, hv⟩
    constructor
    · have hsat := CoreRust.decodeVarint_sat data
      cases hread : CoreRust.decodeVarint data with
      | ok r => exact absurd hread (hnone r)
      | err e => exact ⟨e, rfl⟩
      | panic =>
          rw [hread] at hsat
          exact hsat.elim
    · cases hread : AiclInstruction.decodeVarint data with
      | ok r =>
          exact absurd ((AiclInstruction.decodeVarintLoop_eq_ok_iff data 0 0 0).mp hread) (hnone r)
      | err e => exact ⟨e, rfl⟩
      | panic => exact absurd hread (AiclInstruction.decodeVarintLoop_ne_panic data 0 0 0)
    · intro pre
      have hsound := (Bin.decodeVarint_reads (L := data.length + 1)).sound pre data
        (Nat.lt_succ_self _)
      cases hread : Bin.decodeVarint (pre ++ data) pre.length with
      | ok r =>
          rw [hread] at hsound
          obtain ⟨bs, post, hsplit, hv, -⟩ := hsound
          exact absurd ⟨_, bs, post, hsplit, hv⟩ h
      | err e => exact ⟨e, rfl⟩
      | panic =>
          rw [hread] at hsound
          exact hsound.elim

/-- The continuation bit, on numbers. -/
theorem continues_iff (b : UInt8) : Continues b ↔ ¬ b.toNat < 128 := by
  rw [Continues, ne_eq, CoreRust.byte_and_high_eq_zero_iff, Leb128.and_high_eq_zero_iff b.toNat_lt]

/-- A byte string is unfinished exactly when it starts with no varint. -/
theorem unfinished_iff : Unfinished data ↔ ¬ ∃ n bs post, data = bs ++ post ∧ Varint n bs := by
  have hstarts : (∃ n bs post, data = bs ++ post ∧ Varint n bs) ↔
      ∃ b ∈ data.take 4, b.toNat < 128 := Leb128.exists_starts_iff
  have htake : Unfinished data ↔ ∀ b ∈ data.take 4, Continues b := by
    constructor
    · rintro (⟨-, hfour⟩ | hall)
      · exact hfour
      · exact fun b hb => hall b (List.mem_of_mem_take hb)
    · intro h
      by_cases hlong : 4 ≤ data.length
      · exact .inl ⟨hlong, h⟩
      · rw [List.take_of_length_le (by omega)] at h
        exact .inr h
  rw [htake, hstarts]
  simp only [continues_iff, not_exists, not_and]

/-- A byte string is read alike or refused alike. -/
theorem refused_or_read (data : Bytes) :
    Unfinished data ∧ RefusedAlike data ∨ ¬ Unfinished data ∧ ∃ v len, ReadAlike data v len := by
  by_cases h : Unfinished data
  · exact .inl ⟨h, refusedAlike_iff.mpr (unfinished_iff.mp h)⟩
  · refine .inr ⟨h, ?_⟩
    rw [unfinished_iff, not_not] at h
    obtain ⟨n, bs, post, hsplit, hv⟩ := h
    have hread : Varint (UInt32.ofNat n).toNat bs := hv.toNat_ofNat.symm ▸ hv
    exact ⟨UInt32.ofNat n, bs.length, readAlike_iff.mpr ⟨bs, post, hsplit, hread, rfl⟩⟩

/-! ## The encoders -/

/-- What the encoders write for a value below {lit}`2 ^ 28`. -/
theorem written_alike (h : v.toNat < 2 ^ 28) : WrittenAlike v (CoreRust.encodeVarint v) := by
  have hemit : CoreRust.encodeVarint v = Leb128.emit 4 v.toNat := CoreRust.encodeVarintLoop_eq 4 v
  have hvarint : Varint v.toNat (CoreRust.encodeVarint v) := by
    rw [hemit]
    exact Bin.encodeVarint_length_varint h
  constructor
  · rfl
  · rw [hemit]
    exact Bin.encodeVarint_length v.toNat
  · exact hvarint.1.length_pos
  · exact hvarint.2
  · intro data len hread
    obtain ⟨bs, post, -, hv, rfl⟩ := readAlike_iff.mp hread
    rw [hemit]
    exact Leb128.emit_length_le hv.1 le_rfl
  · intro s
    exact readAlike_iff.mpr ⟨_, s, rfl, hvarint, rfl⟩

/-- For every value below {lit}`2 ^ 28` both encoders write the same shortest bytes, which
all decoders read back; and the decoders agree on every byte string, refusing exactly the
unfinished ones. -/
theorem varints_agree :
    (∀ v : UInt32, v.toNat < 2 ^ 28 → ∃ e, WrittenAlike v e) ∧
    ∀ data : Bytes,
      Unfinished data ∧ RefusedAlike data ∨
        ¬ Unfinished data ∧ ∃ v len, ReadAlike data v len :=
  ⟨fun _ h => ⟨_, written_alike h⟩, refused_or_read⟩

end Aicl.Interop
