import Aicl.CoreRust.SessionRuns
import Aicl.Foundation.CrcRegister

/-!
# Corrupted headers

What the Rust decoder does with an encoded packet whose header was damaged.  The
header checksum covers the 52 bytes before it, and all decoders compare it before
they use any other field than the magic bytes and the version.

Main results:

- Theorem {lit}`decode_err_of_not_headerCrc`: a frame with a wrong header checksum
  is refused.
- Theorem {lit}`decode_of_headerCorrupted`: bursts of up to 32 bits in the covered
  bytes, and all changes of the checksum, are detected.
-/

namespace Aicl.CoreRust

open Isa.Frame
open SessionPair (zeros zerosFrame readFrame_small)

/-- The header of a frame was damaged: a burst within the bytes that its checksum
covers, or another checksum. -/
inductive HeaderCorrupted (frame : Bytes) : Bytes → Prop
  | burst {covered' : Bytes} (h : Crc32.Burst 32 (frame.take 52) covered') :
      HeaderCorrupted frame (covered' ++ frame.drop 52)
  | checksum {crc' : Bytes} (hlen : crc'.length = 4) (hne : crc' ≠ field frame 52 56) :
      HeaderCorrupted frame (frame.take 52 ++ (crc' ++ frame.drop 56))

/-- A frame with a wrong header checksum is refused. -/
theorem decode_err_of_not_headerCrc {crc32 : Bytes → UInt32} (codec : AiclCodec) {data : Bytes}
    (h : ¬ HeaderCrcOk crc32 data) : ∃ e, codec.decode crc32 data = .err e := by
  have hdecides := @checkPrelude_decides crc32 validateMessages data
  unfold AiclCodec.decode AiclCodec.view validateHeader
  cases hcheck : checkPrelude crc32 validateMessages data with
  | ok u =>
      rw [hcheck] at hdecides
      exact absurd hdecides.headerCrc h
  | err e => exact ⟨e, rfl⟩
  | panic =>
      rw [hcheck] at hdecides
      exact hdecides.elim

/-- The checksum of a frame whose covered bytes and checksum are known. -/
theorem headerCrcOk_append {crc32 : Bytes → UInt32} {covered crc rest : Bytes}
    (hcovered : covered.length = 52) (hcrc : crc.length = 4) :
    HeaderCrcOk crc32 (covered ++ (crc ++ rest)) ↔ BigEndian.ofBytes crc = (crc32 covered).toNat := by
  have hcrcEnd : 52 + crc.length = 56 := by rw [hcrc]
  rw [HeaderCrcOk, field_append hcovered hcrcEnd, List.take_left' hcovered]

/-- A damaged header does not fit its checksum. -/
theorem HeaderCorrupted.not_headerCrc {frame data : Bytes} (h : HeaderCorrupted frame data)
    (hlen : 56 ≤ frame.length) (hframe : HeaderCrcOk Crc32.ieee frame) :
    ¬ HeaderCrcOk Crc32.ieee data := by
  have hsplit : frame.drop 52 = field frame 52 56 ++ frame.drop 56 := by
    calc frame.drop 52 = (frame.drop 52).take 4 ++ (frame.drop 52).drop 4 :=
          (List.take_append_drop 4 _).symm
      _ = field frame 52 56 ++ frame.drop 56 := by rw [List.drop_drop, field]
  have hcovered : (frame.take 52).length = 52 := by
    rw [List.length_take]
    omega
  have hcrc : (field frame 52 56).length = 4 := field_length hlen
  intro hok
  cases h with
  | burst hburst =>
      rw [hsplit, headerCrcOk_append (hburst.length_eq.trans hcovered) hcrc] at hok
      -- the same checksum for the covered bytes before and after the burst
      have hsame := hok.symm.trans hframe
      exact Crc32.ieee_ne_of_burst hburst (UInt32.toNat_inj.mp hsame)
  | checksum hlen' hne =>
      rw [headerCrcOk_append hcovered hlen'] at hok
      have hsame := hok.trans hframe.symm
      exact hne (BigEndian.ofBytes_inj (hlen'.trans hcrc.symm) hsame)

/-- An encoded packet whose header was damaged is refused: by a burst of up to 32
bits in the bytes that the checksum covers, or by any change of the checksum. -/
theorem decode_of_headerCorrupted (codec codec' : AiclCodec) (uuidV4 : Id16) (pkt : AiclPacket)
    {frame data : Bytes} (hencode : codec.encode Crc32.ieee uuidV4 pkt = .ok frame)
    (hcorrupted : HeaderCorrupted frame data) :
    ∃ e, codec'.decode Crc32.ieee data = .err e := by
  have ⟨_, hframe⟩ := encode_eq_ok_iff.mp hencode
  apply decode_err_of_not_headerCrc
  apply hcorrupted.not_headerCrc
  · rw [hframe, List.length_append, Header.bytes_length]
    exact Nat.le_add_right 56 _
  · rw [hframe]
    exact headerCrcOk_bytes

/-- The magic bytes of a small request overwritten by zeros. -/
theorem decode_of_headerCorrupted_magic :
    ∃ e, AiclCodec.new.decode Crc32.ieee
      ((List.replicate 4 0 ++ (zerosFrame 0).extract 4 52) ++ (zerosFrame 0).drop 52) = .err e := by
  apply decode_of_headerCorrupted _ _ .zero (zeros 0) readFrame_small.1
  apply HeaderCorrupted.burst
  exact ⟨by decide +kernel, by decide +kernel, 0, rfl, by decide +kernel⟩

end Aicl.CoreRust
