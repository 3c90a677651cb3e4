import Aicl.Bin.Trailers
import Aicl.CoreRust.HeaderCorruption
import Aicl.Interop.PythonToRust

/-!
# Corrupted frames with a checksum

A frame that {lit}`encode` of {lit}`aicl/bin/codec_api.py` writes with a checksum carries
two of them: the header checksum, and a trailer over header and payload.  A burst in front
of the trailer may change the length or the flags that say where the trailer is; it is
then too early to reach the header checksum, which gives it away.

Main results:

- Theorem {lit}`FrameCorrupted.caught`: one of the two checksums of a damaged frame is
  wrong.
- Theorem {lit}`corrupted_refused`: both decoders refuse a damaged frame.
-/

namespace Aicl.Interop

open Bin (Packet PyError checksumSize trailerOf)
open CoreRust (AiclCodec HeaderCorrupted HeaderOnly Valid validateHeader)
open Isa.Frame

/-! ## Frames with both checksums -/

/-- A frame that announces a trailer and ends with it, both of whose checksums are right. -/
structure Checksummed (crc32 : Bytes → UInt32) (frame : Bytes) : Prop where
  headerCrc : HeaderCrcOk crc32 frame
  hasTrailer : HasTrailer frame
  length_eq : frame.length = total frame + 4
  trailerCrc : TrailerCrcOk crc32 frame

/-- A frame with both checksums was damaged: by a burst of up to 32 bits in front of the
trailer, or by another trailer. -/
inductive FrameCorrupted (frame : Bytes) : Bytes → Prop
  | burst {covered' : Bytes} (h : Crc32.Burst 32 (frame.take (total frame)) covered') :
      FrameCorrupted frame (covered' ++ frame.drop (total frame))
  | trailer {crc' : Bytes} (hlen : crc'.length = 4) (hne : crc' ≠ frame.drop (total frame)) :
      FrameCorrupted frame (frame.take (total frame) ++ crc')

variable {crc32 : Bytes → UInt32} {p : Packet} {frame data : Bytes}

/-- The encoder writes both checksums when it is asked for one. -/
theorem checksummed_of_encode (h : Bin.encode crc32 p true = .ok frame) :
    Checksummed crc32 frame := by
  have ⟨body, fields, _, hfields, hframe⟩ := Bin.encode_eq_ok h
  have hmod := hfields.payloadLen_mod
  have hassoc : frame = fields.bytes crc32 ++
      (body ++ trailerOf crc32 true (fields.bytes crc32 ++ body)) :=
    hframe.trans (List.append_assoc _ _ _)
  have htail : trailerOf crc32 true (fields.bytes crc32 ++ body) =
      BigEndian.toBytes 4 (crc32 (fields.bytes crc32 ++ body)).toNat ++ [] :=
    (List.append_nil _).symm
  constructor
  · rw [hassoc]
    exact headerCrcOk_bytes
  · rw [HasTrailer, hassoc, flags_bytes, Nat.mod_eq_of_lt hfields.flags_lt]
    exact (Bin.wireFlags_trailer (fun hfalse => Bool.noConfusion hfalse) hfields.flags_eq).mpr rfl
  · rw [hframe, Bin.total_of_encode hmod, List.length_append, trailerOf, if_pos rfl,
      BigEndian.toBytes_length]
  · rw [hframe, htail]
    exact trailerCrcOk_bytes hmod

/-! ## Damage -/

/-- What a frame says about itself stands in its first 48 bytes. -/
theorem total_congr {n : Nat} (hn : 48 ≤ n) (htake : data.take n = frame.take n) :
    total data = total frame ∧ (HasTrailer data ↔ HasTrailer frame) := by
  have hfield : ∀ {a b : Nat}, b ≤ n → field data a b = field frame a b := by
    intro a b hb
    rw [← field_take hb, htake, field_take hb]
  constructor
  · rw [total, total, payloadLen, payloadLen, hfield hn]
  · rw [HasTrailer, HasTrailer, flags, flags, hfield (by omega)]

/-- The trailer of a frame whose covered bytes and trailer are known. -/
theorem trailerCrcOk_append {covered crc : Bytes} (hcovered : covered.length = total (covered ++ crc))
    (hcrc : crc.length = 4) :
    TrailerCrcOk crc32 (covered ++ crc) ↔ BigEndian.ofBytes crc = (crc32 covered).toNat := by
  have hfield : field (covered ++ (crc ++ [])) covered.length (covered.length + 4) = crc :=
    field_append rfl (by rw [hcrc])
  rw [List.append_nil] at hfield
  rw [TrailerCrcOk, ← hcovered, hfield, List.take_left]

/-- A burst that spares the first 48 bytes, or another trailer, is caught by the trailer;
any other burst ends before the header checksum, which catches it. -/
theorem FrameCorrupted.caught (h : FrameCorrupted frame data)
    (hframe : Checksummed Crc32.ieee frame) :
    ¬ HeaderCrcOk Crc32.ieee data ∨
      (HasTrailer data ∧ data.length = total data + 4 ∧ ¬ TrailerCrcOk Crc32.ieee data) := by
  have hlength := hframe.length_eq
  have hheader : 56 ≤ total frame := Nat.le_add_right 56 _
  have hcovered : (frame.take (total frame)).length = total frame := by
    rw [List.length_take]
    omega
  have hcrc : (frame.drop (total frame)).length = 4 := by
    rw [List.length_drop]
    omega
  have hsplit : frame.take (total frame) ++ frame.drop (total frame) = frame :=
    List.take_append_drop _ _
  have hright : BigEndian.ofBytes (frame.drop (total frame)) =
      (Crc32.ieee (frame.take (total frame))).toNat := by
    have hok := hframe.trailerCrc
    rw [← hsplit] at hok
    exact (trailerCrcOk_append (hcovered.trans (congrArg total hsplit.symm)) hcrc).mp hok
  cases h with
  | @burst covered' hburst =>
      have hlen : covered'.length = total frame := hburst.length_eq.trans hcovered
      rcases hburst.take_eq_or_drop_eq (a := 48) (b := 52) (by decide) with hspared | hearly
      · right
        -- the frame still says the same about itself
        have htake : (covered' ++ frame.drop (total frame)).take 48 = frame.take 48 := by
          rw [List.take_append_of_le_length (by omega), hspared, List.take_take,
            Nat.min_eq_left (by omega)]
        have ⟨htotal, hflag⟩ := total_congr le_rfl htake
        refine ⟨hflag.mpr hframe.hasTrailer, ?_, fun hok => ?_⟩
        · rw [htotal, List.length_append, hlen, hcrc]
        · have hwrong := (trailerCrcOk_append (hlen.trans htotal.symm) hcrc).mp hok
          exact Crc32.ieee_ne_of_burst hburst (UInt32.toNat_inj.mp (hwrong.symm.trans hright))
      · left
        have hburst52 : Crc32.Burst 32 (frame.take 52) (covered'.take 52) := by
          have hcut := hburst.take hearly
          rwa [List.take_take, Nat.min_eq_left (by omega)] at hcut
        have hdata : covered' ++ frame.drop (total frame) = covered'.take 52 ++ frame.drop 52 := by
          conv_lhs => rw [← List.take_append_drop 52 covered', hearly]
          rw [List.append_assoc, ← List.drop_append_of_le_length (by omega), hsplit]
        rw [hdata]
        exact (HeaderCorrupted.burst hburst52).not_headerCrc (by omega) hframe.headerCrc
  | @trailer crc' hlen hne =>
      right
      have htake : (frame.take (total frame) ++ crc').take (total frame) =
          frame.take (total frame) := List.take_left' hcovered
      have ⟨htotal, hflag⟩ := total_congr (by omega) htake
      refine ⟨hflag.mpr hframe.hasTrailer, ?_, fun hok => ?_⟩
      · rw [htotal, List.length_append, hcovered, hlen]
      · have hwrong := (trailerCrcOk_append (hcovered.trans htotal.symm) hlen).mp hok
        exact hne (BigEndian.ofBytes_inj (hlen.trans hcrc.symm) (hwrong.trans hright.symm))

/-! ## Both decoders -/

/-- The Rust decoder that checks checksums refuses a frame whose trailer is wrong. -/
theorem decode_err_of_not_trailerCrc {codec : AiclCodec} (hcheck : codec.checkCrc = true)
    (hflag : HasTrailer data) (hcrc : ¬ TrailerCrcOk crc32 data) :
    ∃ e, codec.decode crc32 data = .err e := by
  have herr : ∃ e, validateHeader crc32 codec.maxPayload codec.checkCrc data = .err e := by
    by_cases hbare : HeaderOnly crc32 data
    · rw [CoreRust.validateHeader_headerOnly codec hbare, if_pos hflag]
      exact ⟨_, rfl⟩
    · have hdecides := CoreRust.validateHeader_decides codec hbare
      cases hval : validateHeader crc32 codec.maxPayload codec.checkCrc data with
      | ok u =>
          have hvalid := hdecides.eq_ok_iff.mp hval
          exact absurd ((hvalid.trailer hflag).2 hcheck) hcrc
      | err e => exact ⟨e, rfl⟩
      | panic =>
          rw [hval] at hdecides
          exact hdecides.elim
  have ⟨e, he⟩ := herr
  unfold AiclCodec.decode AiclCodec.view
  rw [he]
  exact ⟨e, rfl⟩

/-- The Python decoder raises an exception of its package for a frame with a wrong
checksum. -/
theorem decode_raises_of_wrong (h : ¬ HeaderCrcOk crc32 data ∨
    (HasTrailer data ∧ data.length = total data + 4 ∧ ¬ TrailerCrcOk crc32 data)) :
    ∃ e : PyError, e.IsPackage ∧ Bin.decode crc32 data = .err e := by
  have hrefused : ¬ Bin.FrameOk crc32 data := by
    intro hok
    rcases h with hheader | ⟨_, hlength, hcrc⟩
    · exact hheader hok.header.headerCrc
    · exact hcrc (hok.trailer (by omega)).2
  have hwhole : ¬ Bin.CutTrailer crc32 data := by
    intro hcut
    have ⟨hok, _, hshort⟩ := hcut
    rcases h with hheader | ⟨_, hlength, _⟩
    · exact hheader hok.headerCrc
    · rw [hlength] at hshort
      exact Nat.lt_irrefl _ hshort
  have hsat := Bin.decode_refused hrefused
  cases hval : Bin.decode crc32 data with
  | ok v =>
      rw [hval] at hsat
      exact hsat.elim
  | err e =>
      rw [hval] at hsat
      rcases hsat with ⟨hpackage, _⟩ | ⟨_, hcut⟩
      · exact ⟨e, hpackage, rfl⟩
      · exact absurd hcut hwhole
  | panic => exact absurd hval (Bin.decode_ne_panic data)

/-- A frame that the Python package encoded with a checksum, and that was damaged by a
burst of up to 32 bits anywhere in front of its trailer or by any change of the trailer, is
refused by the Python decoder, with an exception of the package, and by every Rust codec
that checks checksums, with an error. -/
theorem corrupted_refused (p : Packet) {frame data : Bytes}
    (hencode : Bin.encode Crc32.ieee p true = .ok frame) (hcorrupted : FrameCorrupted frame data) :
    (∃ e : PyError, e.IsPackage ∧ Bin.decode Crc32.ieee data = .err e) ∧
      ∀ codec : AiclCodec, codec.checkCrc = true →
        (∃ e, codec.decode Crc32.ieee data = .err e) ∧
          ∃ e, codec.decodeToPacket Crc32.ieee data = .err e := by
  have hcaught := hcorrupted.caught (checksummed_of_encode hencode)
  refine ⟨decode_raises_of_wrong hcaught, fun codec hcheck => ?_⟩
  have herr : ∃ e, codec.decode Crc32.ieee data = .err e := by
    rcases hcaught with hheader | ⟨hflag, _, hcrc⟩
    · exact CoreRust.decode_err_of_not_headerCrc codec hheader
    · exact decode_err_of_not_trailerCrc hcheck hflag hcrc
  have ⟨e, he⟩ := herr
  refine ⟨⟨e, he⟩, e, ?_⟩
  rw [AiclCodec.decodeToPacket, he]
  rfl

/-- The frame of a call, with its trailer. -/
def sampleFrame : Bytes := (Bin.encode Crc32.ieee samplePacket true).toOption.getD []

/-- The call with another operand count is refused. -/
theorem corrupted_refused_sample :
    (∃ e : PyError, e.IsPackage ∧ Bin.decode Crc32.ieee
      ((sampleFrame.take (total sampleFrame)).set 57 0xFF ++
        sampleFrame.drop (total sampleFrame)) = .err e) ∧
      ∀ codec : AiclCodec, codec.checkCrc = true →
        (∃ e, codec.decode Crc32.ieee ((sampleFrame.take (total sampleFrame)).set 57 0xFF ++
          sampleFrame.drop (total sampleFrame)) = .err e) ∧
          ∃ e, codec.decodeToPacket Crc32.ieee
            ((sampleFrame.take (total sampleFrame)).set 57 0xFF ++
              sampleFrame.drop (total sampleFrame)) = .err e := by
  have hok : (Bin.encode Crc32.ieee samplePacket true).isOk = true := by decide +kernel
  have ⟨frame, hframe⟩ := Outcome.isOk_iff.mp hok
  have hsample : sampleFrame = frame := by
    rw [sampleFrame, hframe]
    rfl
  apply corrupted_refused samplePacket (hsample ▸ hframe)
  apply FrameCorrupted.burst
  exact ⟨by decide +kernel, by decide +kernel, 57 * 8, by decide +kernel, by decide +kernel⟩

end Aicl.Interop
