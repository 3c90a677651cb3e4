import Aicl.Bin.ReadBack

/-!
# Frames that lose their trailer

The decoder of the Python package looks for a trailer where the frame goes on
after its payload, and not where the flags announce one.  A frame of the encoder
that is cut off right after its payload is read without its checksum.

Main results:

- Theorem {lit}`decode_take_isOk_iff`: the proper prefixes of a frame with a
  checksum that are read.
- Theorem {lit}`decode_keepsTrailer_iff`: when a frame that is read still has its
  trailer, and when no prefix of a frame is read.
-/

namespace Aicl.Bin

open Isa (Payload IsNull)
open Isa.Frame

variable {crc32 : Bytes → UInt32} {p : Packet} {frame : Bytes}

/-- A frame whose flags announce a trailer has one, and it is the checksum of
what stands before it. -/
def KeepsTrailer (crc32 : Bytes → UInt32) (data : Bytes) : Prop :=
  HasTrailer data → total data + checksumSize ≤ data.length ∧ TrailerCrcOk crc32 data

/-- A frame that meets the conditions of the decoder has lost its trailer exactly
when it ends with its payload. -/
theorem FrameOk.keepsTrailer_iff {data : Bytes} (h : FrameOk crc32 data) :
    KeepsTrailer crc32 data ↔ ¬ (HasTrailer data ∧ data.length = total data) := by
  constructor
  · intro hkeeps ⟨hflag, hend⟩
    have hroom := (hkeeps hflag).1
    simp only [checksumSize] at hroom
    omega
  · intro hlost hflag
    have hcomplete := h.complete
    apply h.trailer
    by_cases hend : data.length = total data
    · exact absurd ⟨hflag, hend⟩ hlost
    · omega

/-! ## Prefixes of a frame -/

/-- A frame with given fields around a payload is read when the payload keeps the
limit of the decoder. -/
theorem decode_of_payload {fields : Isa.Frame.Header} {body : Bytes} {opcode : UInt8}
    {ts : List Isa.Tree} (checksum : Bool) (hversion : fields.version = 0x0100)
    (hlen : fields.payloadLen % 2 ^ 32 = body.length) (hlimit : body.length ≤ maxTlvValueSize)
    (hbody : Payload IsNull opcode ts body) :
    ∃ v, decode crc32 ((fields.bytes crc32 ++ body) ++
      trailerOf crc32 checksum (fields.bytes crc32 ++ body)) = .ok v := by
  have hholds : Holds (region ((fields.bytes crc32 ++ body) ++
      trailerOf crc32 checksum (fields.bytes crc32 ++ body))) ts := by
    rw [region_of_encode hlen]
    exact .inr ⟨opcode, body, _, rfl, hbody⟩
  exact ⟨_, decode_eq_ok_iff.mpr ⟨frameOk_of_encode hversion hlen hlimit, ts, hholds, rfl⟩⟩

/-- The fields of the header are those of every prefix that contains it. -/
theorem payloadLen_take {data : Bytes} {n : Nat} (h : headerSize ≤ n) :
    payloadLen (data.take n) = payloadLen data := by
  apply congrArg BigEndian.ofBytes
  apply field_take
  exact le_trans (by decide) h

/-- A frame with a checksum: header, payload of the declared length, and four
bytes after them. -/
theorem encode_checksum_parts (h : encode crc32 p true = .ok frame) :
    ∃ (body : Bytes) (fields : Isa.Frame.Header), p.buildPayload = .ok body ∧
      fields.version = 0x0100 ∧
      fields.payloadLen % 2 ^ 32 = body.length ∧ payloadLen frame = body.length ∧
      frame.take (total frame) = fields.bytes crc32 ++ body ∧
      frame.length = total frame + checksumSize := by
  have ⟨body, fields, hbody, hfields, hframe⟩ := encode_eq_ok h
  have hmod := hfields.payloadLen_mod
  have htotal : total frame = (fields.bytes crc32 ++ body).length := by
    rw [hframe, List.append_assoc]
    exact total_bytes hmod
  refine ⟨body, fields, hbody, hfields.version_eq, hmod, ?_, ?_, ?_⟩
  · rw [hframe, hfields.declared]
  · rw [htotal, hframe, List.take_left]
  · rw [htotal, hframe, List.length_append, trailerOf, if_pos rfl, BigEndian.toBytes_length,
      checksumSize]

/-- The proper prefixes of a frame with a checksum that are read: the one that
ends with the payload, when the payload keeps the limit of the decoder. -/
theorem decode_take_isOk_iff (h : encode crc32 p true = .ok frame) {n : Nat}
    (hn : n < frame.length) :
    (∃ v, decode crc32 (frame.take n) = .ok v) ↔
      n = total frame ∧ payloadLen frame ≤ maxTlvValueSize := by
  rcases encode_checksum_parts h with ⟨body, fields, hbody, hversion, hmod, hdeclared, htake, hlength⟩
  constructor
  · rintro ⟨v, hv⟩
    have hok := (decode_eq_ok_iff.mp hv).1
    have hcut : (frame.take n).length = n := List.length_take_of_le hn.le
    have hheader : headerSize ≤ n := hcut ▸ hok.header.length_le
    have hsame : total (frame.take n) = total frame := by
      rw [total, total, payloadLen_take hheader]
    have hcomplete := hok.complete
    have hlimit := hok.header.limit
    rw [hcut, hsame] at hcomplete
    rw [payloadLen_take hheader] at hlimit
    refine ⟨?_, hlimit⟩
    by_contra hne
    have hlong : total (frame.take n) < (frame.take n).length := by omega
    have hroom := (hok.trailer hlong).1
    rw [hcut, hsame] at hroom
    omega
  · rintro ⟨hend, hlimit⟩
    have hcut : frame.take n = (fields.bytes crc32 ++ body) ++
        trailerOf crc32 false (fields.bytes crc32 ++ body) := by
      rw [hend, htake]
      exact (List.append_nil _).symm
    rw [hdeclared] at hlimit
    rcases buildPayload_spells hbody (hlimit.trans_lt (by decide)) with ⟨_, _, _, hpayload, _⟩
    rw [hcut]
    exact decode_of_payload false hversion hmod hlimit hpayload

/-- A frame that is read has lost the trailer that its flags announce exactly when
it ends with its payload.  No proper prefix of a frame with a checksum is read
exactly when the payload is above the limit of the decoder. -/
theorem decode_keepsTrailer_iff :
    (∀ data v, decode crc32 data = .ok v →
      (KeepsTrailer crc32 data ↔ ¬ (HasTrailer data ∧ data.length = total data))) ∧
    ∀ (p : Packet) (payload frame : Bytes), p.buildPayload = .ok payload →
      encode crc32 p true = .ok frame →
        ((∀ n < frame.length, ∀ v, decode crc32 (frame.take n) ≠ .ok v) ↔
          maxTlvValueSize < payload.length) := by
  constructor
  · intro data v hv
    exact (decode_eq_ok_iff.mp hv).1.keepsTrailer_iff
  · intro p payload frame hpayload hframe
    rcases encode_checksum_parts hframe with ⟨body, _, hbody, _, _, hdeclared, _, hlength⟩
    cases hpayload.symm.trans hbody
    have hshorter : total frame < frame.length := by
      rw [hlength, checksumSize]
      omega
    constructor
    · intro hnone
      by_contra hlimit
      rcases (decode_take_isOk_iff hframe hshorter).mpr ⟨rfl, by omega⟩ with ⟨v, hv⟩
      exact hnone _ hshorter v hv
    · intro hlarge n hn v hv
      have hread := (decode_take_isOk_iff hframe hn).mp ⟨v, hv⟩
      omega

/-- A frame with a checksum is read after its last four bytes are gone, although
its flags announce them. -/
theorem decode_without_trailer :
    ∃ frame v, encode Crc32.ieee numberPacket true = .ok frame ∧
      HasTrailer (frame.take (frame.length - 4)) ∧
      decode Crc32.ieee (frame.take (frame.length - 4)) = .ok v ∧
      (frame.take (frame.length - 4)).length = total (frame.take (frame.length - 4)) ∧
      ¬ KeepsTrailer Crc32.ieee (frame.take (frame.length - 4)) := by
  have hrun : (do
      let frame ← encode Crc32.ieee numberPacket true
      let cut := frame.take (frame.length - 4)
      raiseIf (¬ (HasTrailer cut ∧ cut.length = total cut)) .decodeError ""
      decode Crc32.ieee cut).isOk = true := by
    decide +kernel
  have ⟨v, hrun⟩ := Outcome.isOk_iff.mp hrun
  have ⟨frame, hframe, hrun⟩ := Outcome.bind_eq_ok_iff.mp hrun
  have ⟨_, hends, hv⟩ := Outcome.bind_eq_ok_iff.mp hrun
  have ⟨hflag, hend⟩ := not_not.mp (Outcome.failIf_eq_ok_iff.mp hends)
  refine ⟨frame, v, hframe, hflag, hv, hend, ?_⟩
  intro hkeeps
  have hroom := (hkeeps hflag).1
  rw [← hend, checksumSize] at hroom
  omega

end Aicl.Bin
