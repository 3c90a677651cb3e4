import Aicl.CoreRust.PacketRoundTrip
import Aicl.Interop.Decoders

/-!
# From the Rust encoder to the Python decoder

A packet of the Rust core that is encoded and read by the Python package.  The
encoder allows payloads of 16 MiB and compares a length that was cut to 32 bits;
the Python decoder refuses every declared length above {lit}`0xFFFFFF`.

Main results:

- Theorem {lit}`decode_encode_iff`: the Python package reads the packet exactly
  when its payload keeps the limit of the Python package.
-/

namespace Aicl.Interop

open CoreRust (AiclPacket AiclCodec AiclOpcode Operand headerOf payloadBytes encode_eq_ok_iff
  encryptedNop toOperands wireSizes encodeLen)
open Bin (FrameOk Holds region decode_eq_ok_iff maxTlvValueSize valuesOf)
open Isa (Tree DerivesList Payload IsNull IsNullOrReserved)
open Isa.Frame

variable {crc32 : Bytes → UInt32} {uuidV4 : CoreRust.Id16} {pkt : AiclPacket}

/-! ## Packets without vendor operands -/

/-- An operand without vendor operands is none itself. -/
theorem vendor?_of_notVendor {op : Operand} (h : op.All Operand.NotVendor) : vendor? op = none := by
  have hself := Nested.All.self h
  cases op with
  | vendor tag data => exact hself.elim
  | _ => rfl

/-- No bytes under any tag, no vendor operands. -/
theorem eq_nil_of_valuesOf {pairs : List (UInt8 × Bytes)} (h : ∀ tag, valuesOf tag pairs = []) :
    pairs = [] := by
  cases pairs with
  | nil => rfl
  | cons e pairs =>
      have hhead := h e.1
      simp [valuesOf] at hhead

/-- Operands all of which are not vendor operands. -/
theorem filter_vendor?_of_filterMap_eq_nil {ops : List Operand} (h : ops.filterMap vendor? = []) :
    ops.filter (fun op => (vendor? op).isNone) = ops := by
  rw [List.filter_eq_self]
  intro op hop
  rw [List.filterMap_eq_nil_iff] at h
  rw [h op hop]
  rfl

/-- Two packets that hold the same message as one view have the same operands, if
the first has no vendor operands. -/
theorem SameContents.operands_eq {p q : AiclPacket} {v : Bin.PacketView} (hp : SameContents p v)
    (hq : SameContents q v) (h : ∀ op ∈ p.operands, op.All Operand.NotVendor) :
    q.operands = p.operands := by
  have hvendor : p.operands.filterMap vendor? = [] :=
    List.filterMap_eq_nil_iff.mpr fun op hop => vendor?_of_notVendor (h op hop)
  have hnone : q.operands.filterMap vendor? = [] := by
    refine eq_nil_of_valuesOf fun tag => ?_
    rw [← hq.extensions, hp.extensions, hvendor]
    rfl
  have hsymbols := hq.symbols.symm.trans hp.symbols
  rw [filter_vendor?_of_filterMap_eq_nil hnone, filter_vendor?_of_filterMap_eq_nil hvendor]
    at hsymbols
  exact List.map_injective_iff.mpr (fun op op' => operandToSymbol_injective op op') hsymbols

/-! ## The frame of a packet -/

/-- A view reads at most four bytes beyond the payload. -/
theorem region_length_le (data : Bytes) : (region data).length ≤ payloadLen data + 4 := by
  unfold region Bin.payloadEnd field
  have hend : (if total data < data.length then total data + Bin.checksumSize else total data) ≤
      total data + 4 := by
    split
    · exact Nat.le_refl _
    · exact Nat.le_add_right _ _
  refine (List.length_take_le _ _).trans (Nat.sub_le_of_le_add (hend.trans ?_))
  simp only [total, Bin.headerSize]
  omega

/-- The operands of a view of a packet fit what the view reads. -/
theorem payloadSize_le_of_holds {data : Bytes} {ts : List Tree} (hholds : Holds (region data) ts)
    (hops : pkt.operands = toOperands ts) : pkt.payloadSize ≤ payloadLen data + 4 := by
  have hregion := region_length_le data
  rcases hholds with ⟨_, rfl⟩ | ⟨opcode, b, post, hsplit, hb⟩
  · have hsize : pkt.payloadSize = 2 := by
      rw [AiclPacket.payloadSize, hops]
      rfl
    omega
  · have hsize := CoreRust.payloadSize_le (hb.mono IsNull.orReserved) hops
    rw [hsplit, List.length_append] at hregion
    omega

/-- What a view holds was written as operands of the instruction set. -/
theorem derivesList_of_holds {bytes : Bytes} {ts : List Tree} (h : Holds bytes ts) :
    ∃ b, DerivesList IsNull ts b := by
  rcases h with ⟨_, rfl⟩ | ⟨_, _, _, _, hb⟩
  · exact ⟨[], .nil⟩
  · cases hb with
    | mk _ hts => exact ⟨_, hts⟩

/-- The operands of a packet that holds the same message as the view of a frame
are those that the view reads. -/
theorem operands_of_view {data : Bytes} (hle : CoreRust.headerSize ≤ data.length) {ts : List Tree}
    (hholds : Holds (region data) ts) (hsame : SameContents pkt (Bin.viewOf data ts))
    (hvendor : ∀ op ∈ pkt.operands, op.All Operand.NotVendor) : pkt.operands = toOperands ts := by
  obtain ⟨b, hts⟩ := derivesList_of_holds hholds
  exact (hsame.operands_eq (sameContents_of_tree hle hsame.opcode hts) hvendor).symm

/-- The Python package reads an encoded packet exactly when its payload keeps the
limit of the Python package. -/
theorem decode_encode_iff (crc32 : Bytes → UInt32) (uuidV4 : CoreRust.Id16) (pkt : AiclPacket)
    (hid : pkt.messageId.isSome) (hop : pkt.opcode.Assigned)
    (hvendor : ∀ op ∈ pkt.operands, op.All Operand.NotVendor)
    (hflag : pkt.flags.bits &&& 0x0100 = 0) {frame : Bytes}
    (hencode : AiclCodec.new.encode crc32 uuidV4 pkt = .ok frame) :
    (∃ v, Bin.decode crc32 frame = .ok v ∧ SameContents pkt v) ↔
      pkt.payloadSize ≤ maxTlvValueSize := by
  have hlen := CoreRust.payloadBytes_length hvendor
  obtain ⟨hlimit, hframe_eq⟩ := encode_eq_ok_iff.mp hencode
  have hdeclared : payloadLen frame = (payloadBytes pkt).length % 2 ^ 32 := by
    rw [hframe_eq, CoreRust.payloadLen_headerOf]
    exact UInt32.toNat_ofNat'
  constructor
  · rintro ⟨v, hv, hsame⟩
    obtain ⟨hframe, ts, hholds, rfl⟩ := decode_eq_ok_iff.mp hv
    have hdeclared_le := hframe.header.limit
    -- what the view reads is not larger than the declared length, so that was not cut
    have hsize := payloadSize_le_of_holds hholds
      (operands_of_view hframe.header.length_le hholds hsame hvendor)
    rw [← hlen] at hsize ⊢
    simp only [maxTlvValueSize] at hdeclared_le ⊢
    rwa [hdeclared, Nat.mod_eq_of_lt (by omega)] at hdeclared_le
  · intro hsize
    have hmax : pkt.payloadSize ≤ CoreRust.maxPayloadSize := hsize.trans (by decide)
    have hdecode := CoreRust.decodeToPacket_of_keeps hid hop hvendor hencode hflag hmax
    rw [← hlen] at hsize hmax
    obtain ⟨htotal, hpayload⟩ := @CoreRust.payload_headerOf crc32 uuidV4 _ hmax
    obtain ⟨ts, hts, _⟩ := CoreRust.payloadBytes_payload hvendor (hmax.trans_lt (by decide))
    rw [← hframe_eq] at htotal hpayload
    have hversion : version frame = 0x0100 := by
      rw [hframe_eq, version_bytes]
      rfl
    have hheader : Bin.HeaderOk crc32 frame := by
      refine headerOk_iff.mpr ⟨hframe_eq ▸ CoreRust.preludeOk_headerOf, hversion, ?_⟩
      rw [hdeclared]
      exact (Nat.mod_le _ _).trans hsize
    have hframe : FrameOk crc32 frame :=
      ⟨hheader, Nat.le_of_eq htotal, fun hlong => absurd htotal (Nat.ne_of_lt hlong)⟩
    have hv := decode_eq_ok_iff.mpr ⟨hframe, ts, holds_region (hpayload.symm ▸ hts), rfl⟩
    exact ⟨_, hv, sameContents_of_ok hdecode hv⟩

/-- The Python package reads the frame of a request without operands. -/
theorem decode_encode_nop :
    ∃ frame, AiclCodec.new.encode Crc32.ieee .zero { encryptedNop with flags := .request } =
        .ok frame ∧
      ∃ v, Bin.decode Crc32.ieee frame = .ok v ∧
        SameContents { encryptedNop with flags := .request } v :=
  ⟨_, rfl, (decode_encode_iff Crc32.ieee .zero { encryptedNop with flags := .request } rfl
    trivial (by simp [encryptedNop]) rfl rfl).mpr (by decide)⟩

/-- A request with one byte string. -/
def bytesRequest (data : Bytes) : AiclPacket :=
  { encryptedNop with
    flags := .request
    operands := [.bytes data]
    sorted := by
      simp only [List.forall_mem_cons]
      exact ⟨.of_leaf trivial trivial, by simp⟩ }

/-- The operand of that request is no vendor operand. -/
theorem bytesRequest_notVendor (data : Bytes) :
    ∀ op ∈ (bytesRequest data).operands, op.All Operand.NotVendor := by
  simp only [bytesRequest, List.forall_mem_cons]
  exact ⟨.of_leaf trivial trivial, by simp⟩

/-- The size of that request: opcode, operand count, tag and length come before
the byte string. -/
theorem bytesRequest_payloadSize (data : Bytes) :
    (bytesRequest data).payloadSize = 3 + (encodeLen data.length).length + data.length := by
  have hcount : (encodeLen 1).length = 1 := by decide
  simp only [AiclPacket.payloadSize, bytesRequest, List.length_cons, List.length_nil, wireSizes,
    CoreRust.wireSize, Nat.zero_add, hcount]
  omega

/-- The largest payload of the Rust core is refused by the Python package. -/
theorem decode_refuses_largest :
    ¬ ∀ (pkt : AiclPacket) (frame : Bytes), pkt.messageId.isSome → pkt.opcode.Assigned →
      (∀ op ∈ pkt.operands, op.All Operand.NotVendor) → pkt.flags.bits &&& 0x0100 = 0 →
        AiclCodec.new.encode Crc32.ieee .zero pkt = .ok frame →
          ∃ v, Bin.decode Crc32.ieee frame = .ok v ∧ SameContents pkt v := by
  intro h
  obtain ⟨data, hdata⟩ : ∃ data : Bytes, data.length = 16777209 :=
    ⟨List.replicate 16777209 0, List.length_replicate⟩
  have hprefix : (encodeLen 16777209).length = 4 := by decide
  have hlen : (payloadBytes (bytesRequest data)).length = 16777216 := by
    rw [CoreRust.payloadBytes_length (bytesRequest_notVendor data), bytesRequest_payloadSize,
      hdata, hprefix]
  have hdeclared : (headerOf .zero (bytesRequest data)).payloadLen = 16777216 := by
    simp only [headerOf, hlen]
    rfl
  have hencode := (@encode_eq_ok_iff Crc32.ieee _ _ _ _).mpr
    ⟨hdeclared.trans_le (show 16777216 ≤ AiclCodec.new.maxPayload by decide), rfl⟩
  have hflag : CoreRust.AiclFlags.request.bits &&& 0x0100 = 0 := by decide
  obtain ⟨v, hv, _⟩ :=
    h (bytesRequest data) _ rfl trivial (bytesRequest_notVendor data) hflag hencode
  have hlimit := (decode_eq_ok_iff.mp hv).1.header.limit
  rw [CoreRust.payloadLen_headerOf, hdeclared] at hlimit
  exact absurd hlimit (by decide)

end Aicl.Interop
