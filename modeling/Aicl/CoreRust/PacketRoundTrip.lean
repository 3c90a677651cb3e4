import Aicl.CoreRust.DecoderProperties

/-!
# Packet round trips

What the packet encoder of the Rust core writes, and when the decoder reads it
back.  The encoder copies all flags and writes no trailer; the decoder takes the
flag {lit}`0x0100` for the announcement of one.  The encoder checks the payload
length after it was cut to 32 bits.

Main results:

- Theorem {lit}`encode_eq`: the frame of a packet, header and payload.
- Theorem {lit}`decodeToPacket_encode_iff`: an encoded packet is read back exactly
  when its flags announce no trailer and its payload keeps the limit.
- Theorem {lit}`decodeToPacket_relay`: a received packet is sent on as it is.
-/

namespace Aicl.CoreRust

open Isa (Varint Tree DerivesList IsNull IsNullOrReserved Payload)
open Isa.Frame

/-! ## The frame of a packet -/

/-- The payload that the encoder appends. -/
def payloadBytes (pkt : AiclPacket) : Bytes :=
  pkt.opcode.toU8 :: (encodeLen pkt.operands.length ++ encodeItems pkt.operands)

/-- The header that the encoder fills in. -/
def headerOf (uuidV4 : Id16) (pkt : AiclPacket) : Header where
  version := isaVersion.toNat
  flags := pkt.flags.bits.toNat
  messageId := (pkt.messageId.getD uuidV4).bytes
  correlationId := pkt.correlationId.bytes
  deadlineMs := pkt.deadlineMs.toNat
  payloadLen := (UInt32.ofNat (payloadBytes pkt).length).toNat
  messageId_length := (pkt.messageId.getD uuidV4).length_eq
  correlationId_length := pkt.correlationId.length_eq

/-- Overwriting the bytes after a prefix. -/
theorem overwrite_append {pre old post new : Bytes} {pos : Nat} (hpos : pre.length = pos)
    (hlen : old.length = new.length) :
    overwrite (pre ++ (old ++ post)) pos new = (pre ++ new) ++ post := by
  subst hpos
  unfold overwrite
  rw [List.take_left, ← hlen, ← List.append_assoc pre old post, List.drop_left' (by simp),
    List.append_assoc]

/-- Filling in the fields one after the other writes the header. -/
theorem overwrite_header (crc32 : Bytes → UInt32) (out body : Bytes) (h : Header) :
    let start := out.length
    let filled := overwrite (overwrite (overwrite (overwrite (overwrite (overwrite (overwrite
      (out ++ (List.replicate headerSize 0 ++ body)) start magic)
      (start + 4) (BigEndian.toBytes 2 h.version))
      (start + 6) (BigEndian.toBytes 2 h.flags))
      (start + 8) h.messageId)
      (start + 24) h.correlationId)
      (start + 40) (BigEndian.toBytes 4 h.deadlineMs))
      (start + 44) (BigEndian.toBytes 4 h.payloadLen)
    overwrite filled (start + 52)
        (BigEndian.toBytes 4 (crc32 ((filled.drop start).take 52)).toNat) =
      out ++ (h.bytes crc32 ++ body) := by
  have hzeros : List.replicate headerSize 0 ++ body =
      List.replicate 4 0 ++ (List.replicate 2 0 ++ (List.replicate 2 0 ++
        (List.replicate 16 0 ++ (List.replicate 16 0 ++ (List.replicate 4 0 ++
          (List.replicate 4 0 ++ (List.replicate 4 0 ++ (List.replicate 4 0 ++ body)))))))) := rfl
  have hmagic : magic.length = 4 := rfl
  have hmid := h.messageId_length
  have hcid := h.correlationId_length
  intro start filled
  have hfilled : filled =
      (out ++ h.covered) ++ (List.replicate 4 0 ++ body) := by
    simp only [filled, start, hzeros]
    rw [overwrite_append rfl (by simp [hmagic]), overwrite_append (by simp [hmagic]) (by simp),
      overwrite_append (by simp [hmagic]) (by simp),
      overwrite_append (by simp [hmagic]) (by simp [hmid]),
      overwrite_append (by simp [hmagic, hmid]) (by simp [hcid]),
      overwrite_append (by simp [hmagic, hmid, hcid]) (by simp),
      overwrite_append (by simp [hmagic, hmid, hcid]) (by simp)]
    simp only [Header.covered, List.append_assoc]
    rfl
  have hcovered : (filled.drop start).take 52 = h.covered := by
    rw [hfilled, List.append_assoc, List.drop_left, List.take_left' h.covered_length]
  rw [hcovered, hfilled, overwrite_append (by simp [start]) (by simp), Header.bytes,
    List.append_assoc, List.append_assoc, List.append_assoc]

/-- The encoder appends the header and the payload of a packet within the limit,
and reports one above it. -/
theorem encodeInto_eq (crc32 : Bytes → UInt32) (codec : AiclCodec) (uuidV4 : Id16)
    (pkt : AiclPacket) (out : Bytes) :
    codec.encodeInto crc32 uuidV4 pkt out =
      if codec.maxPayload < (headerOf uuidV4 pkt).payloadLen then
        (out ++ (List.replicate headerSize 0 ++ payloadBytes pkt),
          .err (.new .payloadTooLarge
            s!"payload {UInt32.ofNat (payloadBytes pkt).length} > limit {codec.maxPayload}"))
      else (out ++ ((headerOf uuidV4 pkt).bytes crc32 ++ payloadBytes pkt), .ok ()) := by
  have hpayload : out ++ List.replicate headerSize 0 ++ [pkt.opcode.toU8] ++
      encodeLen pkt.operands.length ++ encodeItems pkt.operands =
        out ++ (List.replicate headerSize 0 ++ payloadBytes pkt) := by
    simp [payloadBytes]
  have hlen : (out ++ (List.replicate headerSize 0 ++ payloadBytes pkt)).length -
      (out ++ List.replicate headerSize 0).length = (payloadBytes pkt).length := by
    simp only [List.length_append]
    omega
  have hlimit : (headerOf uuidV4 pkt).payloadLen =
      (UInt32.ofNat (payloadBytes pkt).length).toNat := rfl
  unfold AiclCodec.encodeInto
  simp only [hpayload, hlen, hlimit]
  split
  · rfl
  · exact congrArg (fun out => (out, (Outcome.ok () : AiclResult Unit)))
      (overwrite_header crc32 out (payloadBytes pkt) (headerOf uuidV4 pkt))

/-- The frame of a packet: header and payload. -/
theorem encode_eq (crc32 : Bytes → UInt32) (codec : AiclCodec) (uuidV4 : Id16)
    (pkt : AiclPacket) :
    codec.encode crc32 uuidV4 pkt =
      if codec.maxPayload < (headerOf uuidV4 pkt).payloadLen then
        .err (.new .payloadTooLarge
          s!"payload {UInt32.ofNat (payloadBytes pkt).length} > limit {codec.maxPayload}")
      else .ok ((headerOf uuidV4 pkt).bytes crc32 ++ payloadBytes pkt) := by
  unfold AiclCodec.encode
  rw [encodeInto_eq]
  by_cases h : codec.maxPayload < (headerOf uuidV4 pkt).payloadLen
  · rw [if_pos h, if_pos h]
  · rw [if_neg h, if_neg h]
    rfl

/-- When the encoder returns a frame. -/
theorem encode_eq_ok_iff {crc32 : Bytes → UInt32} {codec : AiclCodec} {uuidV4 : Id16}
    {pkt : AiclPacket} {frame : Bytes} :
    codec.encode crc32 uuidV4 pkt = .ok frame ↔
      (headerOf uuidV4 pkt).payloadLen ≤ codec.maxPayload ∧
        frame = (headerOf uuidV4 pkt).bytes crc32 ++ payloadBytes pkt := by
  rw [encode_eq]
  split
  next h => simpa using fun hle => absurd hle (Nat.not_le_of_lt h)
  next h =>
    simp only [Outcome.ok.injEq]
    exact ⟨fun heq => ⟨Nat.le_of_not_lt h, heq.symm⟩, fun heq => heq.2.symm⟩

/-! ## The size of a payload -/

/-- The number of bytes that the payload of a packet needs: the opcode, the
operand count and the operands. -/
def AiclPacket.payloadSize (pkt : AiclPacket) : Nat :=
  1 + ((encodeLen pkt.operands.length).length + wireSizes pkt.operands)

/-- Operands without vendor operands are written in their sizes. -/
theorem encodeItems_length_eq {ops : List Operand} (h : ∀ op ∈ ops, op.All Operand.NotVendor) :
    (encodeItems ops).length = wireSizes ops := by
  induction ops with
  | nil => rfl
  | cons op ops ih =>
      rw [encodeItems_cons, List.length_append, wireSizes,
        encodeOperand_length op (h op List.mem_cons_self),
        ih fun x hx => h x (List.mem_cons_of_mem _ hx)]

/-- A payload without vendor operands is written in its size. -/
theorem payloadBytes_length {pkt : AiclPacket} (h : ∀ op ∈ pkt.operands, op.All Operand.NotVendor) :
    (payloadBytes pkt).length = pkt.payloadSize := by
  simp only [payloadBytes, AiclPacket.payloadSize, List.length_cons, List.length_append,
    encodeItems_length_eq h]
  omega

/-- No payload that is read as these operands is shorter than their size. -/
theorem payloadSize_le {pkt : AiclPacket} {byte : UInt8} {ts : List Tree} {b : Bytes}
    (h : Payload IsNullOrReserved byte ts b) (hops : pkt.operands = toOperands ts) :
    pkt.payloadSize ≤ b.length := by
  cases h with
  | mk hlen hts =>
      have hcount := encodeLen_length_le hlen (Nat.le_refl _)
      have hsizes := wireSizes_le hts
      simp only [AiclPacket.payloadSize, hops, toOperands_length, List.length_cons,
        List.length_append]
      omega

/-- A short payload without vendor operands is one of the instruction set. -/
theorem payloadBytes_payload {pkt : AiclPacket}
    (hvendor : ∀ op ∈ pkt.operands, op.All Operand.NotVendor)
    (hshort : (payloadBytes pkt).length < 2 ^ 28) :
    ∃ ts, Payload IsNull pkt.opcode.toU8 ts (payloadBytes pkt) ∧ pkt.operands = toOperands ts := by
  obtain ⟨hcount, hitems⟩ := @encodeItems_length pkt.operands
  simp only [payloadBytes, List.length_cons, List.length_append] at hshort
  obtain ⟨ts, hts, hops⟩ := encodeItems_spells fun op hop =>
    encodeOperand_spells op (pkt.sorted op hop)
      (all_short_of_length op (by have := hitems op hop; omega)) (hvendor op hop)
  have hlen : Varint ts.length (encodeLen pkt.operands.length) := by
    rw [← toOperands_length, ← hops]
    exact encodeLen_varint (by omega)
  exact ⟨ts, .mk hlen hts, hops⟩

/-! ## Reading a packet back -/

variable {crc32 : Bytes → UInt32} {uuidV4 : Id16} {pkt : AiclPacket} {rest : Bytes}

/-- The prelude of an encoded packet. -/
theorem preludeOk_headerOf :
    PreludeOk crc32 ((headerOf uuidV4 pkt).bytes crc32 ++ rest) where
  length_le := by simp [headerSize]
  magic_eq := field_magic
  major_eq := by
    have hversion : (headerOf uuidV4 pkt).version = 0x0100 := rfl
    calc version ((headerOf uuidV4 pkt).bytes crc32 ++ rest) / 256
        = 0x0100 % 2 ^ 16 / 256 := by rw [version_bytes, hversion]
      _ = 1 := rfl
  headerCrc := headerCrcOk_bytes

/-- The declared length of an encoded packet. -/
theorem payloadLen_headerOf :
    payloadLen ((headerOf uuidV4 pkt).bytes crc32 ++ rest) = (headerOf uuidV4 pkt).payloadLen := by
  rw [payloadLen_bytes]
  exact Nat.mod_eq_of_lt (UInt32.ofNat (payloadBytes pkt).length).toNat_lt

/-- The trailer flag of an encoded packet. -/
theorem hasTrailer_headerOf :
    HasTrailer ((headerOf uuidV4 pkt).bytes crc32 ++ rest) ↔ pkt.flags.bits &&& 0x0100 ≠ 0 := by
  have hmod : (headerOf uuidV4 pkt).flags % 2 ^ 16 = pkt.flags.bits.toNat :=
    Nat.mod_eq_of_lt pkt.flags.bits.toNat_lt
  rw [HasTrailer, flags_bytes, hmod, Ne, Ne, ← UInt16.toNat_inj, UInt16.toNat_and]
  rfl

/-- The packet of an encoded packet is that packet, its operands apart. -/
theorem packetOf_headerOf (hid : pkt.messageId.isSome) {ts : List Tree}
    (hops : pkt.operands = toOperands ts) :
    packetOf pkt.opcode ((headerOf uuidV4 pkt).bytes crc32 ++ rest) ts = pkt := by
  obtain ⟨id, hid⟩ := Option.isSome_iff_exists.mp hid
  refine AiclPacket.ext_data rfl ?_ ?_ ?_ ?_ hops.symm
  · simp only [packetOf, field_flags]
    exact congrArg AiclFlags.mk (readU16_writeU16 _)
  · simp only [packetOf, field_messageId, headerOf, hid, Option.getD_some, Id16.ofSlice_eq]
  · simp only [packetOf, field_correlationId, headerOf, Id16.ofSlice_eq]
  · simp only [packetOf, field_deadlineMs, headerOf]
    exact readU32_writeU32 _

/-- The payload of an encoded packet whose length was not cut. -/
theorem payload_headerOf (hsize : (payloadBytes pkt).length ≤ maxPayloadSize) :
    total ((headerOf uuidV4 pkt).bytes crc32 ++ payloadBytes pkt) =
        ((headerOf uuidV4 pkt).bytes crc32 ++ payloadBytes pkt).length ∧
      payload ((headerOf uuidV4 pkt).bytes crc32 ++ payloadBytes pkt) = payloadBytes pkt := by
  have hlen : (headerOf uuidV4 pkt).payloadLen = (payloadBytes pkt).length :=
    UInt32.toNat_ofNat_of_lt' (hsize.trans_lt (by decide))
  constructor
  · rw [total, payloadLen_headerOf, hlen, List.length_append, Header.bytes_length]
  · have hmod : (headerOf uuidV4 pkt).payloadLen % 2 ^ 32 = (payloadBytes pkt).length := by
      rw [hlen]
      exact Nat.mod_eq_of_lt (hsize.trans_lt (by decide))
    have hbody := @payload_bytes crc32 _ _ [] hmod
    simpa using hbody

/-- An encoded packet that announces no trailer and keeps the limit is a valid
frame that carries its operands. -/
theorem valid_encoded (hop : pkt.opcode.Assigned)
    (hvendor : ∀ op ∈ pkt.operands, op.All Operand.NotVendor)
    (hflag : pkt.flags.bits &&& 0x0100 = 0) (hsize : pkt.payloadSize ≤ maxPayloadSize) :
    Valid crc32 AiclCodec.new ((headerOf uuidV4 pkt).bytes crc32 ++ payloadBytes pkt) ∧
      ∃ ts, pkt.operands = toOperands ts ∧
        Carries ((headerOf uuidV4 pkt).bytes crc32 ++ payloadBytes pkt) pkt.opcode ts := by
  rw [← payloadBytes_length hvendor] at hsize
  obtain ⟨htotal, hpayload⟩ := @payload_headerOf crc32 uuidV4 _ hsize
  obtain ⟨ts, hts, hops⟩ := payloadBytes_payload hvendor (hsize.trans_lt (by decide))
  have hlenient := hts.mono Isa.IsNull.orReserved
  have hbyte := AiclOpcode.fromU8_toU8 hop
  have hfirst : ((headerOf uuidV4 pkt).bytes crc32 ++ payloadBytes pkt)[headerSize]? =
      some pkt.opcode.toU8 := by
    rw [List.getElem?_append_right (by simp [headerSize])]
    simp [headerSize, payloadBytes]
  refine ⟨⟨preludeOk_headerOf, ?_, Nat.le_of_eq htotal, ?_, ⟨_, hfirst, by rw [hbyte]; rfl⟩,
    ⟨_, ts, by rw [hpayload]; exact hlenient⟩⟩, ts, hops, _, by rw [hpayload]; exact hlenient,
    hbyte⟩
  · rw [payloadLen_headerOf]
    exact (UInt32.toNat_ofNat_of_lt' (hsize.trans_lt (by decide))).trans_le hsize
  · intro htrailer
    exact absurd hflag (hasTrailer_headerOf.mp htrailer)

/-- Such a packet is read back as itself. -/
theorem decodeToPacket_of_keeps (hid : pkt.messageId.isSome) (hop : pkt.opcode.Assigned)
    (hvendor : ∀ op ∈ pkt.operands, op.All Operand.NotVendor) {frame : Bytes}
    (hencode : AiclCodec.new.encode crc32 uuidV4 pkt = .ok frame)
    (hflag : pkt.flags.bits &&& 0x0100 = 0) (hsize : pkt.payloadSize ≤ maxPayloadSize) :
    AiclCodec.new.decodeToPacket crc32 frame = .ok pkt := by
  rw [(encode_eq_ok_iff.mp hencode).2]
  have ⟨hvalid, ts, hops, hc⟩ := @valid_encoded crc32 uuidV4 pkt hop hvendor hflag hsize
  rw [decodeToPacket_of_valid hvalid hc, packetOf_headerOf hid hops]

/-- Only such packets are read back as themselves. -/
theorem keeps_of_decodeToPacket (hvendor : ∀ op ∈ pkt.operands, op.All Operand.NotVendor)
    {frame : Bytes} (hencode : AiclCodec.new.encode crc32 uuidV4 pkt = .ok frame)
    (hdecode : AiclCodec.new.decodeToPacket crc32 frame = .ok pkt) :
    pkt.flags.bits &&& 0x0100 = 0 ∧ pkt.payloadSize ≤ maxPayloadSize := by
  have ⟨hlimit, hframe⟩ := encode_eq_ok_iff.mp hencode
  rw [hframe] at hdecode
  have ⟨hvalid, opcode, ts, hc, hpkt⟩ := decodeToPacket_eq_ok_iff.mp hdecode
  have ⟨byte, hpayload, _⟩ := hc
  have hops : pkt.operands = toOperands ts := congrArg AiclPacket.operands hpkt
  -- what was read back is not larger than the declared length
  have hsize : pkt.payloadSize ≤ maxPayloadSize := by
    refine (payloadSize_le hpayload hops).trans ?_
    rw [payload_length hvalid.complete, payloadLen_headerOf]
    exact hlimit
  refine ⟨?_, hsize⟩
  by_contra hflag
  have ⟨htrailer, _⟩ := hvalid.trailer (hasTrailer_headerOf.mpr hflag)
  rw [← payloadBytes_length hvendor] at hsize
  rw [(payload_headerOf hsize).1] at htrailer
  omega

/-- An encoded packet is read back as itself exactly when its flags announce no
trailer and its payload, before its length is cut to 32 bits, keeps the limit. -/
theorem decodeToPacket_encode_iff (crc32 : Bytes → UInt32) (uuidV4 : Id16) (pkt : AiclPacket)
    (hid : pkt.messageId.isSome) (hop : pkt.opcode.Assigned)
    (hvendor : ∀ op ∈ pkt.operands, op.All Operand.NotVendor) {frame : Bytes}
    (hencode : AiclCodec.new.encode crc32 uuidV4 pkt = .ok frame) :
    AiclCodec.new.decodeToPacket crc32 frame = .ok pkt ↔
      pkt.flags.bits &&& 0x0100 = 0 ∧ pkt.payloadSize ≤ maxPayloadSize := by
  constructor
  · exact keeps_of_decodeToPacket hvendor hencode
  · intro ⟨hflag, hsize⟩
    exact decodeToPacket_of_keeps hid hop hvendor hencode hflag hsize

/-- A request that is encrypted: its flags are {lit}`REQUEST` and
{lit}`ENCRYPTED`. -/
def encryptedNop : AiclPacket where
  opcode := .nop
  flags := ⟨AiclFlags.request.bits ||| AiclFlags.encrypted.bits⟩
  messageId := some .zero
  correlationId := .zero
  deadlineMs := 0
  operands := []
  sorted := by simp

/-- The round trip of a request without operands. -/
theorem decodeToPacket_encode_nop :
    ∃ frame, AiclCodec.new.encode Crc32.ieee .zero { encryptedNop with flags := .request } =
        .ok frame ∧
      (AiclCodec.new.decodeToPacket Crc32.ieee frame =
          .ok { encryptedNop with flags := .request } ↔
        AiclFlags.request.bits &&& 0x0100 = 0 ∧
          AiclPacket.payloadSize { encryptedNop with flags := .request } ≤ maxPayloadSize) :=
  ⟨_, rfl, decodeToPacket_encode_iff Crc32.ieee .zero { encryptedNop with flags := .request } rfl
    trivial (by simp [encryptedNop]) rfl⟩

/-- The frame of an encrypted request is refused: its trailer is missing. -/
theorem decode_refuses_encryptedNop :
    ¬ ∀ (pkt : AiclPacket) (frame : Bytes), pkt.messageId.isSome → pkt.opcode.Assigned →
      (∀ op ∈ pkt.operands, op.All Operand.NotVendor) →
        AiclCodec.new.encode Crc32.ieee .zero pkt = .ok frame →
          AiclCodec.new.decodeToPacket Crc32.ieee frame = .ok pkt := by
  intro h
  have hrefused : (AiclCodec.new.decodeToPacket Crc32.ieee
      ((headerOf .zero encryptedNop).bytes Crc32.ieee ++ payloadBytes encryptedNop)).isOk =
        false := by
    decide +kernel
  have hok := h encryptedNop _ rfl trivial (by simp [encryptedNop])
    (encode_eq_ok_iff.mpr ⟨by decide, rfl⟩)
  rw [hok] at hrefused
  cases hrefused

/-! ## Relaying a packet -/

/-- What the decoder returns can be encoded again: it has a message id and an
assigned opcode, and its operands need no more bytes than they had. -/
theorem relayable_of_decodeToPacket {data : Bytes}
    (hdecode : AiclCodec.new.decodeToPacket crc32 data = .ok pkt) :
    pkt.messageId.isSome ∧ pkt.opcode.Assigned ∧
      pkt.payloadSize ≤ (payload data).length ∧ (payload data).length ≤ maxPayloadSize := by
  have ⟨hvalid, opcode, ts, hcarries, hpkt⟩ := decodeToPacket_eq_ok_iff.mp hdecode
  have ⟨byte, hpayload, hopcode⟩ := hcarries
  rw [hpkt]
  refine ⟨rfl, (AiclOpcode.toU8_of_fromU8 byte opcode hopcode).2, payloadSize_le hpayload rfl, ?_⟩
  rw [payload_length hvalid.complete]
  exact hvalid.limit

/-- A packet whose payload keeps the limit is encoded. -/
theorem encode_of_keeps (hvendor : ∀ op ∈ pkt.operands, op.All Operand.NotVendor)
    (hsize : pkt.payloadSize ≤ maxPayloadSize) :
    AiclCodec.new.encode crc32 uuidV4 pkt =
      .ok ((headerOf uuidV4 pkt).bytes crc32 ++ payloadBytes pkt) := by
  apply encode_eq_ok_iff.mpr
  refine ⟨?_, rfl⟩
  calc (headerOf uuidV4 pkt).payloadLen
      ≤ (payloadBytes pkt).length := by
        simp only [headerOf, UInt32.toNat_ofNat']
        exact Nat.mod_le _ _
    _ = pkt.payloadSize := payloadBytes_length hvendor
    _ ≤ AiclCodec.new.maxPayload := hsize

/-- A received packet without vendor operands, whose flags announce no trailer, is
encoded again, in a frame that is read as the same packet and has no longer
payload. -/
theorem decodeToPacket_relay (crc32 : Bytes → UInt32) (uuidV4 : Id16) (data : Bytes)
    (pkt : AiclPacket) (hdecode : AiclCodec.new.decodeToPacket crc32 data = .ok pkt)
    (hflag : pkt.flags.bits &&& 0x0100 = 0)
    (hvendor : ∀ op ∈ pkt.operands, op.All Operand.NotVendor) :
    ∃ frame, AiclCodec.new.encode crc32 uuidV4 pkt = .ok frame ∧
      AiclCodec.new.decodeToPacket crc32 frame = .ok pkt ∧
        (payload frame).length ≤ (payload data).length := by
  have ⟨hid, hopcode, hgrows, hlimit⟩ := relayable_of_decodeToPacket hdecode
  have hsize : pkt.payloadSize ≤ maxPayloadSize := hgrows.trans hlimit
  have hencode := @encode_of_keeps crc32 uuidV4 pkt hvendor hsize
  have hlength := payloadBytes_length hvendor
  refine ⟨_, hencode, ?_, ?_⟩
  · exact decodeToPacket_of_keeps hid hopcode hvendor hencode hflag hsize
  · rw [(payload_headerOf (hlength.trans_le hsize)).2, hlength]
    exact hgrows

/-- A request without operands whose count takes two bytes, in a frame of minor
version 3 with a byte after the payload. -/
def looseNop : Bytes :=
  let covered := magic ++ ([1, 3, 0, 1] ++ (List.replicate 36 0 ++ [0, 0, 0, 3, 0, 0, 0, 0]))
  covered ++ (writeU32 (Crc32.ieee covered) ++ [0x00, 0x80, 0x00, 0x7F])

/-- That request is sent on with a payload of two bytes. -/
theorem decodeToPacket_relay_looseNop :
    ∃ pkt frame, AiclCodec.new.decodeToPacket Crc32.ieee looseNop = .ok pkt ∧
      AiclCodec.new.encode Crc32.ieee .zero pkt = .ok frame ∧
        AiclCodec.new.decodeToPacket Crc32.ieee frame = .ok pkt ∧
          (payload frame).length ≤ (payload looseNop).length := by
  have hread : (AiclCodec.new.decodeToPacket Crc32.ieee looseNop).toOption.map
      (fun pkt => (pkt.flags.bits, pkt.operands.isEmpty)) = some (1, true) := by
    decide +kernel
  rcases Option.map_eq_some_iff.mp hread with ⟨pkt, hsome, hpair⟩
  have hdecode := Outcome.toOption_eq_some_iff.mp hsome
  have hflags : pkt.flags.bits = 1 := congrArg Prod.fst hpair
  have hoperands : pkt.operands = [] := List.isEmpty_iff.mp (congrArg Prod.snd hpair)
  have hvendor : ∀ op ∈ pkt.operands, op.All Operand.NotVendor := by
    rw [hoperands]
    exact List.forall_mem_nil _
  have hflag : pkt.flags.bits &&& 0x0100 = 0 := by
    rw [hflags]
    rfl
  rcases decodeToPacket_relay Crc32.ieee .zero looseNop pkt hdecode hflag hvendor with
    ⟨frame, hencode, hagain, hlength⟩
  exact ⟨pkt, frame, hdecode, hencode, hagain, hlength⟩

end Aicl.CoreRust
