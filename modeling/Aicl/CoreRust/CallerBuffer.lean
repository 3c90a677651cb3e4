import Aicl.CoreRust.Buffer
import Aicl.CoreRust.EncodedSizes

/-!
# Encoding into the buffer of a caller

{lit}`encode_into` of {lit}`core-rust/src/codec.rs` on a buffer that holds bytes
already, and {lit}`encode_into_bufref` and {lit}`decode_from_buffer` of
{lit}`core-rust/src/abi.rs`.  The codec grows the buffer before it compares the size
of the payload with its limit; the function of the stable interface encodes into a
buffer of its own.

Main results:

- Theorem {lit}`encodeInto_prefix`: what was in the buffer stays there.
- Theorem {lit}`encodeInto_appendsOrKeeps_iff`: the codec appends a frame or keeps
  the buffer exactly when it does not refuse the packet.
- Theorem {lit}`encodeIntoBufref_writesWhatItReports_iff`: the stable interface
  writes what it reports only when it reports nothing.
-/

namespace Aicl.CoreRust

open Isa.Frame

section Checksum

variable (crc32 : Bytes → UInt32)

/-! ## The stable interface -/

/-- {lit}`encode_into_bufref`: the buffer, and the number of bytes that it reports. -/
def encodeIntoBufref (uuidV4 : Id16) (pkt : AiclPacket) (codec : AiclCodec) (buf : Bytes) :
    Bytes × AiclResult Nat :=
  let before := buf.length
  (buf, do
    let _ ← codec.encode crc32 uuidV4 pkt
    pure (buf.length - before))

/-- {lit}`decode_from_buffer`. -/
def decodeFromBuffer (buf : AiclBuffer) (memory : Memory) (codec : AiclCodec) :
    Unsafe (AiclResult PacketView) := do
  let slice ← buf.asSlice memory
  pure (codec.decode crc32 slice)

/-! ## What a caller relies on -/

/-- The encoder appends the frame of a packet to the buffer, or reports an error and
keeps the buffer. -/
def AppendsOrKeeps (codec : AiclCodec) (pkt : AiclPacket) (old : Bytes) : Prop :=
  ∀ uuidV4 uuidV4',
    ((codec.encodeInto crc32 uuidV4 pkt old).2 = .ok () →
      ∃ frame, codec.encode crc32 uuidV4' pkt = .ok frame ∧
        (codec.encodeInto crc32 uuidV4 pkt old).1 = old ++ frame) ∧
    ∀ e, (codec.encodeInto crc32 uuidV4 pkt old).2 = .err e →
      (codec.encodeInto crc32 uuidV4 pkt old).1 = old

/-- The stable interface appends the frame of a packet to the buffer when it reports
a number of bytes; there are so many of them, and they are decoded as the frame. -/
def WritesWhatItReports (codec : AiclCodec) (pkt : AiclPacket) (old : Bytes) : Prop :=
  ∀ uuidV4 uuidV4' n, (encodeIntoBufref crc32 uuidV4 pkt codec old).2 = .ok n →
    ∃ frame, codec.encode crc32 uuidV4' pkt = .ok frame ∧
      (encodeIntoBufref crc32 uuidV4 pkt codec old).1 = old ++ frame ∧ n = frame.length ∧
        ∀ memory, decodeFromBuffer crc32
          (.borrowed ((encodeIntoBufref crc32 uuidV4 pkt codec old).1.rtake n)) memory codec =
            .ok (.ok (viewOf frame))

end Checksum

variable {crc32 : Bytes → UInt32} {codec : AiclCodec} {uuidV4 uuidV4' : Id16} {pkt : AiclPacket}

/-- The header of a packet with a message id needs no other one. -/
theorem headerOf_congr (hid : pkt.messageId.isSome) :
    headerOf uuidV4 pkt = headerOf uuidV4' pkt := by
  have ⟨id, hid⟩ := Option.isSome_iff_exists.mp hid
  simp only [headerOf, hid, Option.getD_some]

/-- What was in the buffer stays there. -/
theorem encodeInto_prefix (crc32 : Bytes → UInt32) (codec : AiclCodec) (uuidV4 : Id16)
    (pkt : AiclPacket) (old : Bytes) : old <+: (codec.encodeInto crc32 uuidV4 pkt old).1 := by
  rw [encodeInto_eq]
  split
  · exact List.prefix_append old _
  · exact List.prefix_append old _

/-- A packet within the limit is appended. -/
theorem appendsOrKeeps_of_le (hid : pkt.messageId.isSome)
    (hsize : pkt.writtenSize % 2 ^ 32 ≤ codec.maxPayload) (old : Bytes) :
    AppendsOrKeeps crc32 codec pkt old := by
  intro uuidV4 uuidV4'
  have hkept : ∀ id, ¬ codec.maxPayload < (headerOf id pkt).payloadLen := by
    intro id
    rw [headerOf_payloadLen]
    exact Nat.not_lt_of_le hsize
  rw [encodeInto_eq, if_neg (hkept uuidV4)]
  constructor
  · intro _
    refine ⟨(headerOf uuidV4' pkt).bytes crc32 ++ payloadBytes pkt, ?_, ?_⟩
    · rw [encode_eq, if_neg (hkept uuidV4')]
    · rw [headerOf_congr hid]
  · intro e herr
    cases herr

/-- A packet above the limit leaves at least an empty header behind. -/
theorem not_appendsOrKeeps_of_lt (hsize : codec.maxPayload < pkt.writtenSize % 2 ^ 32)
    (old : Bytes) : ¬ AppendsOrKeeps crc32 codec pkt old := by
  intro h
  have hkeep := (h .zero .zero).2
  rw [encodeInto_eq, if_pos (by rwa [headerOf_payloadLen])] at hkeep
  have hlength := congrArg List.length (hkeep _ rfl)
  simp [headerSize] at hlength

/-- The codec appends a frame or keeps the buffer exactly when what is left of the
size of the payload, cut to 32 bits, keeps the limit. -/
theorem encodeInto_appendsOrKeeps_iff (crc32 : Bytes → UInt32) (codec : AiclCodec)
    (pkt : AiclPacket) (hid : pkt.messageId.isSome) (old : Bytes) :
    AppendsOrKeeps crc32 codec pkt old ↔ pkt.writtenSize % 2 ^ 32 ≤ codec.maxPayload := by
  constructor
  · intro h
    by_contra hsize
    exact not_appendsOrKeeps_of_lt (Nat.lt_of_not_le hsize) old h
  · intro hsize
    exact appendsOrKeeps_of_le hid hsize old

/-- A small request is appended. -/
theorem encodeInto_appendsOrKeeps_small :
    AppendsOrKeeps Crc32.ieee .new (SessionPair.zeros 0) [0x7F] :=
  (encodeInto_appendsOrKeeps_iff Crc32.ieee .new (SessionPair.zeros 0) rfl [0x7F]).mpr
    (by decide)

/-- A small request grows the buffer of a codec that takes no payload. -/
theorem encodeInto_leaves_header :
    ¬ ∀ (crc32 : Bytes → UInt32) (codec : AiclCodec) (pkt : AiclPacket) (old : Bytes),
      pkt.messageId.isSome → AppendsOrKeeps crc32 codec pkt old := by
  intro h
  have happends := h Crc32.ieee { maxPayload := 0, checkCrc := true } (SessionPair.zeros 0) [] rfl
  exact not_appendsOrKeeps_of_lt (by decide) [] happends

/-- The stable interface reports no bytes and keeps the buffer, when it reports any. -/
theorem encodeIntoBufref_eq (crc32 : Bytes → UInt32) (codec : AiclCodec) (uuidV4 : Id16)
    (pkt : AiclPacket) (old : Bytes) :
    encodeIntoBufref crc32 uuidV4 pkt codec old =
      if codec.maxPayload < pkt.writtenSize % 2 ^ 32 then
        (old, .err (.new .payloadTooLarge
          s!"payload {UInt32.ofNat (payloadBytes pkt).length} > limit {codec.maxPayload}"))
      else (old, .ok 0) := by
  unfold encodeIntoBufref
  rw [encode_eq, headerOf_payloadLen]
  split
  · rfl
  · simp

/-- The stable interface writes what it reports exactly when the codec refuses the
packet, so that it reports nothing. -/
theorem encodeIntoBufref_writesWhatItReports_iff (crc32 : Bytes → UInt32) (codec : AiclCodec)
    (pkt : AiclPacket) (old : Bytes) :
    WritesWhatItReports crc32 codec pkt old ↔ codec.maxPayload < pkt.writtenSize % 2 ^ 32 := by
  unfold WritesWhatItReports
  simp only [encodeIntoBufref_eq]
  constructor
  · intro h
    by_contra hsize
    have ⟨frame, hencode, _, hn, _⟩ := h .zero .zero 0 (by rw [if_neg hsize])
    -- a frame has a header at least
    rw [(encode_eq_ok_iff.mp hencode).2, List.length_append, Header.bytes_length] at hn
    omega
  · intro hsize uuidV4 uuidV4' n hok
    rw [if_pos hsize] at hok
    cases hok

/-- For a small request the stable interface reports no bytes. -/
theorem encodeIntoBufref_writes_nothing :
    ¬ ∀ (crc32 : Bytes → UInt32) (codec : AiclCodec) (pkt : AiclPacket) (old : Bytes),
      pkt.messageId.isSome → WritesWhatItReports crc32 codec pkt old := by
  intro h
  have hwrites := h Crc32.ieee .new (SessionPair.zeros 0) [] rfl .zero .zero 0 (by decide +kernel)
  have ⟨frame, hencode, _, hn, _⟩ := hwrites
  rw [(encode_eq_ok_iff.mp hencode).2, List.length_append, Header.bytes_length] at hn
  omega

end Aicl.CoreRust
