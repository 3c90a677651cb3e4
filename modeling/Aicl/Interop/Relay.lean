import Aicl.Interop.Streams

/-!
# Rust relays between Python peers

A Rust program that decodes a frame to a packet and encodes the packet again, once or in
a chain of such programs, with the Python package reading the frame before and after.
The frames may use every freedom of the format that both decoders accept: varints that
are longer than needed, and maps in any order.

Main results:

- Theorem {lit}`Relayable.relay`: one relay.
- Theorem {lit}`relays_transparent`: a chain of relays passes on what the Python package read
  in the first frame.
-/

namespace Aicl.Interop

open CoreRust (AiclPacket AiclCodec AiclResult Id16 Operand)
open Bin (maxTlvValueSize)
open Isa.Frame

variable {crc32 : Bytes → UInt32} {p : AiclPacket} {v w : Bin.PacketView} {data : Bytes}

/-- Two views hold the same message; maps are compared as maps. -/
structure SameMessage (v w : Bin.PacketView) : Prop where
  operation : v.operation = w.operation
  flags : v.flags = w.flags
  messageId : v.messageId = w.messageId
  correlationId : v.correlationId = w.correlationId
  deadlineMs : v.deadlineMs = w.deadlineMs
  symbols : v.symbols.map sorted = w.symbols.map sorted
  extensions : ∀ tag, v.extAll tag = w.extAll tag

/-- Views that hold the message of one packet hold the same message. -/
theorem SameContents.sameMessage (hv : SameContents p v) (hw : SameContents p w) :
    SameMessage v w where
  operation := hv.opcode.trans hw.opcode.symm
  flags := hv.flags.trans hw.flags.symm
  messageId := Option.some.inj (hv.messageId.symm.trans hw.messageId)
  correlationId := hv.correlationId.symm.trans hw.correlationId
  deadlineMs := hv.deadlineMs.trans hw.deadlineMs.symm
  symbols := hv.symbols.trans hw.symbols.symm
  extensions tag := (hv.extensions tag).trans (hw.extensions tag).symm

/-- A frame is decoded to a packet and encoded again. -/
def relay (crc32 : Bytes → UInt32) (data : Bytes) (uuidV4 : Id16) : AiclResult Bytes := do
  let pkt ← AiclCodec.new.decodeToPacket crc32 data
  AiclCodec.new.encode crc32 uuidV4 pkt

/-- A frame that both packages read, as one packet without vendor operands and without
the announcement of a trailer. -/
structure Relayable (crc32 : Bytes → UInt32) (p : AiclPacket) (data : Bytes) : Prop where
  rust : AiclCodec.new.decodeToPacket crc32 data = .ok p
  python : ∃ v, Bin.decode crc32 data = .ok v ∧ SameContents p v
  noVendor : ∀ op ∈ p.operands, op.All Operand.NotVendor
  noTrailer : p.flags.bits &&& 0x0100 = 0

/-- The packet of such a frame can be spelled within the limit of the Python package. -/
theorem Relayable.spellable (h : Relayable crc32 p data) :
    p.Spellable ∧ p.payloadSize ≤ maxTlvValueSize := by
  have ⟨hid, hopcode, hgrows, _⟩ := CoreRust.relayable_of_decodeToPacket h.rust
  rcases h.python with ⟨v, hv, _⟩
  have hlimit := (Bin.decode_eq_ok_iff.mp hv).1.header.limit
  have hpayload : (payload data).length ≤ payloadLen data := by
    rw [payload, field]
    refine (List.length_take_le _ _).trans ?_
    simp only [total]
    omega
  exact ⟨⟨hid, hopcode, h.noVendor, h.noTrailer⟩, (hgrows.trans hpayload).trans hlimit⟩

/-- One relay passes a frame on, in a frame that both packages read as the same packet. -/
theorem Relayable.relay (h : Relayable crc32 p data) (uuidV4 : Id16) :
    ∃ frame, relay crc32 data uuidV4 = .ok frame ∧ Relayable crc32 p frame := by
  have ⟨hspell, hsize⟩ := h.spellable
  have hmax : p.payloadSize ≤ CoreRust.maxPayloadSize := hsize.trans (by decide)
  have hencode := @CoreRust.encode_of_keeps crc32 uuidV4 p h.noVendor hmax
  have ⟨_, hpython⟩ := isFrame_of_spellable hspell hsize hencode
  have hrust := hspell.decode (.inl hmax) hencode
  refine ⟨_, ?_, hrust, hpython, h.noVendor, h.noTrailer⟩
  rw [Interop.relay, h.rust, Outcome.ok_bind, hencode]

/-- Relays one after the other pass a frame on. -/
theorem Relayable.relays (h : Relayable crc32 p data) (hops : List Id16) :
    ∃ frame, hops.foldlM (Interop.relay crc32) data = .ok frame ∧ Relayable crc32 p frame := by
  induction hops generalizing data with
  | nil => exact ⟨data, rfl, h⟩
  | cons uuidV4 hops ih =>
      rcases h.relay uuidV4 with ⟨first, hfirst, hnext⟩
      rcases ih hnext with ⟨frame, hframe, hlast⟩
      refine ⟨frame, ?_, hlast⟩
      rw [List.foldlM_cons, hfirst]
      exact hframe

/-- A chain of Rust programs that decode and encode again is transparent: when both
packages accept a frame, whose packet has no vendor operands and announces no trailer,
every relay of the chain succeeds, and the Python package reads from the last frame the
message that it reads from the first. -/
theorem relays_transparent (crc32 : Bytes → UInt32) (data : Bytes) (p : AiclPacket)
    (v : Bin.PacketView) (hops : List Id16)
    (hrust : AiclCodec.new.decodeToPacket crc32 data = .ok p) (hpython : Bin.decode crc32 data = .ok v)
    (hvendor : ∀ op ∈ p.operands, op.All Operand.NotVendor)
    (hflag : p.flags.bits &&& 0x0100 = 0) :
    ∃ frame w, hops.foldlM (relay crc32) data = .ok frame ∧ Bin.decode crc32 frame = .ok w ∧
      SameMessage v w := by
  have hsame : SameContents p v := sameContents_of_ok hrust hpython
  have hrelayable : Relayable crc32 p data := ⟨hrust, ⟨v, hpython, hsame⟩, hvendor, hflag⟩
  rcases hrelayable.relays hops with ⟨frame, hframe, hlast⟩
  rcases hlast.python with ⟨w, hw, hwsame⟩
  exact ⟨frame, w, hframe, hw, hsame.sameMessage hwsame⟩

/-- Two relays pass on a request with one empty byte string. -/
theorem relays_transparent_zeros :
    ∃ v, Bin.decode Crc32.ieee (CoreRust.SessionPair.zerosFrame 0) = .ok v ∧
      ∃ frame w, [Id16.zero, Id16.zero].foldlM (relay Crc32.ieee)
          (CoreRust.SessionPair.zerosFrame 0) = .ok frame ∧
        Bin.decode Crc32.ieee frame = .ok w ∧ SameMessage v w := by
  have hspell := CoreRust.SessionPair.zeros_spellable 0
  have hencode : AiclCodec.new.encode Crc32.ieee .zero (CoreRust.SessionPair.zeros 0) =
      .ok (CoreRust.SessionPair.zerosFrame 0) :=
    CoreRust.encode_eq_ok_iff.mpr ⟨by decide, rfl⟩
  have hrust := hspell.decode (.inl (by decide)) hencode
  rcases (isFrame_of_spellable hspell (by decide) hencode).2 with ⟨v, hv, _⟩
  exact ⟨v, hv, relays_transparent Crc32.ieee _ _ v [.zero, .zero] hrust hv hspell.noVendor
    hspell.noTrailer⟩

end Aicl.Interop
