import Aicl.CoreRust.DecoderProperties
import Aicl.Interop.Views

/-!
# The two wire decoders

The decoder of the Rust core and the decoder of the Python package side by side:
each makes checks that the other leaves out, and where both accept a frame they
read the same message.

Main results:

- Theorem {lit}`sameContents_of_ok`: the packet and the view of one frame hold
  the same message.
- Theorem {lit}`decoders_agree_iff`: the decoders agree on a frame unless one of
  them makes a check that the other skips and the frame fails.
-/

namespace Aicl.Interop

open CoreRust (AiclPacket AiclCodec AiclOpcode Valid Carries PreludeOk packetOf sampleHeader
  decodeToPacket_eq_ok_iff)
open Bin (FrameOk HeaderOk Holds region decode_eq_ok_iff valuesOf)
open Isa (Tree Payload WellFormed IsNull IsNullOrReserved)
open Isa.Frame

variable {crc32 : Bytes → UInt32} {data : Bytes}

/-! ## The bytes that both read -/

/-- The bytes that a view reads start with the payload. -/
theorem exists_region_eq (data : Bytes) : ∃ trailer, region data = payload data ++ trailer := by
  unfold region Bin.payloadEnd payload field
  split
  next =>
    have hsplit : total data + Bin.checksumSize - Bin.headerSize =
        (total data - 56) + Bin.checksumSize := by
      simp only [total, Bin.headerSize]
      omega
    rw [hsplit, List.take_add]
    exact ⟨_, rfl⟩
  next => exact ⟨[], (List.append_nil _).symm⟩

/-- A view reads the operands of a payload of the instruction set. -/
theorem holds_region {opcode : UInt8} {ts : List Tree} (h : Payload IsNull opcode ts (payload data)) :
    Holds (region data) ts := by
  obtain ⟨trailer, hregion⟩ := exists_region_eq data
  exact .inr ⟨opcode, payload data, trailer, hregion, h⟩

/-- A view reads no other operands than the payload has, and a payload that it
reads is one of the instruction set. -/
theorem payload_of_holds {opcode : UInt8} {ts ts' : List Tree}
    (h : Payload IsNullOrReserved opcode ts (payload data)) (h' : Holds (region data) ts') :
    Payload IsNull opcode ts (payload data) ∧ ts' = ts := by
  obtain ⟨trailer, hregion⟩ := exists_region_eq data
  rw [hregion] at h'
  rcases h' with ⟨hshort, _⟩ | ⟨opcode', b, post, hsplit, hb⟩
  · generalize payload data = bytes at h hshort
    cases h with
    | mk hlen _ =>
        have hpos := hlen.1.length_pos
        simp only [List.length_append, List.length_cons] at hshort
        omega
  · obtain ⟨rfl, rfl, rfl, _⟩ := h.unique (hb.mono IsNull.orReserved) hsplit
    exact ⟨hb, rfl⟩

/-- The operation of a view is the opcode byte of the payload. -/
theorem operationOf_region {opcode : UInt8} {ts : List Tree}
    (h : Payload IsNullOrReserved opcode ts (payload data)) :
    Bin.operationOf (region data) = opcode.toNat := by
  obtain ⟨trailer, hregion⟩ := exists_region_eq data
  rw [hregion]
  generalize payload data = bytes at h
  cases h with
  | mk _ _ => rfl

/-! ## The checks that both make -/

/-- What the Python decoder requires of a header is what the Rust decoder
requires, at the one version that it knows and up to its own limit. -/
theorem headerOk_iff :
    HeaderOk crc32 data ↔
      PreludeOk crc32 data ∧ version data = 0x0100 ∧ payloadLen data ≤ Bin.maxTlvValueSize := by
  constructor
  · intro h
    have hmajor : version data / 256 = 1 := by rw [h.version_eq]
    exact ⟨⟨h.length_le, h.magic_eq, hmajor, h.headerCrc⟩, h.version_eq, h.limit⟩
  · rintro ⟨h, hversion, hlimit⟩
    exact ⟨h.length_le, h.magic_eq, hversion, h.headerCrc, hlimit⟩

/-- A complete payload of a frame of at most 16 MiB is below both limits. -/
theorem payloadLen_le_of_complete (hlen : data.length ≤ 16 * 1024 * 1024)
    (h : total data ≤ data.length) : payloadLen data ≤ Bin.maxTlvValueSize := by
  simp only [total] at h
  simp only [Bin.maxTlvValueSize]
  omega

/-! ## Agreement -/

/-- The decoders agree on a frame: both accept it or neither does, and where both
do they read the same message. -/
def AgreeOn (crc32 : Bytes → UInt32) (data : Bytes) : Prop :=
  ((∃ p, AiclCodec.new.decodeToPacket crc32 data = .ok p) ↔
      ∃ v, Bin.decode crc32 data = .ok v) ∧
    ∀ p v, AiclCodec.new.decodeToPacket crc32 data = .ok p → Bin.decode crc32 data = .ok v →
      SameContents p v

/-- The frame passes every check of the Rust decoder, and fails one that the
Python decoder makes on top: the minor version is not zero, the bytes after the
payload are no checksum though the flags announce none, or an operand has a
reserved tag. -/
structure RustOnly (crc32 : Bytes → UInt32) (data : Bytes) : Prop where
  valid : Valid crc32 AiclCodec.new data
  refused : version data ≠ 0x0100 ∨
    (total data < data.length ∧
      ¬ (total data + 4 ≤ data.length ∧ TrailerCrcOk crc32 data)) ∨
    ¬ WellFormed (payload data)

/-- The frame passes every check of the Python decoder, and fails one that the
Rust decoder makes on top: the announced trailer is missing, the opcode is not
assigned, or the payload is not exactly an opcode, a count and that many
operands. -/
structure PythonOnly (crc32 : Bytes → UInt32) (data : Bytes) : Prop where
  frame : FrameOk crc32 data
  readable : ∃ ts, Holds (region data) ts
  refused : (HasTrailer data ∧ data.length = total data) ∨
    (∃ byte, data[CoreRust.headerSize]? = some byte ∧ AiclOpcode.fromU8 byte = none) ∨
    ¬ WellFormed (payload data)

/-- The packet and the view of one frame hold the same message. -/
theorem sameContents_of_ok {codec : AiclCodec} {p : AiclPacket} {v : Bin.PacketView}
    (hp : codec.decodeToPacket crc32 data = .ok p) (hv : Bin.decode crc32 data = .ok v) :
    SameContents p v := by
  obtain ⟨hvalid, opcode, ts, ⟨byte, hpayload, hop⟩, rfl⟩ := decodeToPacket_eq_ok_iff.mp hp
  obtain ⟨_, ts', hholds, rfl⟩ := decode_eq_ok_iff.mp hv
  obtain ⟨hstrict, rfl⟩ := payload_of_holds hpayload hholds
  have hbyte : opcode.toU8 = byte := (AiclOpcode.fromU8_eq_some_iff.mp hop).1
  have hoperation : Bin.operationOf (region data) = opcode.toU8.toNat := by
    rw [hbyte, operationOf_region hpayload]
  generalize payload data = bytes at hstrict
  cases hstrict with
  | mk _ hts => exact sameContents_of_tree hvalid.prelude.length_le hoperation hts

/-- A valid frame that fails no check of the Python decoder is read by it. -/
theorem decode_of_valid (hlen : data.length ≤ 16 * 1024 * 1024)
    (hvalid : Valid crc32 AiclCodec.new data) (h : ¬ RustOnly crc32 data) :
    ∃ v, Bin.decode crc32 data = .ok v := by
  have hfail := fun hrefused => h ⟨hvalid, hrefused⟩
  have hversion : version data = 0x0100 :=
    Classical.byContradiction fun hne => hfail (.inl hne)
  have htrailer : total data < data.length →
      total data + 4 ≤ data.length ∧ TrailerCrcOk crc32 data :=
    fun hlong => Classical.byContradiction fun hbad => hfail (.inr (.inl ⟨hlong, hbad⟩))
  obtain ⟨opcode, ts, hpayload⟩ : WellFormed (payload data) :=
    Classical.byContradiction fun hbad => hfail (.inr (.inr hbad))
  have hlimit := payloadLen_le_of_complete hlen hvalid.complete
  have hframe : FrameOk crc32 data :=
    ⟨headerOk_iff.mpr ⟨hvalid.prelude, hversion, hlimit⟩, hvalid.complete, htrailer⟩
  exact ⟨_, decode_eq_ok_iff.mpr ⟨hframe, ts, holds_region hpayload, rfl⟩⟩

/-- A frame that the Python decoder reads and that fails no check of the Rust
decoder is valid. -/
theorem valid_of_frameOk (hframe : FrameOk crc32 data) (hholds : ∃ ts, Holds (region data) ts)
    (h : ¬ PythonOnly crc32 data) : Valid crc32 AiclCodec.new data := by
  have hfail := fun hrefused => h ⟨hframe, hholds, hrefused⟩
  obtain ⟨hprelude, _, hlimit⟩ := headerOk_iff.mp hframe.header
  obtain ⟨opcode, ts, hpayload⟩ : WellFormed (payload data) :=
    Classical.byContradiction fun hbad => hfail (.inr (.inr hbad))
  have hlenient : Payload IsNullOrReserved opcode ts (payload data) :=
    hpayload.mono IsNull.orReserved
  have hbyte : data[CoreRust.headerSize]? = some opcode := by
    cases hbytes : payload data with
    | nil =>
        rw [hbytes] at hpayload
        cases hpayload
    | cons first rest =>
        rw [hbytes] at hpayload
        cases hpayload
        exact CoreRust.payload_eq_cons hbytes
  refine
    { prelude := hprelude
      limit := hlimit.trans (by decide)
      complete := hframe.complete
      trailer := fun hflag => ?_
      opcode := ⟨opcode, hbyte, ?_⟩
      payload := ⟨opcode, ts, hlenient⟩ }
  · have hlong : total data < data.length := by
      refine Nat.lt_of_le_of_ne hframe.complete ?_
      exact fun heq => hfail (.inl ⟨hflag, heq.symm⟩)
    obtain ⟨hroom, hcrc⟩ := hframe.trailer hlong
    exact ⟨hroom, fun _ => hcrc⟩
  · rw [Option.isSome_iff_ne_none]
    exact fun hnone => hfail (.inr (.inl ⟨opcode, hbyte, hnone⟩))

/-- A frame that fails a check of the Python decoder is not read by it. -/
theorem RustOnly.decode_ne_ok (h : RustOnly crc32 data) (v : Bin.PacketView) :
    Bin.decode crc32 data ≠ .ok v := by
  intro hv
  obtain ⟨hframe, ts, hholds, _⟩ := decode_eq_ok_iff.mp hv
  obtain ⟨opcode, ts', hpayload⟩ := h.valid.payload
  rcases h.refused with hversion | ⟨hlong, htrailer⟩ | hgrammar
  · exact hversion hframe.header.version_eq
  · exact htrailer (hframe.trailer hlong)
  · exact hgrammar ⟨opcode, ts', (payload_of_holds hpayload hholds).1⟩

/-- A frame that fails a check of the Rust decoder is not read by it. -/
theorem PythonOnly.decodeToPacket_ne_ok (h : PythonOnly crc32 data) (p : AiclPacket) :
    AiclCodec.new.decodeToPacket crc32 data ≠ .ok p := by
  intro hp
  have hvalid := (decodeToPacket_eq_ok_iff.mp hp).1
  obtain ⟨ts, hholds⟩ := h.readable
  rcases h.refused with ⟨hflag, hexact⟩ | ⟨byte, hbyte, hnone⟩ | hgrammar
  · have hroom := (hvalid.trailer hflag).1
    omega
  · obtain ⟨byte', hbyte', hsome⟩ := hvalid.opcode
    rw [hbyte] at hbyte'
    cases hbyte'
    rw [hnone] at hsome
    cases hsome
  · obtain ⟨opcode, ts', hpayload⟩ := hvalid.payload
    exact hgrammar ⟨opcode, ts', (payload_of_holds hpayload hholds).1⟩

/-- On frames of at most 16 MiB, the two decoders agree exactly when neither
accepts what the other's additional checks refuse. -/
theorem decoders_agree_iff (crc32 : Bytes → UInt32) (data : Bytes)
    (hlen : data.length ≤ 16 * 1024 * 1024) :
    AgreeOn crc32 data ↔ ¬ RustOnly crc32 data ∧ ¬ PythonOnly crc32 data := by
  constructor
  · rintro ⟨hiff, _⟩
    constructor
    · intro h
      obtain ⟨opcode, ts, hc⟩ := h.valid.carries
      have hp := decodeToPacket_eq_ok_iff.mpr ⟨h.valid, opcode, ts, hc, rfl⟩
      obtain ⟨v, hv⟩ := hiff.mp ⟨_, hp⟩
      exact h.decode_ne_ok v hv
    · intro h
      obtain ⟨ts, hholds⟩ := h.readable
      have hv := decode_eq_ok_iff.mpr ⟨h.frame, ts, hholds, rfl⟩
      obtain ⟨p, hp⟩ := hiff.mpr ⟨_, hv⟩
      exact h.decodeToPacket_ne_ok p hp
  · rintro ⟨hrust, hpython⟩
    refine ⟨⟨?_, ?_⟩, fun p v => sameContents_of_ok⟩
    · rintro ⟨p, hp⟩
      exact decode_of_valid hlen (decodeToPacket_eq_ok_iff.mp hp).1 hrust
    · rintro ⟨v, hv⟩
      obtain ⟨hframe, ts, hholds, _⟩ := decode_eq_ok_iff.mp hv
      have hvalid := valid_of_frameOk hframe ⟨ts, hholds⟩ hpython
      obtain ⟨opcode, ts', hc⟩ := hvalid.carries
      exact ⟨_, decodeToPacket_eq_ok_iff.mpr ⟨hvalid, opcode, ts', hc, rfl⟩⟩

/-- A frame without operands under an opcode byte. -/
def bareFrame (opcode : UInt8) : Bytes :=
  (sampleHeader 2).bytes Crc32.ieee ++ [opcode, 0x00]

/-- The decoders agree on the frame of a {lit}`NOP`. -/
theorem decoders_agree_on_nop :
    (bareFrame 0x00).length ≤ 16 * 1024 * 1024 ∧ AgreeOn Crc32.ieee (bareFrame 0x00) := by
  have hlen : (bareFrame 0x00).length ≤ 16 * 1024 * 1024 := by decide
  refine ⟨hlen, (decoders_agree_iff Crc32.ieee (bareFrame 0x00) hlen).mpr ⟨?_, ?_⟩⟩
  all_goals
    have hversion : version (bareFrame 0x00) = 0x0100 := by decide +kernel
    have hexact : total (bareFrame 0x00) = (bareFrame 0x00).length := by decide +kernel
    have hflag : ¬ HasTrailer (bareFrame 0x00) := by decide +kernel
    have hgrammar : WellFormed (payload (bareFrame 0x00)) := by
      have hpayload : payload (bareFrame 0x00) = [0x00, 0x00] := by decide +kernel
      rw [hpayload]
      have hcount : Isa.Varint ([] : List Tree).length [0x00] := ⟨.last (b := 0x00) (by decide), by decide⟩
      exact ⟨0x00, [], .mk hcount .nil⟩
    intro h
  · rcases h.refused with hne | ⟨hlong, _⟩ | hbad
    · exact hne hversion
    · exact absurd hexact (Nat.ne_of_lt hlong)
    · exact hbad hgrammar
  · rcases h.refused with ⟨hset, _⟩ | ⟨byte, hbyte, hnone⟩ | hbad
    · exact hflag hset
    · have hfirst : (bareFrame 0x00)[CoreRust.headerSize]? = some 0x00 := by decide +kernel
      rw [hfirst] at hbyte
      cases hbyte
      cases hnone
    · exact hbad hgrammar

/-- The frame of an unassigned opcode is read by the Python decoder only. -/
theorem decoders_disagree_on_unassigned :
    ¬ ∀ data : Bytes, data.length ≤ 16 * 1024 * 1024 → AgreeOn Crc32.ieee data := by
  intro h
  have hpython : (Bin.decode Crc32.ieee (bareFrame 0x0B)).isOk = true := by decide +kernel
  have hrust : (AiclCodec.new.decodeToPacket Crc32.ieee (bareFrame 0x0B)).isOk = false := by
    decide +kernel
  obtain ⟨v, hv⟩ := Outcome.isOk_iff.mp hpython
  obtain ⟨p, hp⟩ := (h (bareFrame 0x0B) (by decide)).1.mpr ⟨v, hv⟩
  rw [hp] at hrust
  cases hrust

end Aicl.Interop
