import Aicl.Bin.Encode
import Aicl.Bin.Filing

/-!
# A packet and the view of its frame

What the decoder of the Python package makes of a frame of its encoder.

Main results:

- Theorem {lit}`decode_of_encode`: a frame whose payload keeps the limit of the
  decoder is read, and its view shows the packet.
- Theorem {lit}`shows_of_decode`: every view of a frame of a packet shows it.
-/

namespace Aicl.Bin

open Isa (Tree Payload IsNull)
open Isa.Frame

variable {crc32 : Bytes → UInt32} {p : Packet} {checksum : Bool} {frame : Bytes}

/-- A view shows a packet: its header, its symbols with the floats behind the tag
{lit}`F32` rounded, and under each tag the values of its own vendor symbols before
those of the extensions. -/
structure Shows (p : Packet) (checksum : Bool) (exts : List Symbol) (v : PacketView) : Prop where
  operation : v.operation = p.opcodeByte.toNat
  flags : (v.flags : Int) = wireFlags p checksum
  messageId : v.messageId = p.messageId
  correlationId : v.correlationId = p.correlationId
  deadlineMs : (v.deadlineMs : Int) = p.deadlineMs
  symbols : v.symbols = (roundedItems p.symbols).filter fun s => (extension? s).isNone
  extAll : ∀ tag, v.extAll tag = valuesOf tag ((p.symbols ++ exts).filterMap extension?)

/-! ## Vendor operands and rounding -/

/-- Rounding leaves vendor operands alone. -/
theorem extension?_rounded (s : Symbol) : extension? s.rounded = extension? s := by
  cases s <;> rfl

/-- Rounding leaves the vendor operands of a list alone. -/
theorem filterMap_roundedItems (ss : List Symbol) :
    (roundedItems ss).filterMap extension? = ss.filterMap extension? := by
  rw [roundedItems_eq_map, List.filterMap_map]
  exact List.filterMap_congr fun s _ => extension?_rounded s

/-- A vendor operand has an extension. -/
theorem IsExtension.isSome {s : Symbol} (h : IsExtension s) : (extension? s).isSome := by
  rcases h with ⟨tag, data, rfl, htag⟩
  rw [extension?, if_pos ((isVendor_iff tag).mpr htag)]
  rfl

/-- Extensions are kept apart from the symbols. -/
theorem filter_isNone_of_isExtension {exts : List Symbol} (h : ∀ s ∈ exts, IsExtension s) :
    (roundedItems exts).filter (fun s => (extension? s).isNone) = [] := by
  rw [roundedItems_eq_map, List.filter_eq_nil_iff]
  intro s hs
  obtain ⟨s', hs', rfl⟩ := List.mem_map.mp hs
  rw [extension?_rounded, Option.isNone_iff_eq_none]
  exact Option.isSome_iff_ne_none.mp (h s' hs').isSome

/-! ## Frames -/

/-- The header and the body of a frame of the encoder are what its header declares. -/
theorem total_of_encode {fields : Isa.Frame.Header} {body : Bytes}
    (hlen : fields.payloadLen % 2 ^ 32 = body.length) :
    total ((fields.bytes crc32 ++ body) ++
      trailerOf crc32 checksum (fields.bytes crc32 ++ body)) =
        (fields.bytes crc32 ++ body).length := by
  rw [List.append_assoc]
  exact total_bytes hlen

/-- What a view reads of a frame of the encoder: the payload, and its trailer. -/
theorem region_of_encode {fields : Isa.Frame.Header} {body : Bytes}
    (hlen : fields.payloadLen % 2 ^ 32 = body.length) :
    region ((fields.bytes crc32 ++ body) ++
      trailerOf crc32 checksum (fields.bytes crc32 ++ body)) =
        body ++ trailerOf crc32 checksum (fields.bytes crc32 ++ body) := by
  have hend : payloadEnd ((fields.bytes crc32 ++ body) ++
      trailerOf crc32 checksum (fields.bytes crc32 ++ body)) =
        ((fields.bytes crc32 ++ body) ++
          trailerOf crc32 checksum (fields.bytes crc32 ++ body)).length := by
    rw [payloadEnd, total_of_encode hlen]
    cases checksum with
    | true => simp [trailerOf, checksumSize, Nat.add_assoc]
    | false => simp [trailerOf]
  have hsplit : (fields.bytes crc32 ++ body) ++
      trailerOf crc32 checksum (fields.bytes crc32 ++ body) = fields.bytes crc32 ++
        ((body ++ trailerOf crc32 checksum (fields.bytes crc32 ++ body)) ++ []) := by
    rw [List.append_nil, List.append_assoc]
  rw [region, hend, hsplit]
  exact field_append (fields.bytes_length crc32) (by simp [headerSize])

/-- A frame of the encoder meets the conditions of the decoder when its payload
keeps the limit. -/
theorem frameOk_of_encode {fields : Isa.Frame.Header} {body : Bytes} (hversion : fields.version = 0x0100)
    (hlen : fields.payloadLen % 2 ^ 32 = body.length) (hlimit : body.length ≤ maxTlvValueSize) :
    FrameOk crc32 ((fields.bytes crc32 ++ body) ++
      trailerOf crc32 checksum (fields.bytes crc32 ++ body)) := by
  constructor
  · rw [List.append_assoc]
    constructor
    · simp [headerSize]
    · exact field_magic
    · rw [version_bytes, hversion]
      rfl
    · exact headerCrcOk_bytes
    · rw [payloadLen_bytes, hlen]
      exact hlimit
  · rw [total_of_encode hlen]
    exact (List.prefix_append _ _).length_le
  · intro hlong
    cases checksum with
    | true =>
        have htail : trailerOf crc32 true (fields.bytes crc32 ++ body) =
            BigEndian.toBytes 4 (crc32 (fields.bytes crc32 ++ body)).toNat ++ [] :=
          (List.append_nil _).symm
        rw [total_of_encode hlen, htail]
        refine ⟨?_, trailerCrcOk_bytes hlen⟩
        simp [checksumSize, Nat.add_assoc]
    | false =>
        rw [total_of_encode hlen] at hlong
        simp [trailerOf] at hlong

/-- A frame whose payload keeps the limit of the decoder is read, and its view
shows the packet. -/
theorem decode_of_encode (h : encode crc32 p checksum = .ok frame)
    (hlimit : payloadLen frame ≤ maxTlvValueSize) :
    ∃ exts v, p.appendExtensions = .ok exts ∧ decode crc32 frame = .ok v ∧
      Shows p checksum exts v := by
  obtain ⟨body, fields, hbody, hfields, rfl⟩ := encode_eq_ok h
  have hmod := hfields.payloadLen_mod
  rw [hfields.declared] at hlimit
  obtain ⟨exts, ts, hexts, hpayload, hitems⟩ :=
    buildPayload_spells hbody (hlimit.trans_lt (by decide))
  have hholds : Holds (region ((fields.bytes crc32 ++ body) ++
      trailerOf crc32 checksum (fields.bytes crc32 ++ body))) ts := by
    rw [region_of_encode hmod]
    exact .inr ⟨_, body, _, rfl, hpayload⟩
  refine ⟨exts, _, hexts, decode_eq_ok_iff.mpr
    ⟨frameOk_of_encode hfields.version_eq hmod hlimit, ts, hholds, rfl⟩, ?_⟩
  have hvendor := appendExtensions_vendor p exts hexts
  constructor
  · rw [viewOf, region_of_encode hmod]
    cases hpayload with
    | mk _ _ => rfl
  · simp only [PacketView.flags, viewOf, headerOf]
    rw [List.append_assoc, flags_bytes, Nat.mod_eq_of_lt hfields.flags_lt]
    exact hfields.flags_eq
  · simp only [PacketView.messageId, viewOf, headerOf]
    rw [List.append_assoc, field_messageId]
    exact hfields.messageId_eq
  · simp only [PacketView.correlationId, viewOf, headerOf]
    rw [List.append_assoc, field_correlationId]
    exact hfields.correlationId_eq
  · simp only [PacketView.deadlineMs, viewOf, headerOf]
    rw [List.append_assoc, field_deadlineMs, BigEndian.ofBytes_toBytes hfields.deadlineMs_lt]
    exact hfields.deadlineMs_eq
  · simp only [PacketView.symbols, viewOf]
    rw [ofSymbols_symbols, ← hitems, roundedItems_eq_map, List.map_append, List.filter_append,
      ← roundedItems_eq_map, ← roundedItems_eq_map, filter_isNone_of_isExtension hvendor,
      List.append_nil]
  · intro tag
    have hvalues := ofSymbols_extensions tag (toSymbols ts)
    rw [congrArg (List.filterMap extension?) hitems.symm, filterMap_roundedItems] at hvalues
    exact hvalues

/-- Every view of a frame of a packet shows it. -/
theorem shows_of_decode (h : encode crc32 p checksum = .ok frame) {v : PacketView}
    (hv : decode crc32 frame = .ok v) :
    ∃ exts, p.appendExtensions = .ok exts ∧ Shows p checksum exts v := by
  have hlimit := (decode_eq_ok_iff.mp hv).1.header.limit
  obtain ⟨exts, v', hexts, hv', hshows⟩ := decode_of_encode h hlimit
  obtain rfl : v' = v := Outcome.ok.inj (hv'.symm.trans hv)
  exact ⟨exts, hexts, hshows⟩

/-- A frame of a packet is read exactly when its payload keeps the limit of the
decoder. -/
theorem decode_isOk_iff (h : encode crc32 p checksum = .ok frame) :
    (∃ v, decode crc32 frame = .ok v) ↔ payloadLen frame ≤ maxTlvValueSize := by
  constructor
  · intro hv
    rcases hv with ⟨v, hv⟩
    exact (decode_eq_ok_iff.mp hv).1.header.limit
  · intro hlimit
    obtain ⟨_, v, _, hv, _⟩ := decode_of_encode h hlimit
    exact ⟨v, hv⟩

end Aicl.Bin
