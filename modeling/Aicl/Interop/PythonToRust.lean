import Aicl.Bin.Encode
import Aicl.CoreRust.Validate
import Aicl.Foundation.Crc32
import Aicl.Interop.Symbols

/-!
# From the Python encoder to the Rust decoder

A packet of the Python package that is encoded, with or without a checksum, and
read by the Rust core.  The only change on the way is the one that the
{lit}`struct` format of {lit}`F32` makes: a double behind that tag is rounded to
single precision.

Main results:

- Theorem {lit}`frame_decodes`: a frame of either shape is valid, and its packet
  is the one of its header and its operands.
- Theorem {lit}`decodeToPacket_encode`: the Rust core reads the packet that the
  Python package wrote.
-/

namespace Aicl.Interop

open Bin (Packet Symbol isAssigned HeaderFields wireFlags trailerOf toSymbols roundedItems
  roundedItems_eq_map IsExtension)
open CoreRust (AiclPacket AiclCodec AiclOpcode Operand Id16 Valid Carries packetOf toOperands
  readU16_toNat readU32_toNat decodeToPacket_of_valid)
open Isa (Tree DerivesList Payload IsNull)
open Isa.Frame

/-! ## Opcodes and flags -/

/-- Every assigned operation is an opcode of the Rust core. -/
theorem fromU8_of_isAssigned (byte : UInt8) :
    isAssigned byte.toNat = true → (AiclOpcode.fromU8 byte).isSome :=
  UInt8.forall_of_fin
    (p := fun byte => isAssigned byte.toNat = true → (AiclOpcode.fromU8 byte).isSome)
    (by decide +kernel) byte

/-- An assigned operation is a byte. -/
theorem operation_lt_of_isAssigned {operation : Int} (h : isAssigned operation = true) :
    0 ≤ operation ∧ operation < 256 := by
  simp only [isAssigned, Bin.isVendorOp, Bin.operationNames, List.mem_cons, List.not_mem_nil,
    or_false, decide_eq_true_eq] at h
  omega

/-- The opcode byte of a packet with an assigned operation is that opcode. -/
theorem opcodeByte_assigned {p : Packet} (h : isAssigned p.operation = true) :
    ∃ opcode, AiclOpcode.fromU8 p.opcodeByte = some opcode ∧
      (opcode.toU8.toNat : Int) = p.operation := by
  obtain ⟨hnonneg, hlt⟩ := operation_lt_of_isAssigned h
  have hbyte : (p.opcodeByte.toNat : Int) = p.operation := by
    simp only [Packet.opcodeByte, UInt8.toNat_ofNat']
    omega
  rw [← hbyte] at h
  obtain ⟨opcode, hop⟩ := Option.isSome_iff_exists.mp (fromU8_of_isAssigned _ h)
  refine ⟨opcode, hop, ?_⟩
  rw [(AiclOpcode.fromU8_eq_some_iff.mp hop).1, hbyte]

/-- Setting a clear bit of a flag word adds it. -/
theorem or_trailerFlag {n : Nat} (hlt : n < 2 ^ 16) (h : n &&& 0x0100 = 0) :
    n ||| 0x0100 = n + 0x0100 := by
  have hand : BitVec.ofNat 17 n &&& BitVec.ofNat 17 0x0100 = 0#17 := by
    rw [← BitVec.ofNat_and, h]
  have hadd := congrArg BitVec.toNat (BitVec.add_eq_or_of_and_eq_zero _ _ hand)
  rw [← BitVec.ofNat_add, ← BitVec.ofNat_or, BitVec.toNat_ofNat, BitVec.toNat_ofNat,
    Nat.mod_eq_of_lt (by omega), Nat.mod_eq_of_lt] at hadd
  · exact hadd.symm
  · exact Nat.or_lt_two_pow (by omega) (by decide)

/-- The encoder adds the announcement of a trailer when a checksum is asked for. -/
theorem wireFlags_eq_add {p : Packet} (checksum : Bool) {n : Nat} (hflags : p.flags = n)
    (hlt : n < 2 ^ 16) (h : n &&& 0x0100 = 0) {w : Nat} (hw : (w : Int) = wireFlags p checksum) :
    w = n + if checksum then 0x0100 else 0 := by
  cases checksum with
  | false => exact Int.ofNat_inj.mp (hw.trans hflags)
  | true =>
      rw [wireFlags, if_pos rfl, hflags] at hw
      exact (Int.ofNat_inj.mp hw).trans (or_trailerFlag hlt h)

/-! ## Frames of either shape -/

variable {crc32 : Bytes → UInt32}

/-- A frame of the encoder whose flags announce its trailer is valid, and its
packet is the one of its header and its operands. -/
theorem frame_decodes {fields : Header} {body data : Bytes} {checksum : Bool}
    (hdata : data = (fields.bytes crc32 ++ body) ++
      trailerOf crc32 checksum (fields.bytes crc32 ++ body))
    (hversion : fields.version = 0x0100) (hlen : fields.payloadLen = body.length)
    (hlimit : body.length ≤ CoreRust.maxPayloadSize)
    (hflag : fields.flags % 2 ^ 16 &&& 0x0100 ≠ 0 ↔ checksum = true)
    {byte : UInt8} {opcode : AiclOpcode} {ts : List Tree} (hbody : Payload IsNull byte ts body)
    (hop : AiclOpcode.fromU8 byte = some opcode) :
    AiclCodec.new.decodeToPacket crc32 data = .ok (packetOf opcode data ts) := by
  have hassoc : data = fields.bytes crc32 ++
      (body ++ trailerOf crc32 checksum (fields.bytes crc32 ++ body)) :=
    hdata.trans (List.append_assoc _ _ _)
  have hmod : fields.payloadLen % 2 ^ 32 = body.length := by
    rw [hlen]
    exact Nat.mod_eq_of_lt (hlimit.trans_lt (by decide))
  have htotal : total data = (fields.bytes crc32 ++ body).length := hassoc ▸ total_bytes hmod
  have hpayload : payload data = body := hassoc ▸ payload_bytes hmod
  have hlimit' : payloadLen data ≤ CoreRust.maxPayloadSize := by
    rw [hassoc, payloadLen_bytes, hmod]
    exact hlimit
  have hlenient := hbody.mono Isa.IsNull.orReserved
  have hfirst : data[CoreRust.headerSize]? = some byte := by
    cases hbody with
    | mk _ _ => exact CoreRust.payload_eq_cons hpayload
  have hprelude : CoreRust.PreludeOk crc32 data := by
    rw [hassoc]
    refine ⟨by simp [CoreRust.headerSize], field_magic, ?_, headerCrcOk_bytes⟩
    calc version (fields.bytes crc32 ++ (body ++ trailerOf crc32 checksum
          (fields.bytes crc32 ++ body))) / 256
        = 0x0100 % 2 ^ 16 / 256 := by rw [version_bytes, hversion]
      _ = 1 := rfl
  have hcomplete : total data ≤ data.length := by
    rw [htotal, hdata]
    exact (List.prefix_append _ _).length_le
  have htrailer : HasTrailer data → total data + 4 ≤ data.length ∧ TrailerCrcOk crc32 data := by
    intro hflags
    rw [HasTrailer, hassoc, flags_bytes] at hflags
    obtain rfl := hflag.mp hflags
    have htail : trailerOf crc32 true (fields.bytes crc32 ++ body) =
        BigEndian.toBytes 4 (crc32 (fields.bytes crc32 ++ body)).toNat ++ [] :=
      (List.append_nil _).symm
    rw [htotal, hdata, htail]
    refine ⟨?_, trailerCrcOk_bytes hmod⟩
    simp only [List.length_append, BigEndian.toBytes_length]
    omega
  have hvalid : Valid crc32 AiclCodec.new data :=
    { prelude := hprelude
      limit := hlimit'
      complete := hcomplete
      trailer := fun hflags => ⟨(htrailer hflags).1, fun _ => (htrailer hflags).2⟩
      opcode := ⟨byte, hfirst, by rw [hop]; rfl⟩
      payload := ⟨byte, ts, hpayload.symm ▸ hlenient⟩ }
  exact decodeToPacket_of_valid hvalid ⟨byte, hpayload.symm ▸ hlenient, hop⟩

/-! ## The packet that arrives -/

/-- The floats behind the tag {lit}`F32` are of single precision. -/
def Single : Symbol → Prop
  | .f32 value => ∃ single : UInt32, value = Ieee754.widen single
  | _ => True

/-- Rounding changes nothing where the floats are of single precision. -/
theorem rounded_of_single {s : Symbol} (h : s.All Single) : s.rounded = s := by
  induction s using Symbol.induct with
  | leaf s hleaf =>
      cases s with
      | f32 value =>
          obtain ⟨single, rfl⟩ := Nested.All.self h
          exact congrArg Symbol.f32 (Bin.roundSingle_widen single)
      | list items => exact hleaf.elim
      | map entries => exact hleaf.elim
      | _ => rfl
  | list items ih =>
      obtain ⟨_, hitems⟩ := Symbol.all_list_iff.mp h
      rw [Symbol.rounded, roundedItems_eq_map,
        List.map_congr_left fun s hs => ih s hs (hitems s hs), List.map_id']
  | map entries ih =>
      obtain ⟨_, hvalues⟩ := Symbol.all_map_iff.mp h
      have hentry : ∀ e ∈ entries, (e.1, e.2.rounded) = e :=
        fun e he => Prod.ext rfl (ih e he (hvalues e he))
      rw [Symbol.rounded, Bin.roundedEntries_eq_map, List.map_congr_left hentry, List.map_id']

/-- A packet of the Rust core is what was sent in a packet of the Python package:
the header fields, then the symbols in order, then one vendor operand for each
extension.  Maps are compared as maps; symbols arrive as they are, up to the
rounding of floats that are not of single precision behind the tag {lit}`F32`. -/
structure Received (p : Packet) (checksum : Bool) (q : AiclPacket) : Prop where
  opcode : (q.opcode.toU8.toNat : Int) = p.operation
  flags : (q.flags.bits.toNat : Int) = p.flags + if checksum then 0x0100 else 0
  messageId : q.messageId.map Id16.bytes = some p.messageId
  correlationId : q.correlationId.bytes = p.correlationId
  deadlineMs : (q.deadlineMs.toNat : Int) = p.deadlineMs
  operands : ∃ (core : List Operand) (exts : List (UInt8 × Bytes)),
    q.operands = core ++ exts.map (fun e => .vendor e.1 e.2) ∧
      core.map operandToSymbol = p.symbols.map (fun s => sorted s.rounded) ∧
      ((∀ s ∈ p.symbols, s.All Single) → core.map operandToSymbol = p.symbols.map sorted) ∧
      p.appendExtensions = .ok (exts.map fun e => .other e.1 e.2)

/-- Vendor operands of the Python package as tags and bytes. -/
theorem exists_extensions {exts : List Symbol} (h : ∀ s ∈ exts, IsExtension s) :
    ∃ pairs : List (UInt8 × Bytes), exts = pairs.map fun e => .other e.1 e.2 := by
  induction exts with
  | nil => exact ⟨[], rfl⟩
  | cons s exts ih =>
      obtain ⟨tag, data, rfl, _⟩ := h s List.mem_cons_self
      obtain ⟨pairs, rfl⟩ := ih fun s' hs' => h s' (List.mem_cons_of_mem _ hs')
      exact ⟨(tag, data) :: pairs, rfl⟩

/-- The operands that spell the symbols and the extensions of a packet. -/
theorem split_operands {ts : List Tree} {b : Bytes} (h : DerivesList IsNull ts b)
    {symbols : List Symbol} {pairs : List (UInt8 × Bytes)}
    (hitems : roundedItems (symbols ++ pairs.map fun e => .other e.1 e.2) = toSymbols ts) :
    ∃ core, toOperands ts = core ++ pairs.map (fun e => .vendor e.1 e.2) ∧
      core.map operandToSymbol = symbols.map fun s => sorted s.rounded := by
  have hmap := sortedItems_toSymbols h
  rw [← hitems, operandsToSymbols_eq_map, roundedItems_eq_map, sortedItems_eq_map, List.map_map,
    List.map_append] at hmap
  obtain ⟨core, vendors, hsplit, hcore, hvendors⟩ := List.map_eq_append_iff.mp hmap.symm
  refine ⟨core, ?_, hcore⟩
  have hpairs : vendors.map operandToSymbol =
      (pairs.map fun e => Operand.vendor e.1 e.2).map operandToSymbol := by
    rw [hvendors, List.map_map, List.map_map]
    rfl
  rw [hsplit, List.map_injective_iff.mpr (fun op op' => operandToSymbol_injective op op') hpairs]

/-- The fields of the packet of a frame with a given header. -/
theorem packetOf_bytes (fields : Header) (rest : Bytes) (opcode : AiclOpcode) (ts : List Tree) :
    let q := packetOf opcode (fields.bytes crc32 ++ rest) ts
    q.flags.bits.toNat = fields.flags % 2 ^ 16 ∧
      q.messageId.map Id16.bytes = some fields.messageId ∧
      q.correlationId.bytes = fields.correlationId ∧
      q.deadlineMs.toNat = fields.deadlineMs % 2 ^ 32 := by
  refine ⟨?_, ?_, ?_, ?_⟩
  · simp only [packetOf, field_flags]
    rw [readU16_toNat (BigEndian.toBytes_length 2 _), BigEndian.ofBytes_toBytes_mod]
    rfl
  · simp only [packetOf, field_messageId, Option.map_some,
      Id16.ofSlice_bytes fields.messageId_length]
  · simp only [packetOf, field_correlationId, Id16.ofSlice_bytes fields.correlationId_length]
  · simp only [packetOf, field_deadlineMs]
    rw [readU32_toNat (BigEndian.toBytes_length 4 _), BigEndian.ofBytes_toBytes_mod]
    rfl

/-- The Rust core reads the packet that the Python package wrote. -/
theorem decodeToPacket_encode (crc32 : Bytes → UInt32) (p : Packet) (checksum : Bool)
    (hop : isAssigned p.operation = true)
    (hflags : 0 ≤ p.flags ∧ p.flags < 2 ^ 16 ∧ p.flags.land 0x0100 = 0) {bytes : Bytes}
    (hencode : Bin.encode crc32 p checksum = .ok bytes)
    (hlimit : payloadLen bytes ≤ 16 * 1024 * 1024) :
    ∃ q, AiclCodec.new.decodeToPacket crc32 bytes = .ok q ∧ Received p checksum q := by
  obtain ⟨body, fields, hbody, hfields, hbytes⟩ := Bin.encode_eq_ok hencode
  have hassoc : bytes = fields.bytes crc32 ++
      (body ++ trailerOf crc32 checksum (fields.bytes crc32 ++ body)) :=
    hbytes.trans (List.append_assoc _ _ _)
  have hdeclared : payloadLen bytes = body.length := by
    rw [hbytes, hfields.declared]
  rw [hdeclared] at hlimit
  obtain ⟨exts, ts, hexts, hpayload, hitems⟩ := Bin.buildPayload_spells hbody (by omega)
  obtain ⟨pairs, rfl⟩ := exists_extensions (Bin.appendExtensions_vendor p exts hexts)
  obtain ⟨opcode, hopcode, hoperation⟩ := opcodeByte_assigned hop
  obtain ⟨hnonneg, hlt, hclear⟩ := hflags
  have hflag := Bin.wireFlags_trailer (fun _ => hclear) hfields.flags_eq
  obtain ⟨n, hn⟩ := Int.eq_ofNat_of_zero_le hnonneg
  rw [hn] at hlt hclear
  have hsum := wireFlags_eq_add checksum hn (by omega) (Int.ofNat_inj.mp hclear) hfields.flags_eq
  have hmod := Nat.mod_eq_of_lt hfields.flags_lt
  have hdecode := frame_decodes hbytes hfields.version_eq hfields.payloadLen_eq hlimit
    (by rw [hmod]; exact hflag) hpayload hopcode
  obtain ⟨hq_flags, hq_message, hq_correlation, hq_deadline⟩ :=
    @packetOf_bytes crc32 fields _ opcode ts
  rw [← hassoc] at hq_flags hq_message hq_correlation hq_deadline
  refine ⟨_, hdecode, hoperation, ?_, ?_, ?_, ?_, ?_⟩
  · rw [hq_flags, hmod, hsum, hn]
    split <;> rfl
  · rw [hq_message, hfields.messageId_eq]
  · rw [hq_correlation, hfields.correlationId_eq]
  · rw [hq_deadline, Nat.mod_eq_of_lt hfields.deadlineMs_lt, hfields.deadlineMs_eq]
  · cases hpayload with
    | mk _ hts =>
        obtain ⟨core, hsplit, hcore⟩ := split_operands hts hitems
        refine ⟨core, pairs, hsplit, hcore, fun hsingle => ?_, hexts⟩
        rw [hcore]
        exact List.map_congr_left fun s hs => congrArg sorted (rounded_of_single (hsingle s hs))

/-- A call with a nested operand and one extension. -/
def samplePacket : Packet where
  sessionId := List.replicate 16 0
  messageId := List.replicate 16 1
  operation := 0x10
  symbols := [.int .u8 7, .list [.null, .bool true]]
  sessionId_length := Isa.Frame.zeroId_length
  messageId_length := Isa.Frame.oneId_length
  correlationId_length := Isa.Frame.zeroId_length
  symbols_wellFormed := by
    simp only [List.forall_mem_cons, Symbol.all_list_iff]
    exact ⟨.of_leaf trivial trivial,
      ⟨⟨trivial, .of_leaf trivial trivial, .of_leaf trivial trivial, by simp⟩, by simp⟩⟩
  responseSymbols_wellFormed := Bin.noSymbols_wellFormed
  metadata_nodupKeys := Bin.noMetadata_nodupKeys

/-- The Rust core reads that call, sent with a checksum. -/
theorem decodeToPacket_encode_sample :
    ∃ bytes, Bin.encode Crc32.ieee samplePacket true = .ok bytes ∧
      ∃ q, AiclCodec.new.decodeToPacket Crc32.ieee bytes = .ok q ∧ Received samplePacket true q := by
  have hok : (do
      let bytes ← Bin.encode Crc32.ieee samplePacket true
      Bin.raiseIf (16 * 1024 * 1024 < payloadLen bytes) .tlvError "").isOk = true := by
    decide +kernel
  obtain ⟨_, hrun⟩ := Outcome.isOk_iff.mp hok
  obtain ⟨bytes, hbytes, hshort⟩ := Outcome.bind_eq_ok_iff.mp hrun
  exact ⟨bytes, hbytes, decodeToPacket_encode Crc32.ieee samplePacket true (by decide)
    ⟨by decide, by decide, by decide⟩ hbytes
      (Nat.le_of_not_lt (Outcome.failIf_eq_ok_iff.mp hshort))⟩

end Aicl.Interop
