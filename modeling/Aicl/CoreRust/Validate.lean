import Aicl.CoreRust.LocalPath

/-!
# What header validation checks

The checks of the Rust decoders as conditions on the bytes of a frame, and the
packet that a frame carries.  The conditions mention the fields of the header
and the operand grammar only.

Main results:

- Theorem {lit}`operandPass_sat`: the operand pass accepts exactly the payloads
  of the lenient grammar.
- Theorem {lit}`validateHeader_decides`: validation accepts exactly the valid
  frames, except that it panics on a bare header.
- Theorem {lit}`toPacket_viewOf`: the packet of a view.
- Theorem {lit}`decodeToPacketFromSlice_of_startsWith`: the packet of a slice.
-/

namespace Aicl.CoreRust

open Outcome (failIf index slice sliceFrom Decides Reads)
open Isa (Varint Tree DerivesList IsNullOrReserved Payload phrases_derives_iff)
open Isa.Frame

/-! ## Reading the header -/

/-- A slice inside the data is a field. -/
theorem slice_eq_field {data : Bytes} {a b : Nat} (hab : a ≤ b) (hb : b ≤ data.length) :
    (slice data a b : AiclResult Bytes) = .ok (field data a b) :=
  Outcome.slice_of_le hab hb

/-- The 16-bit word at a position inside the data. -/
theorem wordU16_eq {data : Bytes} {pos : Nat} (h : pos + 2 ≤ data.length) :
    wordU16 data pos = .ok (readU16 (field data pos (pos + 2))) := by
  unfold wordU16
  rw [slice_eq_field (by omega) h]
  rfl

/-- The 32-bit word at a position inside the data. -/
theorem wordU32_eq {data : Bytes} {pos : Nat} (h : pos + 4 ≤ data.length) :
    wordU32 data pos = .ok (readU32 (field data pos (pos + 4))) := by
  unfold wordU32
  rw [slice_eq_field (by omega) h]
  rfl

/-- The identifier at a position inside the data. -/
theorem idAt_eq {data : Bytes} {pos : Nat} (h : pos + 16 ≤ data.length) :
    idAt data pos = .ok (Id16.ofSlice (field data pos (pos + 16))) := by
  unfold idAt
  rw [slice_eq_field (by omega) h]
  rfl

/-- The payload length as the decoders read it. -/
theorem readU32_payloadLen {data : Bytes} (h : headerSize ≤ data.length) :
    (readU32 (field data 44 48)).toNat = payloadLen data :=
  readU32_toNat (field_length (by simp only [headerSize] at h; omega))

/-- The trailer flag as the decoders test it. -/
theorem readU16_flags_iff {data : Bytes} (h : headerSize ≤ data.length) :
    readU16 (field data 6 8) &&& 0x0100 ≠ 0 ↔ HasTrailer data := by
  have hnat : (readU16 (field data 6 8)).toNat = flags data :=
    readU16_toNat (field_length (by simp only [headerSize] at h; omega))
  rw [Ne, ← UInt16.toNat_inj, UInt16.toNat_and, hnat]
  rfl

/-- The major version as the decoders test it. -/
theorem readU16_major_iff {data : Bytes} (h : headerSize ≤ data.length) :
    readU16 (field data 4 6) >>> 8 = 1 ↔ version data / 256 = 1 := by
  have hnat : (readU16 (field data 4 6)).toNat = version data :=
    readU16_toNat (field_length (by simp only [headerSize] at h; omega))
  rw [← UInt16.toNat_inj, UInt16.toNat_shiftRight, hnat]
  exact iff_of_eq (congrArg (· = 1) (Nat.shiftRight_eq_div_pow _ 8))

/-- Comparing a checksum field with a checksum. -/
theorem readU32_eq_iff {bs : Bytes} (h : bs.length = 4) (c : UInt32) :
    readU32 bs = c ↔ BigEndian.ofBytes bs = c.toNat := by
  rw [← UInt32.toNat_inj, readU32_toNat h]

/-- The slice of a complete payload. -/
theorem slice_payload {data : Bytes} (h : total data ≤ data.length) :
    (slice data headerSize (headerSize + payloadLen data) : AiclResult Bytes) =
      .ok (payload data) :=
  slice_eq_field (by omega) h

variable {crc32 : Bytes → UInt32}

/-! ## The first checks -/

/-- What all decoders check first. -/
structure PreludeOk (crc32 : Bytes → UInt32) (data : Bytes) : Prop where
  length_le : headerSize ≤ data.length
  magic_eq : field data 0 4 = magic
  major_eq : version data / 256 = 1
  headerCrc : HeaderCrcOk crc32 data

/-- The first checks of a decoder, whatever its messages. -/
theorem checkPrelude_decides (m : PreludeMessages) (data : Bytes) :
    (checkPrelude crc32 m data).Decides (PreludeOk crc32 data) := by
  unfold checkPrelude
  refine Decides.congr (P := ¬ data.length < headerSize ∧ ¬ field data 0 4 ≠ magic ∧
    ¬ readU16 (field data 4 6) >>> 8 ≠ 1 ∧
      ¬ readU32 (field data 52 56) ≠ crc32 (field data 0 52))
    (Decides.bind (Outcome.failIf_decides _ _) fun hlen => ?_) ?_
  · have hle : headerSize ≤ data.length := by omega
    simp only [headerSize] at hle
    rw [slice_eq_field (by omega) (by omega), Outcome.ok_bind]
    refine Decides.bind (Outcome.failIf_decides _ _) fun _ => ?_
    rw [wordU16_eq (by omega), Outcome.ok_bind]
    refine Decides.bind (Outcome.failIf_decides _ _) fun _ => ?_
    rw [wordU32_eq (by omega), Outcome.ok_bind, slice_eq_field (by omega) (by omega),
      Outcome.ok_bind]
    exact Outcome.failIf_decides _ _
  · have hcrc : headerSize ≤ data.length →
        (readU32 (field data 52 56) = crc32 (field data 0 52) ↔ HeaderCrcOk crc32 data) := by
      intro hle
      exact readU32_eq_iff (field_length (by simp only [headerSize] at hle; omega)) _
    simp only [not_lt, not_not]
    constructor
    · rintro ⟨hlen, hmagic, hmajor, hhdr⟩
      exact ⟨hlen, hmagic, (readU16_major_iff hlen).mp hmajor, (hcrc hlen).mp hhdr⟩
    · rintro ⟨hlen, hmagic, hmajor, hhdr⟩
      exact ⟨hlen, hmagic, (readU16_major_iff hlen).mpr hmajor, (hcrc hlen).mpr hhdr⟩

/-! ## The operand pass -/

/-- The operand loop of validation reads as many operands as the count says. -/
theorem skip_read {L : Nat} (n : Nat) :
    Reads L (Outcome.loop skipStep n 0 ())
      (fun _ b => ∃ ts, ts.length = n ∧ DerivesList IsNullOrReserved ts b) NotUnknownType := by
  have hstep : ∀ i (u : Unit), Reads L (skipStep i u)
      (fun u' b => ∃ t, Isa.Derives IsNullOrReserved t b ∧ u' = ()) NotUnknownType := by
    intro i u
    refine ((decodeOperand_reads L (UInt32.ofNat i)).nested.map fun _ => ()).congr fun u' b => ?_
    constructor
    · rintro ⟨_, ⟨t, ht, rfl⟩, _⟩
      exact ⟨t, ht, rfl⟩
    · rintro ⟨t, ht, _⟩
      exact ⟨_, ⟨t, ht, rfl⟩, rfl⟩
  refine (Reads.loop (f := fun _ (_ : Tree) => ()) hstep n 0 ()).congr fun u b => ?_
  simp only [phrases_derives_iff, and_true]

/-- A count and that many operands, as the decoders read them. -/
theorem counted_operands_read {σ : Type} {L : Nat} {p : Nat → Bytes → Nat → AiclResult (σ × Nat)}
    {f : List Tree → σ}
    (hp : ∀ n, Reads L (p n)
      (fun s b => ∃ ts, ts.length = n ∧ DerivesList IsNullOrReserved ts b ∧ s = f ts)
      NotUnknownType) :
    Reads L (fun data pos => readVarint data pos >>= fun r => p r.1.toNat data r.2)
      (fun s b => ∃ ts len body, b = len ++ body ∧ Varint ts.length len ∧
        DerivesList IsNullOrReserved ts body ∧ s = f ts) NotUnknownType := by
  refine (readVarint_reads.bind fun v _ _ => hp v.toNat).congr fun s b => ?_
  constructor
  · rintro ⟨v, len, body, rfl, hv, ts, hlen, hts, rfl⟩
    exact ⟨ts, len, body, rfl, hlen ▸ hv, hts, rfl⟩
  · rintro ⟨ts, len, body, rfl, hv, hts, rfl⟩
    have hnat := hv.toNat_ofNat
    exact ⟨UInt32.ofNat ts.length, len, body, rfl, hnat.symm ▸ hv, ts, hnat.symm, hts, rfl⟩

/-- The operand pass accepts exactly the payloads of the lenient grammar, and
never reports an unknown type. -/
theorem operandPass_sat (payload : Bytes) :
    (operandPass payload).Sat (fun _ => ∃ opcode ts, Payload IsNullOrReserved opcode ts payload)
      fun e => (¬ ∃ opcode ts, Payload IsNullOrReserved opcode ts payload) ∧ NotUnknownType e := by
  cases payload with
  | nil =>
      refine ⟨?_, by simp [NotUnknownType]⟩
      rintro ⟨opcode, ts, h⟩
      cases h
  | cons opcode rest =>
      have hread := counted_operands_read (L := rest.length + 1) (f := fun _ => ())
        fun n => (skip_read n).congr fun _ _ => by simp only [and_true]
      have hpayload : (∃ opcode' ts, Payload IsNullOrReserved opcode' ts (opcode :: rest)) ↔
          ∃ u : Unit, ∃ ts len body, rest = len ++ body ∧ Varint ts.length len ∧
            DerivesList IsNullOrReserved ts body ∧ u = () := by
        constructor
        · rintro ⟨_, ts, h⟩
          cases h with
          | mk hlen hts => exact ⟨(), ts, _, _, rfl, hlen, hts, rfl⟩
        · rintro ⟨_, ts, len, body, rfl, hlen, hts, _⟩
          exact ⟨opcode, ts, .mk hlen hts⟩
      rw [hpayload]
      unfold operandPass
      rw [Outcome.failIf_of_not (by simp), Outcome.ok_bind, ← Outcome.bind_assoc]
      exact hread.to_end [opcode] (Nat.lt_succ_self _)
        (e := fun pos => .new .trailingBytes
          s!"operand payload consumed {pos} of {(opcode :: rest).length} bytes")
        fun n => by simp [NotUnknownType]

/-- The operand pass accepts exactly the payloads of the lenient grammar. -/
theorem operandPass_decides (payload : Bytes) :
    (operandPass payload).Decides (∃ opcode ts, Payload IsNullOrReserved opcode ts payload) :=
  (operandPass_sat payload).mono (fun _ h => h) fun _ h => h.1

/-! ## Valid frames -/

/-- What validation requires of a frame. -/
structure Valid (crc32 : Bytes → UInt32) (codec : AiclCodec) (data : Bytes) : Prop where
  prelude : PreludeOk crc32 data
  limit : payloadLen data ≤ codec.maxPayload
  complete : total data ≤ data.length
  trailer : HasTrailer data →
    total data + 4 ≤ data.length ∧ (codec.checkCrc = true → TrailerCrcOk crc32 data)
  opcode : ∃ byte, data[headerSize]? = some byte ∧ (AiclOpcode.fromU8 byte).isSome
  payload : ∃ byte ts, Payload IsNullOrReserved byte ts (payload data)

/-- A frame that is a header and nothing else, and says so. -/
def HeaderOnly (crc32 : Bytes → UInt32) (data : Bytes) : Prop :=
  PreludeOk crc32 data ∧ data.length = headerSize ∧ payloadLen data = 0

/-- The trailer check of validation. -/
theorem checkTrailer_decides (hasTrailer checkCrc : Bool) {data : Bytes}
    (h : total data ≤ data.length) :
    (checkTrailer crc32 hasTrailer checkCrc (total data) data).Decides
      (hasTrailer = true →
        total data + 4 ≤ data.length ∧ (checkCrc = true → TrailerCrcOk crc32 data)) := by
  unfold checkTrailer
  cases hasTrailer with
  | false => exact Outcome.decides_true.congr (by simp)
  | true =>
      refine Decides.congr (P := ¬ data.length < total data + 4 ∧
        (checkCrc = true → TrailerCrcOk crc32 data))
        (Decides.bind (Outcome.failIf_decides _ _) fun hlen => ?_) (by simp)
      cases checkCrc with
      | false => exact Outcome.decides_true.congr (by simp)
      | true =>
          have hword : readU32 (field data (total data) (total data + 4)) =
              crc32 (field data 0 (total data)) ↔ TrailerCrcOk crc32 data :=
            readU32_eq_iff (by rw [field_length (by omega)]; omega) _
          simp only [if_true]
          rw [wordU32_eq (by omega), Outcome.ok_bind, slice_eq_field (by omega) h, Outcome.ok_bind]
          refine (Outcome.failIf_decides _ _).congr ?_
          rw [not_not, hword]
          simp

/-- The opcode check of the decoders. -/
theorem opcodeOf_sat (label : String) (byte : UInt8) :
    (opcodeOf label byte).Sat (fun opcode => AiclOpcode.fromU8 byte = some opcode)
      fun _ => AiclOpcode.fromU8 byte = none := by
  unfold opcodeOf
  cases AiclOpcode.fromU8 byte <;> rfl

/-- An assigned opcode passes the check. -/
theorem opcodeOf_of_fromU8 {byte : UInt8} {opcode : AiclOpcode} (label : String)
    (h : AiclOpcode.fromU8 byte = some opcode) : opcodeOf label byte = .ok opcode := by
  unfold opcodeOf
  rw [h]

/-- An opcode check in front of another check. -/
theorem opcodeOf_bind_decides (label : String) (byte : UInt8) {f : AiclOpcode → AiclResult Unit}
    {P : Prop} (hf : ∀ opcode, (f opcode).Decides P) :
    (opcodeOf label byte >>= f).Decides ((AiclOpcode.fromU8 byte).isSome ∧ P) := by
  unfold opcodeOf
  cases AiclOpcode.fromU8 byte with
  | none => exact fun h => Bool.noConfusion h.1
  | some opcode => exact (hf opcode).congr (by simp)

/-- A frame with a valid prelude and a complete payload that is not a bare header
has an opcode byte. -/
theorem headerSize_lt_of_not_headerOnly {data : Bytes} (h : ¬ HeaderOnly crc32 data)
    (hpre : PreludeOk crc32 data) (htotal : total data ≤ data.length) :
    headerSize < data.length := by
  have hle := hpre.length_le
  rcases Nat.lt_or_eq_of_le hle with hlt | heq
  · exact hlt
  · refine absurd ⟨hpre, heq.symm, ?_⟩ h
    simp only [total, headerSize] at htotal heq
    omega

/-- Validation accepts exactly the valid frames; it does not panic, a bare header
apart. -/
theorem validateHeader_decides (codec : AiclCodec) {data : Bytes}
    (h : ¬ HeaderOnly crc32 data) :
    (validateHeader crc32 codec.maxPayload codec.checkCrc data).Decides
      (Valid crc32 codec data) := by
  unfold validateHeader
  refine Decides.congr (P := PreludeOk crc32 data ∧ payloadLen data ≤ codec.maxPayload ∧
    total data ≤ data.length ∧
    (HasTrailer data →
      total data + 4 ≤ data.length ∧ (codec.checkCrc = true → TrailerCrcOk crc32 data)) ∧
    (∃ byte, data[headerSize]? = some byte ∧ (AiclOpcode.fromU8 byte).isSome) ∧
    ∃ byte ts, Payload IsNullOrReserved byte ts (payload data))
    (Decides.bind (checkPrelude_decides _ _) fun hpre => ?_)
    ⟨fun ⟨h1, h2, h3, h4, h5, h6⟩ => ⟨h1, h2, h3, h4, h5, h6⟩,
      fun ⟨h1, h2, h3, h4, h5, h6⟩ => ⟨h1, h2, h3, h4, h5, h6⟩⟩
  have hle := hpre.length_le
  have hlen := readU32_payloadLen hle
  simp only [headerSize] at hle
  rw [wordU16_eq (by omega), Outcome.ok_bind, wordU32_eq (by omega), Outcome.ok_bind]
  simp only [hlen]
  refine Decides.bind ((Outcome.failIf_decides _ _).congr not_lt) fun _ => ?_
  refine Decides.bind ((Outcome.failIf_decides _ _).congr not_lt) fun htotal => ?_
  refine Decides.bind ((checkTrailer_decides _ _ htotal).congr ?_) fun _ => ?_
  · rw [bne_iff_ne, readU16_flags_iff hpre.length_le]
  · have hlt := headerSize_lt_of_not_headerOnly h hpre htotal
    have hbyte : (∃ byte, data[headerSize]? = some byte ∧ (AiclOpcode.fromU8 byte).isSome) ↔
        (AiclOpcode.fromU8 data[headerSize]).isSome := by
      simp [List.getElem?_eq_getElem hlt]
    rw [Outcome.index_of_lt hlt, Outcome.ok_bind, hbyte]
    refine opcodeOf_bind_decides _ _ fun _ => ?_
    rw [slice_payload htotal, Outcome.ok_bind]
    exact operandPass_decides _

/-- Validation of a bare header panics, unless the flags announce a trailer. -/
theorem validateHeader_headerOnly (codec : AiclCodec) {data : Bytes} (h : HeaderOnly crc32 data) :
    validateHeader crc32 codec.maxPayload codec.checkCrc data =
      if HasTrailer data then .err (.new .truncated "trailer missing") else .panic := by
  obtain ⟨hpre, hlength, hzero⟩ := h
  have hlen := readU32_payloadLen hpre.length_le
  have hflag := readU16_flags_iff hpre.length_le
  have hbare : data.length = 56 := hlength
  unfold validateHeader
  rw [(checkPrelude_decides _ _).eq_ok_iff.mpr hpre, Outcome.ok_bind, wordU16_eq (by omega),
    Outcome.ok_bind, wordU32_eq (by omega), Outcome.ok_bind]
  simp only [hlen, hzero]
  rw [Outcome.failIf_of_not (by omega), Outcome.ok_bind,
    Outcome.failIf_of_not (by rw [hlength]; omega), Outcome.ok_bind]
  by_cases htrailer : HasTrailer data
  · have htest : (readU16 (field data 6 (6 + 2)) &&& 0x0100 != 0) = true :=
      bne_iff_ne.mpr (hflag.mpr htrailer)
    have hshort : data.length < headerSize + 0 + 4 := by omega
    rw [htest, if_pos htrailer, checkTrailer, if_pos rfl, failIf, if_pos hshort]
    rfl
  · have htest : (readU16 (field data 6 (6 + 2)) &&& 0x0100 != 0) = false := by
      rw [Bool.eq_false_iff, Ne, bne_iff_ne]
      exact fun hf => htrailer (hflag.mp hf)
    have hpanic : (index data headerSize : AiclResult UInt8) = .panic :=
      Outcome.index_eq_panic_iff.mpr (Nat.le_of_eq hlength)
    rw [htest, if_neg htrailer, hpanic]
    rfl

/-- When validation succeeds. -/
theorem validateHeader_eq_ok_iff (codec : AiclCodec) {data : Bytes} :
    validateHeader crc32 codec.maxPayload codec.checkCrc data = .ok () ↔
      Valid crc32 codec data := by
  by_cases h : HeaderOnly crc32 data
  · have hnot : ¬ Valid crc32 codec data := by
      intro hvalid
      obtain ⟨byte, hbyte, _⟩ := hvalid.opcode
      have hlt := (List.getElem?_eq_some_iff.mp hbyte).1
      exact absurd h.2.1 (Nat.ne_of_gt hlt)
    rw [validateHeader_headerOnly codec h]
    split <;> simp [hnot]
  · exact (validateHeader_decides codec h).eq_ok_iff

/-! ## The packet of a frame -/

/-- The packet that a frame with these operands carries. -/
def packetOf (opcode : AiclOpcode) (data : Bytes) (ts : List Tree) : AiclPacket where
  opcode
  flags := ⟨readU16 (field data 6 8)⟩
  messageId := some (Id16.ofSlice (field data 8 24))
  correlationId := Id16.ofSlice (field data 24 40)
  deadlineMs := readU32 (field data 40 44)
  operands := toOperands ts
  sorted := toOperands_sorted ts

/-- The payload starts with the payload of these operands under this opcode. -/
def StartsWith (data : Bytes) (opcode : AiclOpcode) (ts : List Tree) : Prop :=
  ∃ byte b post, payload data = b ++ post ∧ Payload IsNullOrReserved byte ts b ∧
    AiclOpcode.fromU8 byte = some opcode

/-- The payload is the payload of these operands under this opcode. -/
def Carries (data : Bytes) (opcode : AiclOpcode) (ts : List Tree) : Prop :=
  ∃ byte, Payload IsNullOrReserved byte ts (payload data) ∧ AiclOpcode.fromU8 byte = some opcode

/-- A payload starts with itself. -/
theorem Carries.startsWith {data : Bytes} {opcode : AiclOpcode} {ts : List Tree}
    (h : Carries data opcode ts) : StartsWith data opcode ts := by
  obtain ⟨byte, hb, hop⟩ := h
  exact ⟨byte, payload data, [], (List.append_nil _).symm, hb, hop⟩

/-- A payload starts with at most one payload. -/
theorem StartsWith.unique {data : Bytes} {opcode opcode' : AiclOpcode} {ts ts' : List Tree}
    (h : StartsWith data opcode ts) (h' : StartsWith data opcode' ts') :
    opcode = opcode' ∧ ts = ts' := by
  obtain ⟨byte, b, post, hpayload, hb, hop⟩ := h
  obtain ⟨byte', b', post', hpayload', hb', hop'⟩ := h'
  obtain ⟨rfl, rfl, _⟩ := hb.unique hb' (hpayload.symm.trans hpayload')
  rw [hop] at hop'
  exact ⟨Option.some.inj hop', rfl⟩

/-- The operand loop of the packet decoders, as a reader. -/
theorem operandLoop_reads (L : Nat) :
    Reads L
      (fun payload pos => readVarint payload pos >>= fun r =>
        Outcome.loop (itemStep decodeOperand UInt32.ofNat) r.1.toNat 0 [] payload r.2)
      (fun ops b => ∃ ts len body, b = len ++ body ∧ Varint ts.length len ∧
        DerivesList IsNullOrReserved ts body ∧ ops = toOperands ts) NotUnknownType :=
  counted_operands_read (operands_read UInt32.ofNat)

/-- The packet decoders read the operands of a payload at the front, and do not
panic on a payload with an opcode byte. -/
theorem operandLoop_sat (byte : UInt8) (rest : Bytes) :
    (operandLoop (byte :: rest)).Sat
      (fun ops => ∃ ts b post, byte :: rest = b ++ post ∧ Payload IsNullOrReserved byte ts b ∧
        ops = toOperands ts) NotUnknownType := by
  unfold operandLoop
  rw [← Outcome.bind_assoc]
  refine ((operandLoop_reads _).sound [byte] rest (Nat.lt_succ_self _)).bind ?_
  rintro ⟨_, pos⟩ ⟨_, post, rfl, ⟨ts, len, body, rfl, hlen, hts, rfl⟩, _⟩
  exact ⟨ts, byte :: (len ++ body), post, rfl, .mk hlen hts, rfl⟩

/-- The packet decoders read every payload of the lenient grammar. -/
theorem operandLoop_append {byte : UInt8} {ts : List Tree} {b : Bytes}
    (h : Payload IsNullOrReserved byte ts b) (post : Bytes) :
    operandLoop (b ++ post) = .ok (toOperands ts) := by
  cases h with
  | @mk len body hlen hts =>
      have hread := (operandLoop_reads (L := (len ++ body ++ post).length + 1)).complete
        ⟨ts, len, body, rfl, hlen, hts, rfl⟩ [byte] post (Nat.lt_succ_self _)
      unfold operandLoop
      rw [← Outcome.bind_assoc]
      exact congrArg (· >>= fun r => pure r.1) hread

/-- Certified operands are the operands. -/
theorem collectOperands_of_eq_ok {payload : Bytes} {operands : List Operand}
    (h : operandLoop payload = .ok operands) :
    collectOperands payload = .ok ⟨operands, operandLoop_sorted h⟩ :=
  Outcome.attach_eq_ok_iff.mpr h

/-- Collecting operands, as a postcondition. -/
theorem collectOperands_sat (byte : UInt8) (rest : Bytes) :
    (collectOperands (byte :: rest)).Sat
      (fun ops => ∃ ts b post, byte :: rest = b ++ post ∧ Payload IsNullOrReserved byte ts b ∧
        ops.val = toOperands ts) NotUnknownType := by
  have hsat := operandLoop_sat byte rest
  cases h : collectOperands (byte :: rest) with
  | ok ops =>
      rw [Outcome.attach_eq_ok_iff.mp h] at hsat
      exact hsat
  | err e =>
      rw [Outcome.attach_eq_err_iff.mp h] at hsat
      exact hsat
  | panic =>
      rw [Outcome.attach_eq_panic_iff.mp h] at hsat
      exact hsat

/-- Packets are equal when their data is. -/
theorem AiclPacket.ext_data {p q : AiclPacket} (hopcode : p.opcode = q.opcode)
    (hflags : p.flags = q.flags) (hmessage : p.messageId = q.messageId)
    (hcorrelation : p.correlationId = q.correlationId) (hdeadline : p.deadlineMs = q.deadlineMs)
    (hoperands : p.operands = q.operands) : p = q := by
  cases p
  cases q
  simp_all

/-- The first byte of a complete payload. -/
theorem payload_eq_cons {data : Bytes} {byte : UInt8} {rest : Bytes}
    (h : payload data = byte :: rest) : data[headerSize]? = some byte := by
  have hhead : (payload data)[0]? = some byte := by rw [h]; rfl
  rw [payload, field, List.getElem?_take] at hhead
  split at hhead
  · simpa [headerSize] using hhead
  · simp at hhead

/-- The opcode byte of a payload, as the decoders read it. -/
theorem index_opcode {data b post : Bytes} {byte : UInt8} {ts : List Tree}
    (hpayload : payload data = b ++ post) (hb : Payload IsNullOrReserved byte ts b) :
    (index data headerSize : AiclResult UInt8) = .ok byte := by
  cases hb with
  | mk _ _ =>
      unfold index
      rw [payload_eq_cons hpayload]

/-! ## The standard path -/

/-- The view of a frame. -/
def viewOf (data : Bytes) : PacketView where
  data
  payloadOffset := headerSize
  payloadLength := payloadLen data
  hasTrailer := readU16 (field data 6 8) &&& 0x0100 != 0
  flags_ := readU16 (field data 6 8)

/-- A valid frame has a view. -/
theorem view_of_valid {codec : AiclCodec} {data : Bytes} (h : Valid crc32 codec data) :
    codec.view crc32 data = .ok (viewOf data) := by
  have hle := h.prelude.length_le
  have hlen := readU32_payloadLen hle
  simp only [headerSize] at hle
  unfold AiclCodec.view
  rw [(validateHeader_eq_ok_iff codec).mpr h, Outcome.ok_bind, wordU32_eq (by omega),
    Outcome.ok_bind, wordU16_eq (by omega), Outcome.ok_bind]
  simp only [hlen]
  rfl

/-- The packet of the view of a complete frame. -/
theorem toPacket_viewOf {data : Bytes} (hle : headerSize ≤ data.length)
    (htotal : total data ≤ data.length) {byte : UInt8} {opcode : AiclOpcode} {ts : List Tree}
    {b post : Bytes} (hpayload : payload data = b ++ post)
    (hb : Payload IsNullOrReserved byte ts b) (hop : AiclOpcode.fromU8 byte = some opcode) :
    (viewOf data).toPacket = .ok (packetOf opcode data ts) := by
  simp only [headerSize] at hle
  have hindex : (index data headerSize : AiclResult UInt8) = .ok byte :=
    index_opcode hpayload hb
  have hloop : collectOperands (payload data) = .ok ⟨toOperands ts, toOperands_sorted ts⟩ := by
    rw [hpayload]
    exact collectOperands_of_eq_ok (operandLoop_append hb post)
  unfold PacketView.toPacket PacketView.payload PacketView.opcode PacketView.flags
    PacketView.messageId PacketView.correlationId PacketView.deadlineMs
  simp only [viewOf]
  rw [slice_payload htotal, Outcome.ok_bind, hindex, Outcome.ok_bind,
    opcodeOf_of_fromU8 _ hop, Outcome.ok_bind, wordU16_eq (by omega), Outcome.ok_bind, hloop, Outcome.ok_bind, idAt_eq (by omega),
    Outcome.ok_bind, idAt_eq (by omega), Outcome.ok_bind, wordU32_eq (by omega)]
  rfl

/-- A valid frame carries a packet. -/
theorem Valid.carries {codec : AiclCodec} {data : Bytes} (h : Valid crc32 codec data) :
    ∃ opcode ts, Carries data opcode ts := by
  obtain ⟨byte, ts, hpayload⟩ := h.payload
  obtain ⟨byte', hbyte', hsome⟩ := h.opcode
  have hindex := index_opcode (List.append_nil _).symm hpayload
  obtain rfl : byte = byte' := by
    unfold index at hindex
    rw [hbyte'] at hindex
    exact (Outcome.ok.inj hindex).symm
  obtain ⟨opcode, hop⟩ := Option.isSome_iff_exists.mp hsome
  exact ⟨opcode, ts, byte, hpayload, hop⟩

/-- The packet of a valid frame. -/
theorem decodeToPacket_of_valid {codec : AiclCodec} {data : Bytes} (h : Valid crc32 codec data)
    {opcode : AiclOpcode} {ts : List Tree} (hc : Carries data opcode ts) :
    codec.decodeToPacket crc32 data = .ok (packetOf opcode data ts) := by
  obtain ⟨byte, hpayload, hop⟩ := hc
  unfold AiclCodec.decodeToPacket AiclCodec.decode
  rw [view_of_valid h, Outcome.ok_bind]
  exact toPacket_viewOf h.prelude.length_le h.complete (List.append_nil _).symm hpayload hop

/-- The standard path returns exactly the packets of valid frames. -/
theorem decodeToPacket_eq_ok_iff {codec : AiclCodec} {data : Bytes} {p : AiclPacket} :
    codec.decodeToPacket crc32 data = .ok p ↔
      Valid crc32 codec data ∧ ∃ opcode ts, Carries data opcode ts ∧
        p = packetOf opcode data ts := by
  constructor
  · intro h
    have hvalid : Valid crc32 codec data := by
      obtain ⟨view, hview, _⟩ := Outcome.bind_eq_ok_iff.mp h
      obtain ⟨_, hok, _⟩ := Outcome.bind_eq_ok_iff.mp hview
      exact (validateHeader_eq_ok_iff codec).mp hok
    obtain ⟨opcode, ts, hc⟩ := hvalid.carries
    rw [decodeToPacket_of_valid hvalid hc] at h
    exact ⟨hvalid, opcode, ts, hc, (Outcome.ok.inj h).symm⟩
  · rintro ⟨hvalid, opcode, ts, hc, rfl⟩
    exact decodeToPacket_of_valid hvalid hc

/-! ## The borrowed path -/

/-- What the borrowed decoder requires of a frame. -/
structure Borrowable (crc32 : Bytes → UInt32) (data : Bytes) : Prop where
  prelude : PreludeOk crc32 data
  complete : total data ≤ data.length

/-- The borrowed view of a frame. -/
def borrowedOf (data : Bytes) : BorrowedView where
  data
  payloadOffset := headerSize
  payloadLength := payloadLen data
  hasTrailer := readU16 (field data 6 8) &&& 0x0100 != 0
  flags_ := readU16 (field data 6 8)

/-- The borrowed decoder makes the first checks and the length check. -/
theorem decodeBorrowed_sat (codec : AiclCodec) (data : Bytes) :
    (codec.decodeBorrowed crc32 data).Sat
      (fun v => Borrowable crc32 data ∧ v = borrowedOf data) fun _ => ¬ Borrowable crc32 data := by
  have hprelude := @checkPrelude_decides crc32 borrowedMessages data
  unfold AiclCodec.decodeBorrowed
  cases hcheck : checkPrelude crc32 borrowedMessages data with
  | ok u =>
      rw [hcheck] at hprelude
      have hpre : PreludeOk crc32 data := hprelude
      have hle := hpre.length_le
      have hlen := readU32_payloadLen hle
      simp only [headerSize] at hle
      rw [Outcome.ok_bind, wordU16_eq (by omega), Outcome.ok_bind, wordU32_eq (by omega),
        Outcome.ok_bind]
      simp only [hlen]
      by_cases htotal : data.length < headerSize + payloadLen data
      · rw [failIf, if_pos htotal]
        exact fun hb => absurd hb.complete (Nat.not_le_of_lt htotal)
      · rw [Outcome.failIf_of_not htotal]
        exact ⟨⟨hpre, Nat.le_of_not_lt htotal⟩, rfl⟩
  | err e =>
      rw [hcheck] at hprelude
      exact fun hb => hprelude hb.prelude
  | panic =>
      rw [hcheck] at hprelude
      exact hprelude.elim

/-- The slice decoder reads the packet at the front of a complete payload, and
does not panic when there is an opcode byte. -/
theorem decodeToPacketFromSlice_sat {data : Bytes} (hlt : headerSize < data.length)
    (htotal : total data ≤ data.length) :
    (decodeToPacketFromSlice data).Sat
      (fun p => ∃ opcode ts, StartsWith data opcode ts ∧ p = packetOf opcode data ts)
      fun _ => True := by
  have hlen := readU32_payloadLen (Nat.le_of_lt hlt)
  have hle : 56 ≤ data.length := Nat.le_of_lt hlt
  unfold decodeToPacketFromSlice
  rw [Outcome.failIf_of_not (by omega), Outcome.ok_bind, Outcome.index_of_lt hlt, Outcome.ok_bind]
  refine ((opcodeOf_sat _ _).mono (fun _ h => h) fun _ _ => trivial).bind fun opcode hop => ?_
  rw [wordU16_eq (by omega), Outcome.ok_bind, wordU32_eq (by omega), Outcome.ok_bind]
  simp only [hlen]
  rw [slice_payload htotal, Outcome.ok_bind]
  cases hpayload : payload data with
  | nil => exact trivial
  | cons byte rest =>
      rw [Outcome.failIf_of_not (by simp), Outcome.ok_bind]
      refine ((collectOperands_sat byte rest).mono (fun _ h => h) fun _ _ => trivial).bind ?_
      rintro ⟨ops, hsorted⟩ ⟨ts, b, post, hsplit, hb, hops⟩
      rw [idAt_eq (by omega), Outcome.ok_bind, idAt_eq (by omega), Outcome.ok_bind,
        wordU32_eq (by omega), Outcome.ok_bind]
      have hbyte : data[headerSize] = byte :=
        (List.getElem_eq_iff hlt).mpr (payload_eq_cons hpayload)
      rw [hbyte] at hop
      refine ⟨opcode, ts, ⟨byte, b, post, hpayload.trans hsplit, hb, hop⟩, ?_⟩
      exact AiclPacket.ext_data rfl rfl rfl rfl rfl hops

/-- The slice decoder reads every packet at the front of a complete payload. -/
theorem decodeToPacketFromSlice_of_startsWith {data : Bytes} (hle : headerSize ≤ data.length)
    (htotal : total data ≤ data.length) {opcode : AiclOpcode} {ts : List Tree}
    (h : StartsWith data opcode ts) :
    decodeToPacketFromSlice data = .ok (packetOf opcode data ts) := by
  obtain ⟨byte, b, post, hpayload, hb, hop⟩ := h
  have hlen := readU32_payloadLen hle
  have hle' : 56 ≤ data.length := hle
  have hloop : collectOperands (payload data) = .ok ⟨toOperands ts, toOperands_sorted ts⟩ := by
    rw [hpayload]
    exact collectOperands_of_eq_ok (operandLoop_append hb post)
  have hnonempty : ¬ (payload data).isEmpty := by
    rw [hpayload]
    cases hb
    simp
  unfold decodeToPacketFromSlice
  rw [Outcome.failIf_of_not (by omega), Outcome.ok_bind, index_opcode hpayload hb, Outcome.ok_bind,
    opcodeOf_of_fromU8 _ hop, Outcome.ok_bind, wordU16_eq (by omega), Outcome.ok_bind,
    wordU32_eq (by omega), Outcome.ok_bind]
  simp only [hlen]
  rw [slice_payload htotal, Outcome.ok_bind, Outcome.failIf_of_not hnonempty, Outcome.ok_bind,
    hloop, Outcome.ok_bind, idAt_eq (by omega), Outcome.ok_bind, idAt_eq (by omega),
    Outcome.ok_bind, wordU32_eq (by omega)]
  rfl

/-- The borrowed path returns exactly the packets at the front of complete
payloads. -/
theorem decodeBorrowedToPacket_eq_ok_iff {codec : AiclCodec} {data : Bytes} {p : AiclPacket} :
    codec.decodeBorrowedToPacket crc32 data = .ok p ↔
      Borrowable crc32 data ∧ ∃ opcode ts, StartsWith data opcode ts ∧
        p = packetOf opcode data ts := by
  have hsat := @decodeBorrowed_sat crc32 codec data
  constructor
  · intro h
    obtain ⟨view, hview, hpacket⟩ := Outcome.bind_eq_ok_iff.mp h
    obtain ⟨hb, rfl⟩ := hsat.of_eq_ok hview
    refine ⟨hb, ?_⟩
    rcases Nat.lt_or_eq_of_le hb.prelude.length_le with hlt | heq
    · exact (decodeToPacketFromSlice_sat hlt hb.complete).of_eq_ok hpacket
    · have hpanic : (index data headerSize : AiclResult UInt8) = .panic :=
        Outcome.index_eq_panic_iff.mpr (Nat.le_of_eq heq.symm)
      have hslice : decodeToPacketFromSlice data = .ok p := hpacket
      unfold decodeToPacketFromSlice at hslice
      rw [Outcome.failIf_of_not (by omega), Outcome.ok_bind, hpanic] at hslice
      cases hslice
  · rintro ⟨hb, opcode, ts, hs, rfl⟩
    have hview : codec.decodeBorrowed crc32 data = .ok (borrowedOf data) := by
      cases hd : codec.decodeBorrowed crc32 data with
      | ok v =>
          rw [hd] at hsat
          rw [hsat.2]
      | err e =>
          rw [hd] at hsat
          exact absurd hb hsat
      | panic =>
          rw [hd] at hsat
          exact hsat.elim
    unfold AiclCodec.decodeBorrowedToPacket
    rw [hview, Outcome.ok_bind]
    exact decodeToPacketFromSlice_of_startsWith hb.prelude.length_le hb.complete hs

end Aicl.CoreRust
