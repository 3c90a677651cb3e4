import Aicl.CoreRust.PacketRoundTrip

/-!
# Raw instructions of the Rust core

{lit}`AiclInstruction` of {lit}`core-rust/src/instruction.rs`: an opcode with operand bytes.
The conversion from a packet takes all of the payload for the operand bytes, also the opcode
byte in front of the operand count.  The two readers of the bytes take them to start with the
operand count.

Main results:

- Theorem {lit}`AiclInstruction.from_eq`: the instruction of a packet.
- Theorem {lit}`AiclInstruction.carries_iff`: when the readers agree with the packet.
-/

namespace Aicl.CoreRust

open Isa (Varint)
open Outcome (failIf)

/-! ## Instructions -/

/-- A raw instruction. -/
structure AiclInstruction where
  opcode : AiclOpcode
  operandBytes : Bytes
deriving DecidableEq, Repr

namespace AiclInstruction

/-- The loop of {lit}`decode_varint`, at byte {lit}`i`. -/
def decodeVarintLoop : (i : Nat) → (shift value : UInt32) → Bytes → AiclResult (UInt32 × Nat)
  | _, _, _, [] => .err (.new .truncated "varint truncated")
  | i, shift, value, byte :: data =>
      if 4 ≤ i then .err (.new .varintOverflow "varint exceeds 4 bytes")
      else
        let value := value ||| ((byte &&& 0x7F).toUInt32 <<< shift)
        if byte &&& 0x80 = 0 then .ok (value, i + 1)
        else decodeVarintLoop (i + 1) (shift + 7) value data

/-- {lit}`decode_varint` of the module. -/
def decodeVarint (data : Bytes) : AiclResult (UInt32 × Nat) := decodeVarintLoop 0 0 0 data

/-- {lit}`operand_count_from_bytes`. -/
def operandCountFromBytes (instr : AiclInstruction) : AiclResult UInt32 :=
  match decodeVarint instr.operandBytes with
  | .ok (v, _) => .ok v
  | .err e => .err (.new .varintOverflow s!"instruction operand count: {e.message}")
  | .panic => .panic

/-- {lit}`validate_max_size`. -/
def validateMaxSize (instr : AiclInstruction) (max : Nat) : AiclResult Unit := do
  let total := 1 + instr.operandBytes.length
  failIf (max < total) (.new .payloadTooLarge s!"instruction {total} > {max} bytes")

/-- The wire bytes of a packet, or of {lit}`nop` when it is not encoded. -/
def wireOf (crc32 : Bytes → UInt32) (uuidV4 : Id16) (pkt : AiclPacket) : AiclResult Bytes :=
  match AiclCodec.new.encode crc32 uuidV4 pkt with
  | .ok wire => .ok wire
  | .err _ =>
      match AiclCodec.new.encode crc32 uuidV4 .nop with
      | .ok wire => .ok wire
      | _ => .panic
  | .panic => .panic

/-- {lit}`from`: the opcode stays that of the packet. -/
def from_ (crc32 : Bytes → UInt32) (uuidV4 : Id16) (pkt : AiclPacket) :
    AiclResult AiclInstruction := do
  let wire ← wireOf crc32 uuidV4 pkt
  let payload := if headerSize < wire.length then wire.drop headerSize else []
  pure ⟨pkt.opcode, payload⟩

/-! ## The instruction of a packet -/

variable {crc32 : Bytes → UInt32} {uuidV4 : Id16} {pkt : AiclPacket}

/-- What follows the header of a frame is its payload. -/
theorem drop_frame (crc32 : Bytes → UInt32) (uuidV4 : Id16) (pkt : AiclPacket) :
    let wire := (headerOf uuidV4 pkt).bytes crc32 ++ payloadBytes pkt
    (if headerSize < wire.length then wire.drop headerSize else []) = payloadBytes pkt := by
  have hlength : ((headerOf uuidV4 pkt).bytes crc32).length = headerSize :=
    Isa.Frame.Header.bytes_length crc32 _
  intro wire
  have hlong : headerSize < wire.length := by
    rw [List.length_append, hlength, payloadBytes, List.length_cons]
    exact Nat.lt_add_of_pos_right (Nat.succ_pos _)
  rw [if_pos hlong]
  exact List.drop_left' hlength

/-- The encoder takes the packet without operands. -/
theorem encode_nop (crc32 : Bytes → UInt32) (uuidV4 : Id16) :
    AiclCodec.new.encode crc32 uuidV4 .nop =
      .ok ((headerOf uuidV4 .nop).bytes crc32 ++ payloadBytes .nop) := by
  have hsize : (headerOf uuidV4 .nop).payloadLen = 2 := rfl
  refine encode_eq_ok_iff.mpr ⟨?_, rfl⟩
  rw [hsize]
  decide

/-- The instruction of a packet has its opcode and its payload, or the payload of
{lit}`nop` when the encoder refuses it. -/
theorem from_eq (crc32 : Bytes → UInt32) (uuidV4 : Id16) (pkt : AiclPacket) :
    from_ crc32 uuidV4 pkt =
      .ok ⟨pkt.opcode,
        if maxPayloadSize < (headerOf uuidV4 pkt).payloadLen then payloadBytes .nop
        else payloadBytes pkt⟩ := by
  have hencode := encode_eq crc32 .new uuidV4 pkt
  have hlimit : AiclCodec.new.maxPayload = maxPayloadSize := rfl
  rw [hlimit] at hencode
  by_cases hlarge : maxPayloadSize < (headerOf uuidV4 pkt).payloadLen
  · rw [if_pos hlarge] at hencode ⊢
    have hwire : wireOf crc32 uuidV4 pkt =
        .ok ((headerOf uuidV4 .nop).bytes crc32 ++ payloadBytes .nop) := by
      simp only [wireOf, hencode, encode_nop]
    simp only [from_, hwire, Outcome.ok_bind]
    rw [drop_frame]
    rfl
  · rw [if_neg hlarge] at hencode ⊢
    have hwire : wireOf crc32 uuidV4 pkt =
        .ok ((headerOf uuidV4 pkt).bytes crc32 ++ payloadBytes pkt) := by
      simp only [wireOf, hencode]
    simp only [from_, hwire, Outcome.ok_bind]
    rw [drop_frame]
    rfl

/-! ## The operand count -/

/-- Both loops accept the same numerals. -/
theorem decodeVarintLoop_eq_ok_iff {r : UInt32 × Nat} (data : Bytes) (i : Nat)
    (shift value : UInt32) :
    decodeVarintLoop i shift value data = .ok r ↔
      CoreRust.decodeVarintLoop i shift value data = .ok r := by
  induction data generalizing i shift value with
  | nil =>
      constructor
      · intro h
        cases h
      · intro h
        cases h
  | cons byte data ih =>
      rw [decodeVarintLoop, CoreRust.decodeVarintLoop]
      by_cases hlong : 4 ≤ i
      · rw [if_pos hlong, if_pos hlong]
        constructor
        · intro h
          cases h
        · intro h
          cases h
      · rw [if_neg hlong, if_neg hlong]
        by_cases hlast : byte &&& 0x80 = 0
        · rw [if_pos hlast, if_pos hlast]
        · rw [if_neg hlast, if_neg hlast]
          exact ih _ _ _

/-- Both loops refuse the others. -/
theorem decodeVarintLoop_ne_panic (data : Bytes) (i : Nat) (shift value : UInt32) :
    decodeVarintLoop i shift value data ≠ .panic := by
  induction data generalizing i shift value with
  | nil => simp [decodeVarintLoop]
  | cons byte data ih =>
      rw [decodeVarintLoop]
      split
      · simp
      · split
        · simp
        · exact ih _ _ _

/-- The count that is read is the varint that the operand bytes start with. -/
theorem operandCount_eq_iff {instr : AiclInstruction} {n : Nat} :
    (∃ v, instr.operandCountFromBytes = .ok v ∧ v.toNat = n) ↔
      ∃ bs post, instr.operandBytes = bs ++ post ∧ Varint n bs := by
  constructor
  · rintro ⟨v, hcount, rfl⟩
    unfold operandCountFromBytes at hcount
    split at hcount
    · next w len hdecode =>
        cases hcount
        rcases decodeVarint_eq_ok_iff.mp ((decodeVarintLoop_eq_ok_iff _ _ _ _).mp hdecode) with
          ⟨bs, post, hbytes, hvarint, _⟩
        exact ⟨bs, post, hbytes, hvarint⟩
    · cases hcount
    · cases hcount
  · rintro ⟨bs, post, hbytes, hvarint⟩
    have hdecode : decodeVarint instr.operandBytes = .ok (UInt32.ofNat n, bs.length) := by
      rw [hbytes]
      exact (decodeVarintLoop_eq_ok_iff _ _ _ _).mpr (decodeVarint_append hvarint post)
    refine ⟨UInt32.ofNat n, ?_, ?_⟩
    · simp only [operandCountFromBytes, hdecode]
    · exact hvarint.toNat_ofNat

/-- A byte before a written count makes it another numeral, unless it is itself that number,
or adds nothing to a count of zero. -/
theorem starts_with_count_iff {opcode : UInt8} {n : Nat} {items : Bytes} :
    (∃ bs post, opcode :: (encodeLen n ++ items) = bs ++ post ∧ Varint n bs) ↔
      opcode.toNat < 0x80 ∧ opcode.toNat = n ∨ opcode = 0x80 ∧ n = 0 := by
  constructor
  · rintro ⟨bs, post, hbytes, hvarint⟩
    have hcount := encodeLen_varint hvarint.lt
    have hshort := hvarint.2
    cases hvarint.1 with
    | last hlow =>
        rw [List.cons_append, List.cons_eq_cons] at hbytes
        rw [hbytes.1]
        exact .inl ⟨hlow, rfl⟩
    | @more b m bs hhigh hrest =>
        rw [List.cons_append, List.cons_eq_cons] at hbytes
        have hinner : Varint m bs := ⟨hrest, (Nat.le_succ _).trans hshort⟩
        have hsame := (hcount.unique hinner hbytes.2).1
        have hbyte := b.toNat_lt
        have hvalue : b.toNat = 0x80 := by omega
        refine .inr ⟨hbytes.1.trans (UInt8.toNat_inj.mp hvalue), ?_⟩
        omega
  · rintro (⟨hlow, rfl⟩ | ⟨rfl, rfl⟩)
    · exact ⟨[opcode], encodeLen opcode.toNat ++ items, rfl, .last hlow, by simp⟩
    · have hzero : Leb128 0 [0x80, 0] :=
        @Leb128.more 0x80 0 [0] (by decide) (@Leb128.last 0 (by decide))
      exact ⟨[0x80, 0], items, rfl, hzero, by decide⟩

/-- The opcode byte of a packet stands for its operand count: it is that number, or adds
nothing to a count of zero. -/
def CountedByOpcode (pkt : AiclPacket) : Prop :=
  pkt.opcode.toU8.toNat < 0x80 ∧ pkt.opcode.toU8.toNat = pkt.operands.length ∨
    pkt.opcode.toU8 = 0x80 ∧ pkt.operands.length = 0

instance (pkt : AiclPacket) : Decidable (CountedByOpcode pkt) :=
  inferInstanceAs (Decidable (_ ∨ _))

/-! ## What an instruction says of its packet -/

/-- The readers of an instruction agree with the packet that it was made from. -/
structure Carries (pkt : AiclPacket) (max : Nat) (instr : AiclInstruction) : Prop where
  opcode : instr.opcode = pkt.opcode
  count : ∃ v, instr.operandCountFromBytes = .ok v ∧ v.toNat = pkt.operands.length
  size : instr.validateMaxSize max = .ok () ↔ (payloadBytes pkt).length ≤ max

/-- When the size is accepted: the opcode byte counts twice. -/
theorem validateMaxSize_eq_ok_iff {instr : AiclInstruction} {max : Nat} :
    instr.validateMaxSize max = .ok () ↔ instr.operandBytes.length < max := by
  unfold validateMaxSize
  rw [Outcome.failIf_eq_ok_iff]
  omega

/-- The instruction of a packet that the encoder takes agrees with it exactly when the opcode
byte stands for the operand count and the payload does not have the largest size itself. -/
theorem carries_iff (crc32 : Bytes → UInt32) (uuidV4 : Id16) (pkt : AiclPacket) (max : Nat)
    (frame : Bytes) (hencode : AiclCodec.new.encode crc32 uuidV4 pkt = .ok frame) :
    ∃ instr, from_ crc32 uuidV4 pkt = .ok instr ∧
      (Carries pkt max instr ↔ CountedByOpcode pkt ∧ (payloadBytes pkt).length ≠ max) := by
  have hlimit : ¬ maxPayloadSize < (headerOf uuidV4 pkt).payloadLen :=
    Nat.not_lt.mpr (encode_eq_ok_iff.mp hencode).1
  have hfrom := from_eq crc32 uuidV4 pkt
  rw [if_neg hlimit] at hfrom
  refine ⟨_, hfrom, ?_⟩
  have hcount : (∃ v, (⟨pkt.opcode, payloadBytes pkt⟩ : AiclInstruction).operandCountFromBytes =
      .ok v ∧ v.toNat = pkt.operands.length) ↔ CountedByOpcode pkt :=
    operandCount_eq_iff.trans starts_with_count_iff
  have hsize : ((⟨pkt.opcode, payloadBytes pkt⟩ : AiclInstruction).validateMaxSize max = .ok () ↔
      (payloadBytes pkt).length ≤ max) ↔ (payloadBytes pkt).length ≠ max := by
    rw [validateMaxSize_eq_ok_iff]
    simp only
    omega
  constructor
  · intro h
    exact ⟨hcount.mp h.count, hsize.mp h.size⟩
  · rintro ⟨hopcode, hmax⟩
    exact ⟨rfl, hcount.mpr hopcode, hsize.mpr hmax⟩

/-- The instruction of {lit}`nop` agrees with it. -/
theorem carries_nop : ∃ instr, from_ Crc32.ieee .zero .nop = .ok instr ∧ Carries .nop 64 instr := by
  rcases carries_iff Crc32.ieee .zero .nop 64 _ (encode_nop Crc32.ieee .zero) with
    ⟨instr, hfrom, hcarries⟩
  exact ⟨instr, hfrom, hcarries.mpr ⟨by decide, by decide⟩⟩

/-- The instruction of a greeting without operands has one operand, by its opcode byte, and is
larger than the two bytes of its payload. -/
theorem not_carries_hello :
    (∃ frame, AiclCodec.new.encode Crc32.ieee .zero (.new .hello) = .ok frame) ∧
      ∃ instr, from_ Crc32.ieee .zero (.new .hello) = .ok instr ∧
        instr.operandCountFromBytes = .ok 1 ∧ (AiclPacket.new .hello).operands.length = 0 ∧
          (payloadBytes (.new .hello)).length = 2 ∧ instr.validateMaxSize 2 ≠ .ok () ∧
            ¬ Carries (.new .hello) 2 instr := by
  have hfrom : from_ Crc32.ieee .zero (.new .hello) =
      .ok ⟨.hello, payloadBytes (.new .hello)⟩ := (from_eq _ _ _).trans rfl
  refine ⟨⟨_, encode_eq_ok_iff.mpr ⟨by decide, rfl⟩⟩, _, hfrom, rfl, rfl, rfl, ?_, ?_⟩
  · intro hsize
    cases hsize
  · intro hcarries
    rcases hcarries.count with ⟨v, hcount, hzero⟩
    cases hcount
    exact absurd hzero (by decide)

end AiclInstruction

end Aicl.CoreRust
