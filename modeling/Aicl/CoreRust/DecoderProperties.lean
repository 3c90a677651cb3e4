import Aicl.CoreRust.Validate
import Aicl.Foundation.Crc32

/-!
# What the Rust decoders guarantee

Panic freedom, agreement with the operand grammar, and agreement of the two
decoding paths, each with the exact condition under which it holds.

Main results:

- Theorem {lit}`decoders_ne_panic_iff`: the decoders panic on a bare header and on
  nothing else.
- Theorem {lit}`operandPass_exact_iff`: the operand pass accepts the grammar and
  reports unknown types exactly on payloads without reserved tags.
- Theorem {lit}`borrowed_agrees_iff`: the borrowed path agrees with the standard
  path unless it skips a check that the standard path fails.
-/

namespace Aicl.CoreRust

open Outcome (index)
open Isa (IsNullOrReserved Payload WellFormed HoldsReserved)
open Isa.Frame

variable {crc32 : Bytes → UInt32}

/-! ## Panic freedom -/

/-- Outside bare headers, the view of a frame is computed without a panic. -/
theorem view_ne_panic (codec : AiclCodec) {data : Bytes} (h : ¬ HeaderOnly crc32 data) :
    codec.view crc32 data ≠ .panic := by
  intro hpanic
  have hdec := validateHeader_decides codec h
  rcases Outcome.bind_eq_panic_iff.mp hpanic with hval | ⟨u, hval, _⟩
  · rw [hval] at hdec
    exact hdec
  · rw [view_of_valid ((validateHeader_eq_ok_iff codec).mp hval)] at hpanic
    cases hpanic

/-- Outside bare headers, the packet of a frame is computed without a panic. -/
theorem decodeToPacket_ne_panic (codec : AiclCodec) {data : Bytes}
    (h : ¬ HeaderOnly crc32 data) : codec.decodeToPacket crc32 data ≠ .panic := by
  intro hpanic
  rcases Outcome.bind_eq_panic_iff.mp hpanic with hview | ⟨view, hview, _⟩
  · exact view_ne_panic codec h hview
  · obtain ⟨_, hval, _⟩ := Outcome.bind_eq_ok_iff.mp hview
    have hvalid := (validateHeader_eq_ok_iff codec).mp hval
    obtain ⟨opcode, ts, hc⟩ := hvalid.carries
    rw [decodeToPacket_of_valid hvalid hc] at hpanic
    cases hpanic

/-- The borrowed path panics on bare headers and on nothing else. -/
theorem decodeBorrowedOpcode_eq_panic_iff (codec : AiclCodec) (data : Bytes) :
    codec.decodeBorrowedOpcode crc32 data = .panic ↔ HeaderOnly crc32 data := by
  have hsat := @decodeBorrowed_sat crc32 codec data
  unfold AiclCodec.decodeBorrowedOpcode
  cases hview : codec.decodeBorrowed crc32 data with
  | ok v =>
      rw [hview] at hsat
      obtain ⟨hb, rfl⟩ := hsat
      rw [Outcome.ok_bind]
      have hopcode : (borrowedOf data).opcode = index data headerSize := rfl
      rw [hopcode]
      by_cases h : HeaderOnly crc32 data
      · have hpanic : (index data headerSize : AiclResult UInt8) = .panic :=
          Outcome.index_eq_panic_iff.mpr (Nat.le_of_eq h.2.1)
        simp [hpanic, h]
      · have hlt := headerSize_lt_of_not_headerOnly h hb.prelude hb.complete
        have hpacket := (decodeToPacketFromSlice_sat hlt hb.complete).ne_panic
        have hslice : (borrowedOf data).toPacket = decodeToPacketFromSlice data := rfl
        rw [Outcome.index_of_lt hlt, Outcome.ok_bind, hslice, Outcome.bind_eq_panic_iff]
        simp [hpacket, h]
  | err e =>
      rw [hview] at hsat
      have h : ¬ HeaderOnly crc32 data := by
        rintro ⟨hpre, hlength, hzero⟩
        refine hsat ⟨hpre, ?_⟩
        rw [total, hzero, hlength]
        decide
      simp [h]
  | panic =>
      rw [hview] at hsat
      exact hsat.elim

/-- Whatever the settings of the codec, the decoders end in a value or an error
exactly when the data is not a bare header: one that is followed by nothing and
declares an empty payload. -/
theorem decoders_ne_panic_iff (crc32 : Bytes → UInt32) (codec : AiclCodec) (data : Bytes) :
    (codec.decode crc32 data ≠ .panic ∧ codec.decodeOwned crc32 data ≠ .panic ∧
        codec.decodeToPacket crc32 data ≠ .panic ∧
        codec.decodeBorrowedOpcode crc32 data ≠ .panic) ↔
      ¬ HeaderOnly crc32 data := by
  constructor
  · rintro ⟨_, _, _, hborrowed⟩
    exact fun h => hborrowed ((decodeBorrowedOpcode_eq_panic_iff codec data).mpr h)
  · intro h
    exact ⟨view_ne_panic codec h, view_ne_panic codec h, decodeToPacket_ne_panic codec h,
      fun hp => h ((decodeBorrowedOpcode_eq_panic_iff codec data).mp hp)⟩

/-- A header of a request that declares a payload of {lit}`n` bytes. -/
def sampleHeader (n : Nat) : Header where
  version := 0x0100
  flags := 0x0001
  messageId := List.replicate 16 0
  correlationId := List.replicate 16 0
  deadlineMs := 0
  payloadLen := n
  messageId_length := Isa.Frame.zeroId_length
  correlationId_length := Isa.Frame.zeroId_length

/-- The bare header of a request makes the decoders panic. -/
theorem decoders_panic_on_bareHeader :
    ¬ ∀ (codec : AiclCodec) (data : Bytes),
      codec.decode Crc32.ieee data ≠ .panic ∧ codec.decodeOwned Crc32.ieee data ≠ .panic ∧
        codec.decodeToPacket Crc32.ieee data ≠ .panic ∧
        codec.decodeBorrowedOpcode Crc32.ieee data ≠ .panic := by
  intro h
  have hpanic : AiclCodec.new.decode Crc32.ieee ((sampleHeader 0).bytes Crc32.ieee) = .panic := by
    decide +kernel
  exact (h AiclCodec.new ((sampleHeader 0).bytes Crc32.ieee)).1 hpanic

/-! ## The operand grammar -/

/-- The operand pass accepts exactly the payloads of the instruction set, and
refuses reserved tags as unknown types, exactly when there is no reserved tag. -/
theorem operandPass_exact_iff (payload : Bytes) :
    ((operandPass payload = .ok () ↔ WellFormed payload) ∧
        (HoldsReserved payload → ∃ e, operandPass payload = .err e ∧ e.code = .unknownType)) ↔
      ¬ HoldsReserved payload := by
  have hsat := operandPass_sat payload
  constructor
  · rintro ⟨_, hreject⟩ hreserved
    obtain ⟨e, heq, hcode⟩ := hreject hreserved
    exact (hsat.of_eq_err heq).2 hcode
  · intro hreserved
    refine ⟨?_, fun h => absurd h hreserved⟩
    rw [(operandPass_decides payload).eq_ok_iff]
    constructor
    · rintro ⟨opcode, ts, h⟩
      exact ⟨opcode, ts, h.strict_or_holdsReserved.resolve_right hreserved⟩
    · rintro ⟨opcode, ts, h⟩
      exact ⟨opcode, ts, h.mono Isa.IsNull.orReserved⟩

/-- The payload of one operand with the reserved tag {lit}`0x0B` is accepted. -/
theorem operandPass_accepts_reserved :
    ¬ ∀ payload : Bytes,
      (operandPass payload = .ok () ↔ WellFormed payload) ∧
        (HoldsReserved payload → ∃ e, operandPass payload = .err e ∧ e.code = .unknownType) := by
  intro h
  have hpass : operandPass [0x00, 0x01, 0x0B] = .ok () := by decide
  have hreserved : HoldsReserved [0x00, 0x01, 0x0B] :=
    ⟨0x00, 1, [0x01], [0x0B], rfl, ⟨Leb128.last (b := 0x01) (by decide), by decide⟩,
      .first (.here (by decide))⟩
  obtain ⟨e, herr, _⟩ := (h [0x00, 0x01, 0x0B]).2 hreserved
  rw [hpass] at herr
  cases herr

/-! ## The two decoding paths -/

/-- The frame gets past the borrowed path, and the standard path refuses it: the
payload is over the limit, the announced trailer is missing or wrong, or bytes
follow the operands. -/
structure Bypass (crc32 : Bytes → UInt32) (codec : AiclCodec) (data : Bytes) : Prop where
  borrowable : Borrowable crc32 data
  readable : ∃ opcode ts, StartsWith data opcode ts
  refused : codec.maxPayload < payloadLen data ∨
    (HasTrailer data ∧
      ¬ (total data + 4 ≤ data.length ∧ (codec.checkCrc = true → TrailerCrcOk crc32 data))) ∨
    ¬ ∃ byte ts, Payload IsNullOrReserved byte ts (payload data)

/-- A frame that gets past the borrowed path without a bypass is valid. -/
theorem valid_of_not_bypass {codec : AiclCodec} {data : Bytes} (hb : Borrowable crc32 data)
    {opcode : AiclOpcode} {ts : List Isa.Tree} (hs : StartsWith data opcode ts)
    (h : ¬ Bypass crc32 codec data) : Valid crc32 codec data ∧ Carries data opcode ts := by
  have hrefused := fun hr => h ⟨hb, ⟨opcode, ts, hs⟩, hr⟩
  have hlimit : payloadLen data ≤ codec.maxPayload :=
    Nat.le_of_not_lt fun hlt => hrefused (.inl hlt)
  have htrailer : HasTrailer data →
      total data + 4 ≤ data.length ∧ (codec.checkCrc = true → TrailerCrcOk crc32 data) :=
    fun hflag => Classical.byContradiction fun hbad => hrefused (.inr (.inl ⟨hflag, hbad⟩))
  have hpayload : ∃ byte ts, Payload IsNullOrReserved byte ts (payload data) :=
    Classical.byContradiction fun hbad => hrefused (.inr (.inr hbad))
  obtain ⟨byte, b, post, hsplit, hstart, hop⟩ := hs
  obtain ⟨byte', ts', hwhole⟩ := hpayload
  have hsame : b ++ post = Isa.Frame.payload data ++ [] := by simp [hsplit]
  obtain ⟨rfl, rfl, _⟩ := hstart.unique hwhole hsame
  have hindex := index_opcode (List.append_nil _).symm hwhole
  have hfirst : data[headerSize]? = some byte := by
    unfold index at hindex
    cases hget : data[headerSize]? with
    | none =>
        rw [hget] at hindex
        cases hindex
    | some x =>
        rw [hget] at hindex
        exact congrArg some (Outcome.ok.inj hindex)
  have hopcode : ∃ byte, data[headerSize]? = some byte ∧ (AiclOpcode.fromU8 byte).isSome :=
    ⟨byte, hfirst, by rw [hop]; rfl⟩
  exact ⟨⟨hb.prelude, hlimit, hb.complete, htrailer, hopcode, byte, ts, hwhole⟩,
    byte, hwhole, hop⟩

/-- The borrowed path returns what the standard path returns, and nothing else,
exactly when the frame is not a bypass. -/
theorem borrowed_agrees_iff (crc32 : Bytes → UInt32) (codec : AiclCodec) (data : Bytes) :
    (∀ p, codec.decodeBorrowedToPacket crc32 data = .ok p ↔
        codec.decodeToPacket crc32 data = .ok p) ↔
      ¬ Bypass crc32 codec data := by
  constructor
  · rintro hagree ⟨hb, ⟨opcode, ts, hs⟩, hrefused⟩
    have hfast : codec.decodeBorrowedToPacket crc32 data = .ok (packetOf opcode data ts) :=
      decodeBorrowedToPacket_eq_ok_iff.mpr ⟨hb, opcode, ts, hs, rfl⟩
    obtain ⟨hvalid, _⟩ := decodeToPacket_eq_ok_iff.mp ((hagree _).mp hfast)
    rcases hrefused with hlimit | ⟨hflag, htrailer⟩ | hpayload
    · exact absurd hvalid.limit (Nat.not_le_of_lt hlimit)
    · exact htrailer (hvalid.trailer hflag)
    · exact hpayload hvalid.payload
  · intro h p
    rw [decodeBorrowedToPacket_eq_ok_iff, decodeToPacket_eq_ok_iff]
    constructor
    · rintro ⟨hb, opcode, ts, hs, rfl⟩
      obtain ⟨hvalid, hc⟩ := valid_of_not_bypass hb hs h
      exact ⟨hvalid, opcode, ts, hc, rfl⟩
    · rintro ⟨hvalid, opcode, ts, hc, rfl⟩
      exact ⟨⟨hvalid.prelude, hvalid.complete⟩, opcode, ts, hc.startsWith, rfl⟩

/-- A frame with a byte after its operands gets past the borrowed path only. -/
theorem borrowed_accepts_trailing_bytes :
    ¬ ∀ (data : Bytes) (p : AiclPacket),
      AiclCodec.new.decodeBorrowedToPacket Crc32.ieee data = .ok p ↔
        AiclCodec.new.decodeToPacket Crc32.ieee data = .ok p := by
  intro h
  have hfast : (AiclCodec.new.decodeBorrowedToPacket Crc32.ieee
      ((sampleHeader 3).bytes Crc32.ieee ++ [0x00, 0x00, 0xFF])).isOk = true := by
    decide +kernel
  have hslow : (AiclCodec.new.decodeToPacket Crc32.ieee
      ((sampleHeader 3).bytes Crc32.ieee ++ [0x00, 0x00, 0xFF])).isOk = false := by
    decide +kernel
  obtain ⟨p, hp⟩ := Outcome.isOk_iff.mp hfast
  rw [(h _ p).mp hp] at hslow
  cases hslow

end Aicl.CoreRust
