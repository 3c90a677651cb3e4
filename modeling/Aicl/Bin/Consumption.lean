import Aicl.Bin.ReadBack

/-!
# What the decoder consumes

The view of a frame reads a count of operands, and not up to the end of the
payload: bytes after the last operand are left, and the operands of a frame with a
trailer may go on into the trailer.  This file follows the position at which
reading stops.

Main results:

- Theorem {lit}`readContentsTo_eq_ok_iff`: where reading a payload stops.
- Theorem {lit}`consumesPayload_iff`: when exactly the declared payload is consumed.
- Theorem {lit}`consumesPayload_of_encode`: frames of the encoder are consumed
  exactly.
-/

namespace Aicl.Bin

open Isa (Varint Tree DerivesList IsNull Payload WellFormed)
open Isa.Frame
open Outcome (Reads)

variable {crc32 : Bytes → UInt32} {data : Bytes} {v : PacketView}

/-! ## Where reading stops -/

/-- The operands of a payload with the position after the last of them; a payload
without a count is read to its end. -/
def readContentsTo (payload : Bytes) : PyResult (Contents × Nat) :=
  if 1 < payload.length then do
    let (count, pos) ← decodeVarint payload 1
    Outcome.loop fileStep count 0 .empty payload pos
  else pure (.empty, payload.length)

/-- The operands are those that the view reads. -/
theorem readContents_eq (payload : Bytes) :
    readContents payload = readContentsTo payload >>= fun r => pure r.1 := by
  unfold readContents readContentsTo
  split
  next => rw [Outcome.bind_assoc]
  next => rfl

/-- A payload at the front of the bytes is read to its end. -/
theorem readContentsTo_of_payload {opcode : UInt8} {ts : List Tree} {b : Bytes}
    (h : Payload IsNull opcode ts b) (post : Bytes) :
    readContentsTo (b ++ post) = .ok (Contents.ofSymbols (toSymbols ts), b.length) := by
  cases h with
  | @mk len body hv hts =>
      have hpos := hv.1.length_pos
      have hread := countedContents_read.complete
        ⟨ts, len, body, rfl, hv, hts, rfl⟩ [opcode] post (Nat.lt_succ_self _)
      have hlong : 1 < (opcode :: (len ++ body) ++ post).length := by
        simp only [List.length_append, List.length_cons]
        omega
      have hlength : (opcode :: (len ++ body)).length = [opcode].length + (len ++ body).length := by
        simp only [List.length_cons, List.length_nil]
        omega
      unfold readContentsTo
      rw [if_pos hlong, hlength]
      exact hread

/-- Where reading a payload stops: after its last operand, and after the opcode
where there is no count. -/
theorem readContentsTo_eq_ok_iff {payload : Bytes} {c : Contents} {n : Nat} :
    readContentsTo payload = .ok (c, n) ↔
      (payload.length ≤ 1 ∧ c = .empty ∧ n = payload.length) ∨
        ∃ opcode ts b post, payload = b ++ post ∧ Payload IsNull opcode ts b ∧
          c = Contents.ofSymbols (toSymbols ts) ∧ n = b.length := by
  constructor
  · intro h
    by_cases hlong : 1 < payload.length
    · have hread : readContents payload = .ok c := by rw [readContents_eq, h]; rfl
      have ⟨ts, hholds, _⟩ := readContents_eq_ok_iff.mp hread
      rcases hholds with ⟨hshort, _⟩ | ⟨opcode, b, post, hsplit, hb⟩
      · omega
      · rw [hsplit, readContentsTo_of_payload hb post] at h
        cases h
        exact .inr ⟨opcode, ts, b, post, hsplit, hb, rfl, rfl⟩
    · have hread : readContentsTo payload = .ok (.empty, payload.length) := if_neg hlong
      rw [hread] at h
      cases h
      exact .inl ⟨by omega, rfl, rfl⟩
  · intro h
    rcases h with ⟨hshort, hc, hn⟩ | ⟨opcode, ts, b, post, hsplit, hb, hc, hn⟩
    · rw [hc, hn]
      exact if_neg (by omega)
    · rw [hsplit, hc, hn]
      exact readContentsTo_of_payload hb post

/-! ## Exact consumption -/

/-- Decoding consumes exactly the declared payload: reading stops at its end, and
what the view shows can be read from it alone. -/
structure ConsumesPayload (data : Bytes) (v : PacketView) : Prop where
  stop : readContentsTo (region data) = .ok (v.contents, payloadLen data)
  alone : readContentsTo (payload data) = .ok (v.contents, payloadLen data)

/-- The declared payload goes on after its last operand. -/
def LeavesBytes (data : Bytes) : Prop :=
  ∃ b, WellFormed b ∧ b <+: payload data ∧ b.length < payloadLen data

/-- The operands go on after the declared payload. -/
def RunsOver (data : Bytes) : Prop :=
  ∃ b, WellFormed b ∧ b <+: region data ∧ payloadLen data < b.length

/-- The declared payload is at the front of what the view reads. -/
theorem payload_prefix_region (data : Bytes) : payload data <+: region data := by
  have hle : total data - 56 ≤ payloadEnd data - headerSize := by
    unfold payloadEnd
    split <;> simp only [headerSize] <;> omega
  rw [payload, region, field, field, headerSize]
  exact List.take_prefix_take_left hle

/-- A view whose operands end with the declared payload consumes it. -/
theorem consumesPayload_of_payload {opcode : UInt8} {ts : List Tree} (hdata : total data ≤ data.length)
    (hbody : Payload IsNull opcode ts (payload data))
    (hcontents : v.contents = Contents.ofSymbols (toSymbols ts)) : ConsumesPayload data v := by
  have ⟨post, hregion⟩ := payload_prefix_region data
  have hlength := payload_length hdata
  constructor
  · rw [← hregion, readContentsTo_of_payload hbody post, hcontents, hlength]
  · have halone := readContentsTo_of_payload hbody []
    rw [List.append_nil] at halone
    rw [halone, hcontents, hlength]

/-- A view of an opcode alone consumes it. -/
theorem consumesPayload_of_short (hdata : total data ≤ data.length) (hlen : 1 ≤ payloadLen data)
    (hshort : (region data).length ≤ 1) (hcontents : v.contents = .empty) :
    ConsumesPayload data v := by
  have hprefix := payload_prefix_region data
  have hlength := payload_length hdata
  have hle := hprefix.length_le
  have hsame : payload data = region data := hprefix.eq_of_length_le (by omega)
  have hone : payloadLen data = (region data).length := by rw [← hsame, hlength]
  have hread : readContentsTo (region data) = .ok (v.contents, payloadLen data) :=
    readContentsTo_eq_ok_iff.mpr (.inl ⟨hshort, hcontents, hone⟩)
  constructor
  · exact hread
  · rw [hsame]
    exact hread

/-- What is well formed at the front of the region ends where reading stopped. -/
theorem ConsumesPayload.length_eq (h : ConsumesPayload data v) {b : Bytes} (hb : WellFormed b)
    (hfront : b <+: region data) : b.length = payloadLen data := by
  have ⟨opcode, ts, hpayload⟩ := hb
  have ⟨post, hsplit⟩ := hfront
  have hstop := h.stop
  rw [← hsplit, readContentsTo_of_payload hpayload post] at hstop
  exact congrArg Prod.snd (Outcome.ok.inj hstop)

/-- Decoding consumes exactly the declared payload unless the payload goes on after
its operands, or the operands after the payload. -/
theorem consumesPayload_iff (h : decode crc32 data = .ok v) (hlen : 1 ≤ payloadLen data) :
    ConsumesPayload data v ↔ ¬ LeavesBytes data ∧ ¬ RunsOver data := by
  rcases decode_eq_ok_iff.mp h with ⟨hframe, ts, hholds, hv⟩
  have hlength := payload_length hframe.complete
  have hprefix := payload_prefix_region data
  have hcontents : v.contents = Contents.ofSymbols (toSymbols ts) := by rw [hv, viewOf]
  constructor
  · intro hconsumes
    constructor
    · rintro ⟨b, hb, hfront, hshort⟩
      have hend := hconsumes.length_eq hb (hfront.trans hprefix)
      omega
    · rintro ⟨b, hb, hfront, hlong⟩
      have hend := hconsumes.length_eq hb hfront
      omega
  · rintro ⟨hleaves, hruns⟩
    rcases hholds with ⟨hshort, hnil⟩ | ⟨opcode, b, post, hregion, hb⟩
    · apply consumesPayload_of_short hframe.complete hlen hshort
      rw [hcontents, hnil]
      rfl
    · -- the payload that was read is neither longer nor shorter than the declared one
      have hfront : b <+: region data := ⟨post, hregion.symm⟩
      have hle : b.length ≤ payloadLen data := by
        by_contra hlong
        exact hruns ⟨b, ⟨opcode, ts, hb⟩, hfront, by omega⟩
      have hinside : b <+: payload data :=
        List.prefix_of_prefix_length_le hfront hprefix (by omega)
      have hge : payloadLen data ≤ b.length := by
        by_contra hshort
        exact hleaves ⟨b, ⟨opcode, ts, hb⟩, hinside, by omega⟩
      have hsame : b = payload data := hinside.eq_of_length_le (by omega)
      exact consumesPayload_of_payload hframe.complete (hsame ▸ hb) hcontents

/-- The frames of the encoder are consumed exactly. -/
theorem consumesPayload_of_encode {p : Packet} {checksum : Bool} {frame : Bytes}
    (hframe : encode crc32 p checksum = .ok frame) (h : decode crc32 frame = .ok v) :
    ConsumesPayload frame v := by
  have ⟨hok, ts, hholds, hv⟩ := decode_eq_ok_iff.mp h
  have ⟨body, fields, hbody, hfields, hsplit⟩ := encode_eq_ok hframe
  have hmod := hfields.payloadLen_mod
  have hpayload : payload frame = body := by
    rw [hsplit, List.append_assoc]
    exact payload_bytes hmod
  have hlimit : body.length ≤ maxTlvValueSize := by
    rw [← hpayload, payload_length hok.complete]
    exact hok.header.limit
  have ⟨_, ts', _, hspells, _⟩ := buildPayload_spells hbody (hlimit.trans_lt (by decide))
  rw [← hpayload] at hspells
  have ⟨post, hregion⟩ := payload_prefix_region frame
  have hread := readContents_of_holds (.inr ⟨_, _, post, hregion.symm, hspells⟩)
  rw [readContents_of_holds hholds] at hread
  apply consumesPayload_of_payload hok.complete hspells
  rw [hv, viewOf]
  exact Outcome.ok.inj hread

/-- A frame of the encoder is consumed exactly, without bytes left and without
running over. -/
theorem consumesPayload_number :
    ∃ frame v, encode Crc32.ieee numberPacket true = .ok frame ∧
      decode Crc32.ieee frame = .ok v ∧ ConsumesPayload frame v ∧
      ¬ LeavesBytes frame ∧ ¬ RunsOver frame := by
  have hrun : (do
      let frame ← encode Crc32.ieee numberPacket true
      raiseIf (payloadLen frame < 1) .decodeError ""
      decode Crc32.ieee frame).isOk = true := by
    decide +kernel
  have ⟨v, hrun⟩ := Outcome.isOk_iff.mp hrun
  have ⟨frame, hframe, hrun⟩ := Outcome.bind_eq_ok_iff.mp hrun
  have ⟨_, hlen, hv⟩ := Outcome.bind_eq_ok_iff.mp hrun
  have hlen := Outcome.failIf_eq_ok_iff.mp hlen
  have hconsumes := consumesPayload_of_encode hframe hv
  have ⟨hleaves, hruns⟩ := (consumesPayload_iff hv (by omega)).mp hconsumes
  exact ⟨frame, v, hframe, hv, hconsumes, hleaves, hruns⟩

/-- A frame whose operand is read from its trailer: the payload counts one operand
and ends, and the checksum starts like a {lit}`U16`. -/
def trailerOperandFrame : Bytes :=
  (plainHeader 1076 2).bytes Crc32.ieee ++ [0x01, 0x01, 0x06, 0x60, 0x4C, 0x1E]

/-- The payload that the view reads: the operand is from the trailer. -/
theorem trailerOperand_payload :
    Payload IsNull 0x01 [.fixed .u16 [0x60, 0x4C]] [0x01, 0x01, 0x06, 0x60, 0x4C] :=
  @Payload.mk IsNull 0x01 [.fixed .u16 [0x60, 0x4C]] [0x01] [0x06, 0x60, 0x4C]
    ⟨Leb128.last (b := 0x01) (by decide), by decide⟩
    (@DerivesList.cons IsNull _ [] [0x06, 0x60, 0x4C] [] (@Isa.Derives.fixed IsNull .u16 _ rfl) .nil)

/-- A frame whose payload goes on after its operands. -/
def leftoverFrame : Bytes :=
  (plainHeader 0 3).bytes Crc32.ieee ++ [0x01, 0x00, 0xFF]

/-- A view does not consume the declared payload when reading stops elsewhere. -/
theorem not_consumesPayload {n : Nat}
    (hstop : (readContentsTo (region data)).toOption.map Prod.snd = some n)
    (hn : n ≠ payloadLen data) : ¬ ConsumesPayload data v := by
  intro hconsumes
  rw [hconsumes.stop] at hstop
  exact hn (Option.some.inj hstop).symm

/-- Both frames are read; one view shows a number that is in the checksum, the
other leaves a byte of the payload. -/
theorem decode_misreads_payload :
    (∃ v, decode Crc32.ieee trailerOperandFrame = .ok v ∧ payloadLen trailerOperandFrame = 2 ∧
      v.symbols = [Symbol.int .u16 0x604C] ∧ ¬ ConsumesPayload trailerOperandFrame v) ∧
    ∃ v, decode Crc32.ieee leftoverFrame = .ok v ∧ payloadLen leftoverFrame = 3 ∧
      ¬ ConsumesPayload leftoverFrame v := by
  constructor
  · have hrun : (decode Crc32.ieee trailerOperandFrame).isOk = true := by decide +kernel
    have ⟨_, hread⟩ := Outcome.isOk_iff.mp hrun
    have hframe := (decode_eq_ok_iff.mp hread).1
    have hlen : payloadLen trailerOperandFrame = 2 := by decide +kernel
    have hregion : region trailerOperandFrame = [0x01, 0x01, 0x06, 0x60, 0x4C] ++ [0x1E] := by
      decide +kernel
    have hholds : Holds (region trailerOperandFrame) [.fixed .u16 [0x60, 0x4C]] :=
      .inr ⟨_, _, _, hregion, trailerOperand_payload⟩
    refine ⟨_, decode_eq_ok_iff.mpr ⟨hframe, _, hholds, rfl⟩, hlen, rfl, ?_⟩
    have hstop : (readContentsTo (region trailerOperandFrame)).toOption.map Prod.snd = some 5 := by
      decide +kernel
    apply not_consumesPayload hstop
    omega
  · have hrun : (decode Crc32.ieee leftoverFrame).isOk = true := by decide +kernel
    have ⟨v, hv⟩ := Outcome.isOk_iff.mp hrun
    have hlen : payloadLen leftoverFrame = 3 := by decide +kernel
    have hstop : (readContentsTo (region leftoverFrame)).toOption.map Prod.snd = some 2 := by
      decide +kernel
    refine ⟨v, hv, hlen, ?_⟩
    apply not_consumesPayload hstop
    omega

end Aicl.Bin
