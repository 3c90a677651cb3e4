import Aicl.CoreRust.SessionRuns

/-!
# Access to the operands of a view

The accessors of {lit}`PacketView` in {lit}`core-rust/src/codec.rs` that parse the
payload again, on views of frames that were accepted.  {lit}`operand` takes an index
of 64 bits and compares its lower half.

Main results:

- Theorem {lit}`operandScan_eq`: the loop of {lit}`operand` returns at its index.
- Theorem {lit}`operand_viewOf`: the operand at an index of a view.
- Theorem {lit}`decode_view_agrees`: what the accessors of an accepted view return.
-/

namespace Aicl.CoreRust

open Outcome (failIf)
open Isa (Varint Tree DerivesList IsNullOrReserved Payload)
open Isa.Frame

/-! ## The accessors -/

/-- The loop of {lit}`operand`, which returns in the round of the index;
{lit}`unreachable!()` stands after it. -/
def operandScan (idx : UInt32) (payload : Bytes) : (rounds i pos : Nat) → AiclResult Operand
  | 0, _, _ => .panic
  | rounds + 1, i, pos => do
      let (op, next) ← nestedOperand decodeOperand (UInt32.ofNat i) payload pos
      if UInt32.ofNat i = idx then pure op
      else operandScan idx payload rounds (i + 1) next

namespace PacketView

/-- {lit}`operand`: the cast {lit}`idx as u32` drops the upper half of the index. -/
def operand (v : PacketView) (idx : UInt64) : AiclResult Operand := do
  let payload ← v.payload
  failIf payload.isEmpty (.new .truncated "payload empty")
  let (count, pos) ← readVarint payload 1
  failIf (count ≤ idx.toUInt32) (.new .operandCount s!"operand index {idx} >= count {count}")
  operandScan idx.toUInt32 payload count.toNat 0 pos

/-- {lit}`raw`. -/
def raw (v : PacketView) : Bytes := v.data

/-- {lit}`total_size`. -/
def totalSize (v : PacketView) : Nat :=
  v.payloadOffset + v.payloadLength + if v.hasTrailer then 4 else 0

end PacketView

/-- The view answers for an index as the operands of its packet do. -/
def AnswersAt (view : PacketView) (operands : List Operand) (idx : UInt64) : Prop :=
  match operands[idx.toNat]? with
  | some op => view.operand idx = .ok op
  | none => ∃ e, view.operand idx = .err e ∧ e.code = .operandCount

/-! ## Views of accepted frames -/

/-- The loop returns the operand whose round has the index. -/
theorem operandScan_eq (idx : UInt32) {op : Operand} : ∀ {ts : List Tree} {b : Bytes}
    (pre : Bytes) (i : Nat), DerivesList IsNullOrReserved ts b → i + ts.length ≤ 2 ^ 32 →
      i ≤ idx.toNat → (toOperands ts)[idx.toNat - i]? = some op →
        operandScan idx (pre ++ b) ts.length i pre.length = .ok op
  | [], _, pre, i, _, _, _, hop => by simp [toOperands] at hop
  | t :: ts, _, pre, i, @DerivesList.cons _ _ _ b bs ht hts, hlen, hi, hop => by
      have hread : nestedOperand decodeOperand (UInt32.ofNat i) (pre ++ (b ++ bs)) pre.length =
          .ok (toOperand t, pre.length + b.length) :=
        (decodeOperand_reads _ (UInt32.ofNat i)).nested.complete ⟨t, ht, rfl⟩ pre bs
          (Nat.lt_succ_self _)
      rw [List.length_cons] at hlen
      have hround : (UInt32.ofNat i).toNat = i :=
        UInt32.toNat_ofNat_of_lt' (Nat.lt_of_lt_of_le (by omega) hlen)
      rw [List.length_cons, operandScan, hread, Outcome.ok_bind]
      by_cases hidx : UInt32.ofNat i = idx
      · have hfirst : idx.toNat - i = 0 := by
          rw [← hidx, hround, Nat.sub_self]
        rw [hfirst] at hop
        simp only [if_pos hidx]
        exact congrArg Outcome.ok (Option.some.inj hop)
      · have hlater : i < idx.toNat := by
          refine Nat.lt_of_le_of_ne hi fun heq => hidx ?_
          rw [heq, UInt32.ofNat_toNat]
        have hnext : idx.toNat - i = idx.toNat - (i + 1) + 1 := by omega
        rw [hnext, toOperands, List.getElem?_cons_succ] at hop
        have hrest := operandScan_eq idx (pre ++ b) (i + 1) hts (by omega) hlater hop
        rw [List.append_assoc, List.length_append] at hrest
        simp only [if_neg hidx]
        exact hrest

variable {crc32 : Bytes → UInt32} {data : Bytes} {byte : UInt8} {ts : List Tree}

/-- The payload of a view of a complete frame. -/
theorem payload_viewOf (h : total data ≤ data.length) : (viewOf data).payload = .ok (payload data) :=
  slice_payload h

/-- The count at the front of a payload, and the rest of it. -/
theorem readVarint_payload {b : Bytes} (h : Payload IsNullOrReserved byte ts b) :
    ∃ pre body, b = pre ++ body ∧ ¬ b.isEmpty ∧ DerivesList IsNullOrReserved ts body ∧
      ts.length < 2 ^ 28 ∧ readVarint b 1 = .ok (UInt32.ofNat ts.length, pre.length) := by
  cases h with
  | @mk len body hlen hts =>
      have hnat := hlen.toNat_ofNat
      have hread := (readVarint_reads (L := (len ++ body).length + 1)).complete
        (a := UInt32.ofNat ts.length) (hnat.symm ▸ hlen) [byte] body (Nat.lt_succ_self _)
      refine ⟨byte :: len, body, rfl, Bool.false_ne_true, hts, hlen.lt, ?_⟩
      rw [List.length_cons, Nat.add_comm]
      exact hread

/-- The number of operands of a view. -/
theorem operandCount_viewOf (htotal : total data ≤ data.length)
    (h : Payload IsNullOrReserved byte ts (payload data)) :
    (viewOf data).operandCount = .ok ts.length := by
  have ⟨_, _, _, hnonempty, _, hlt, hread⟩ := readVarint_payload h
  unfold PacketView.operandCount
  rw [payload_viewOf htotal, Outcome.ok_bind, if_neg hnonempty, hread, Outcome.ok_bind]
  exact congrArg Outcome.ok (UInt32.toNat_ofNat_of_lt' (hlt.trans (by decide)))

/-- The operand of a view at an index: the one at the lower half of the index. -/
theorem operand_viewOf (htotal : total data ≤ data.length)
    (h : Payload IsNullOrReserved byte ts (payload data)) (idx : UInt64) :
    (viewOf data).operand idx =
      match (toOperands ts)[idx.toNat % 2 ^ 32]? with
      | some op => .ok op
      | none => .err (.new .operandCount
          s!"operand index {idx} >= count {UInt32.ofNat ts.length}") := by
  rcases readVarint_payload h with ⟨pre, body, hsplit, hnonempty, hts, hlt, hread⟩
  have hnat : (UInt32.ofNat ts.length).toNat = ts.length :=
    UInt32.toNat_ofNat_of_lt' (hlt.trans (by decide))
  have hcut : idx.toUInt32.toNat = idx.toNat % 2 ^ 32 := UInt64.toNat_toUInt32 idx
  have hcount : UInt32.ofNat ts.length ≤ idx.toUInt32 ↔ ts.length ≤ idx.toNat % 2 ^ 32 := by
    rw [UInt32.le_iff_toNat_le, hnat, hcut]
  unfold PacketView.operand
  rw [payload_viewOf htotal, Outcome.ok_bind, Outcome.failIf_of_not hnonempty, Outcome.ok_bind,
    hread, Outcome.ok_bind]
  cases hop : (toOperands ts)[idx.toNat % 2 ^ 32]? with
  | none =>
      have hout : ts.length ≤ idx.toNat % 2 ^ 32 := by
        simpa using hop
      simp only [failIf, if_pos (hcount.mpr hout), Outcome.err_bind]
  | some op =>
      have hin : ¬ ts.length ≤ idx.toNat % 2 ^ 32 := by
        rcases List.getElem?_eq_some_iff.mp hop with ⟨hbound, _⟩
        simpa using hbound
      rw [← hcut] at hop
      have hscan := operandScan_eq idx.toUInt32 pre 0 hts (by omega) (Nat.zero_le _) hop
      simp only [Outcome.failIf_of_not (mt hcount.mp hin), Outcome.ok_bind, hnat, hsplit]
      exact hscan

/-- A view answers for an index as its packet does exactly when the cast leaves the
index as it is, or leaves no index of an operand. -/
theorem answersAt_viewOf_iff (htotal : total data ≤ data.length)
    (h : Payload IsNullOrReserved byte ts (payload data)) (idx : UInt64) :
    AnswersAt (viewOf data) (toOperands ts) idx ↔
      idx.toNat < 2 ^ 32 ∨ ts.length ≤ idx.toNat % 2 ^ 32 := by
  have ⟨_, _, _, _, _, hlt, _⟩ := readVarint_payload h
  unfold AnswersAt
  rw [operand_viewOf htotal h]
  by_cases hsmall : idx.toNat < 2 ^ 32
  · rw [Nat.mod_eq_of_lt hsmall]
    refine iff_of_true ?_ (.inl hsmall)
    split
    · rfl
    · exact ⟨_, rfl, rfl⟩
  · have hout : (toOperands ts)[idx.toNat]? = none := by
      rw [List.getElem?_eq_none_iff, toOperands_length]
      omega
    rw [or_iff_right hsmall, hout]
    cases hop : (toOperands ts)[idx.toNat % 2 ^ 32]? with
    | none =>
        refine iff_of_true ⟨_, rfl, rfl⟩ ?_
        simpa using hop
    | some op =>
        have ⟨hbound, _⟩ := List.getElem?_eq_some_iff.mp hop
        rw [toOperands_length] at hbound
        refine iff_of_false ?_ (Nat.not_le_of_lt hbound)
        intro ⟨e, herr, _⟩
        cases herr

/-- The size of a view of a valid frame is within the frame. -/
theorem totalSize_viewOf_le {codec : AiclCodec} (h : Valid crc32 codec data) :
    (viewOf data).totalSize ≤ (viewOf data).raw.length := by
  have hflag := readU16_flags_iff h.prelude.length_le
  have hcomplete := h.complete
  have htrailer := h.trailer
  simp only [PacketView.totalSize, PacketView.raw, viewOf, bne_iff_ne, ne_eq]
  by_cases hannounced : HasTrailer data
  · have hroom := (htrailer hannounced).1
    rw [if_pos (hflag.mpr hannounced)]
    exact hroom
  · rw [if_neg (mt hflag.mp hannounced)]
    exact hcomplete

/-- Every accepted frame has a view that agrees with its packet, and that answers
for an index exactly when the cast to 32 bits leaves the index as it is or leaves no
index of an operand. -/
theorem decode_view_agrees (codec : AiclCodec) {view : PacketView}
    (hdecode : codec.decode crc32 data = .ok view) :
    ∃ opcode ts, Carries data opcode ts ∧
      view.toPacket = .ok (packetOf opcode data ts) ∧
      view.operandCount = .ok (packetOf opcode data ts).operands.length ∧
      view.totalSize ≤ view.raw.length ∧
      ∀ idx : UInt64, view.operand idx ≠ .panic ∧
        (AnswersAt view (packetOf opcode data ts).operands idx ↔
          idx.toNat < 2 ^ 32 ∨ ts.length ≤ idx.toNat % 2 ^ 32) := by
  have ⟨u, hvalidate, _⟩ := Outcome.bind_eq_ok_iff.mp hdecode
  have hvalid : Valid crc32 codec data := (validateHeader_eq_ok_iff codec).mp hvalidate
  have hview : view = viewOf data :=
    (Outcome.ok.inj ((view_of_valid hvalid).symm.trans hdecode)).symm
  have ⟨opcode, ts, hcarries⟩ := hvalid.carries
  have ⟨byte, hpayload, hopcode⟩ := hcarries
  rw [hview]
  refine ⟨opcode, ts, hcarries, ?_, ?_, totalSize_viewOf_le hvalid, fun idx => ⟨?_, ?_⟩⟩
  · exact toPacket_viewOf hvalid.prelude.length_le hvalid.complete (List.append_nil _).symm
      hpayload hopcode
  · rw [operandCount_viewOf hvalid.complete hpayload]
    exact congrArg Outcome.ok (toOperands_length ts).symm
  · rw [operand_viewOf hvalid.complete hpayload]
    split <;> simp
  · exact answersAt_viewOf_iff hvalid.complete hpayload idx

/-- The frame of a small request is accepted. -/
theorem decode_zerosFrame :
    AiclCodec.new.decode Crc32.ieee (SessionPair.zerosFrame 0) =
      .ok (viewOf (SessionPair.zerosFrame 0)) := by
  decide +kernel

/-- The view of a small request agrees with its packet. -/
theorem decode_view_agrees_small :
    ∃ opcode ts, Carries (SessionPair.zerosFrame 0) opcode ts ∧
      (viewOf (SessionPair.zerosFrame 0)).toPacket =
        .ok (packetOf opcode (SessionPair.zerosFrame 0) ts) ∧
      (viewOf (SessionPair.zerosFrame 0)).operandCount =
        .ok (packetOf opcode (SessionPair.zerosFrame 0) ts).operands.length ∧
      (viewOf (SessionPair.zerosFrame 0)).totalSize ≤
        (viewOf (SessionPair.zerosFrame 0)).raw.length ∧
      ∀ idx : UInt64, (viewOf (SessionPair.zerosFrame 0)).operand idx ≠ .panic ∧
        (AnswersAt (viewOf (SessionPair.zerosFrame 0))
            (packetOf opcode (SessionPair.zerosFrame 0) ts).operands idx ↔
          idx.toNat < 2 ^ 32 ∨ ts.length ≤ idx.toNat % 2 ^ 32) :=
  decode_view_agrees .new decode_zerosFrame

/-- The view of a small request with one operand returns that operand for the index
of four gibi, where its packet has none. -/
theorem operand_cut_index :
    ¬ ∀ (crc32 : Bytes → UInt32) (codec : AiclCodec) (data : Bytes) (view : PacketView),
      codec.decode crc32 data = .ok view →
        ∃ p, view.toPacket = .ok p ∧ view.operandCount = .ok p.operands.length ∧
          view.totalSize ≤ view.raw.length ∧
          ∀ idx : UInt64, view.operand idx ≠ .panic ∧ AnswersAt view p.operands idx := by
  intro h
  have ⟨p, _, hcount, _, hall⟩ := h _ _ _ _ decode_zerosFrame
  have hone : (viewOf (SessionPair.zerosFrame 0)).operandCount = .ok 1 := by decide +kernel
  have hread : ((viewOf (SessionPair.zerosFrame 0)).operand (2 ^ 32)).isOk = true := by
    decide +kernel
  have hlength : 1 = p.operands.length := Outcome.ok.inj (hone.symm.trans hcount)
  have hnone : p.operands[(2 ^ 32 : UInt64).toNat]? = none := by
    rw [List.getElem?_eq_none_iff, ← hlength]
    decide
  have hanswer := (hall (2 ^ 32)).2
  rw [AnswersAt, hnone] at hanswer
  have ⟨e, herr, _⟩ := hanswer
  rw [herr] at hread
  cases hread

end Aicl.CoreRust
