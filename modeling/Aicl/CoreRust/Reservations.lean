import Aicl.CoreRust.OverflowChecks
import Aicl.CoreRust.ViewAccess
import Aicl.Foundation.Logged

/-!
# The memory that the decoders reserve

Before they collect operands, the decoders reserve memory for as many as the count in
front of them says: {lit}`Vec::with_capacity(count)`.  The decoders below log every
reservation with the number of bytes that are not read at that point.

Main results:

- Theorem {lit}`decodeOperandLogged_panicsUnless`: every reservation of the operand
  decoder passes a check exactly when the counts of all lists that decoding reaches do.
- Theorem {lit}`reservations_within_iff`: when the reservations of the decoders are within
  the bytes that are unread.
-/

namespace Aicl.CoreRust

open Isa (Varint DerivesList IsNullOrReserved Payload)
open Outcome (failIf index slice PanicsUnless)

/-! ## Decoders that log reservations -/

/-- An evaluation of {lit}`Vec::with_capacity(count)`, and the number of bytes of the
buffer that are unread at that point. -/
structure Reservation where
  count : Nat
  unread : Nat
deriving DecidableEq, Repr

/-- No more elements than there are bytes to read, {lit}`k` bytes behind the buffer
included. -/
def Reservation.Within (k : Nat) (r : Reservation) : Prop := r.count ≤ r.unread + k

instance (k : Nat) : DecidablePred (Reservation.Within k) :=
  fun r => inferInstanceAs (Decidable (r.count ≤ r.unread + k))

/-- A decoder's result and its reservations. -/
abbrev LoggedResult (α : Type) := Logged Reservation AiclError α

/-- {lit}`Vec::with_capacity(count as usize)` at a position. -/
def withCapacity (count : UInt32) (data : Bytes) (pos : Nat) : LoggedResult Unit :=
  Logged.tell { count := count.toNat, unread := data.length - pos }

/-- A nested call {lit}`decode_operand(&data[pos..], idx)`. -/
def nestedOperandLogged (dec : Bytes → UInt32 → LoggedResult (Operand × Nat)) (idx : UInt32)
    (data : Bytes) (pos : Nat) : LoggedResult (Operand × Nat) := do
  let rest ← Logged.lift (Outcome.sliceFrom data pos)
  let (op, consumed) ← dec rest idx
  pure (op, pos + consumed)

/-- One round of the loop that collects operands. -/
def itemStepLogged (dec : Bytes → UInt32 → LoggedResult (Operand × Nat)) (index : Nat → UInt32)
    (i : Nat) (items : List Operand) (data : Bytes) (pos : Nat) :
    LoggedResult (List Operand × Nat) := do
  let (item, pos) ← nestedOperandLogged dec (index i) data pos
  pure (items ++ [item], pos)

/-- One round of the loop over the entries of a map. -/
def entryStepLogged (dec : Bytes → UInt32 → LoggedResult (Operand × Nat)) (idx : UInt32) (i : Nat)
    (map : List (Utf8String × Operand)) (data : Bytes) (pos : Nat) :
    LoggedResult (List (Utf8String × Operand) × Nat) := do
  let (key, pos) ← Logged.lift (readString idx s!"map key {i}: invalid UTF-8" data pos)
  let (value, pos) ← nestedOperandLogged dec (idx * 1000 + UInt32.ofNat i) data pos
  pure (SortedMap.insert key value map, pos)

/-- The match of {lit}`decode_operand`.  A map is a {lit}`BTreeMap`, which reserves
nothing; the arms of the other types make no nested calls. -/
def decodeValueLogged (dec : Bytes → UInt32 → LoggedResult (Operand × Nat)) (tag : OperandType)
    (idx : UInt32) (data : Bytes) (pos : Nat) : LoggedResult (Operand × Nat) :=
  match tag with
  | .list => do
      let (count, pos) ← Logged.lift (readVarint data pos)
      withCapacity count data pos
      let (items, pos) ← Logged.loop (itemStepLogged dec fun i => idx * 1000 + UInt32.ofNat i)
        count.toNat 0 [] data pos
      pure (.list items, pos)
  | .map => do
      let (count, pos) ← Logged.lift (readVarint data pos)
      let (map, pos) ← Logged.loop (entryStepLogged dec idx) count.toNat 0 [] data pos
      pure (.map map, pos)
  | tag => Logged.lift (decodeValue (fun rest idx => (dec rest idx).result) tag idx data pos)

/-- The body of {lit}`decode_operand`. -/
def decodeOperandWithLogged (dec : Bytes → UInt32 → LoggedResult (Operand × Nat)) (data : Bytes)
    (idx : UInt32) : LoggedResult (Operand × Nat) :=
  if data.isEmpty then Logged.lift (.err (.new .truncated s!"operand {idx}: no tag byte"))
  else do
    let tag ← Logged.lift (Outcome.index data 0)
    decodeValueLogged dec (OperandType.fromU8 tag) idx data 1

/-- {lit}`decode_operand` with a bound on the depth of its recursion. -/
def decodeOperandLoggedFuel : (fuel : Nat) → Bytes → UInt32 → LoggedResult (Operand × Nat)
  | 0, _, _ => Logged.lift .panic
  | fuel + 1, data, idx => decodeOperandWithLogged (decodeOperandLoggedFuel fuel) data idx

/-- {lit}`decode_operand`. -/
def decodeOperandLogged (data : Bytes) (idx : UInt32) : LoggedResult (Operand × Nat) :=
  decodeOperandLoggedFuel (data.length + 1) data idx

/-- The loop that collects the operands of a packet. -/
def operandLoopLogged (payload : Bytes) : LoggedResult (List Operand) := do
  let (count, pos) ← Logged.lift (readVarint payload 1)
  withCapacity count payload pos
  let (operands, _) ← Logged.loop (itemStepLogged decodeOperandLogged UInt32.ofNat)
    count.toNat 0 [] payload pos
  pure operands

/-! ## Counts that pass a check -/

/-- The counts of all lists that decoding an operand reaches pass the check. -/
def CountsPass (ok : Reservation → Prop) (data : Bytes) : Prop :=
  ∀ path count len rest, OperandPath data path (0x17 :: (len ++ rest)) → Varint count len →
    ok { count := count, unread := rest.length }

/-- The counts of the operands of a payload, and of the lists in them, pass the check. -/
structure PayloadCountsPass (ok : Reservation → Prop) (payload : Bytes) : Prop where
  count : ∀ opcode count len rest, payload = opcode :: (len ++ rest) → Varint count len →
    ok { count := count, unread := rest.length }
  operands : ∀ i rest, OperandAt payload i rest → CountsPass ok rest

/-- The counts pass when that of the operand itself and those of its items do. -/
theorem countsPass_iff {ok : Reservation → Prop} {data : Bytes} :
    CountsPass ok data ↔
      (∀ count len rest, data = 0x17 :: (len ++ rest) → Varint count len →
        ok { count := count, unread := rest.length }) ∧
      ∀ i rest, ItemAt data i rest → CountsPass ok rest := by
  constructor
  · intro h
    constructor
    · intro count len rest hdata hlen
      exact h [] count len rest (hdata ▸ .here) hlen
    · intro i rest hitem path count len target hpath hlen
      exact h (i :: path) count len target (.item hitem hpath) hlen
  · intro h path count len rest hpath hlen
    generalize htarget : 0x17 :: (len ++ rest) = target at hpath
    cases hpath with
    | here => exact h.1 count len rest htarget.symm hlen
    | item hitem hrest =>
        rw [← htarget] at hrest
        exact h.2 _ _ hitem _ count len rest hrest hlen

/-- The counts of a payload, in terms of what stands behind its opcode byte. -/
theorem payloadCountsPass_iff {ok : Reservation → Prop} {opcode : UInt8} {body : Bytes} :
    PayloadCountsPass ok (opcode :: body) ↔
      (∀ count len rest, body = len ++ rest → Varint count len →
        ok { count := count, unread := rest.length }) ∧
      ∀ i rest, SequenceAt body i rest → CountsPass ok rest := by
  simp only [← @operandAt_iff opcode]
  constructor
  · intro h
    exact ⟨fun count len rest hbody => h.count opcode count len rest (congrArg _ hbody), h.operands⟩
  · intro h
    refine ⟨fun tag count len rest hpayload => ?_, h.2⟩
    exact h.1 count len rest (List.cons.inj hpayload).2

/-! ## One call -/

section Judged

variable (ok : Reservation → Prop) [DecidablePred ok]

/-- The nested calls of a checked decoder. -/
def judgedCall (dec : Bytes → UInt32 → LoggedResult (Operand × Nat)) (rest : Bytes)
    (idx : UInt32) : AiclResult (Operand × Nat) :=
  (dec rest idx).judged ok

variable (dec : Bytes → UInt32 → LoggedResult (Operand × Nat)) (idx : UInt32) (data : Bytes)
  (pos : Nat)

/-- A reservation is checked by itself. -/
theorem judged_withCapacity (count : UInt32) :
    (withCapacity count data pos).judged ok =
      if ok { count := count.toNat, unread := data.length - pos } then .ok () else .panic :=
  Logged.judged_tell ok _

/-- Checking the reservations of a nested call. -/
theorem judged_nestedOperandLogged :
    (nestedOperandLogged dec idx data pos).judged ok =
      nestedOperand (judgedCall ok dec) idx data pos := by
  simp only [nestedOperandLogged, Logged.judged_bind, Logged.judged_lift, Logged.judged_pure]
  rfl

/-- Checking the reservations of a round. -/
theorem judged_itemStepLogged (index : Nat → UInt32) (i : Nat) (items : List Operand) :
    (itemStepLogged dec index i items data pos).judged ok =
      itemStep (judgedCall ok dec) index i items data pos := by
  simp only [itemStepLogged, Logged.judged_bind, judged_nestedOperandLogged, Logged.judged_pure]
  rfl

/-- Checking the reservations of a round over the entries of a map. -/
theorem judged_entryStepLogged (i : Nat) (map : List (Utf8String × Operand)) :
    (entryStepLogged dec idx i map data pos).judged ok =
      entryStep (judgedCall ok dec) idx i map data pos := by
  simp only [entryStepLogged, Logged.judged_bind, Logged.judged_lift, judged_nestedOperandLogged,
    Logged.judged_pure]
  rfl

end Judged

section Checked

variable {ok : Reservation → Prop} [DecidablePred ok]
  {dec : Bytes → UInt32 → AiclResult (Operand × Nat)}
  {dec' : Bytes → UInt32 → LoggedResult (Operand × Nat)} {data body : Bytes}

variable (ok) in
/-- A checked reservation between a count and what follows it. -/
theorem reserve_panicsUnless {γ : Type} (tag : UInt8) (f' f : UInt32 × Nat → AiclResult γ)
    {P : Prop}
    (h : PanicsUnless P (readVarint (tag :: body) 1 >>= f') (readVarint (tag :: body) 1 >>= f)) :
    PanicsUnless
      ((∀ count len rest, body = len ++ rest → Varint count len →
        ok { count := count, unread := rest.length }) ∧ P)
      (readVarint (tag :: body) 1 >>= fun r =>
        (if ok { count := r.1.toNat, unread := (tag :: body).length - r.2 } then .ok ()
          else .panic) >>= fun _ => f' r)
      (readVarint (tag :: body) 1 >>= f) := by
  have hcheck : ∀ r : UInt32 × Nat,
      PanicsUnless (ok { count := r.1.toNat, unread := (tag :: body).length - r.2 })
        ((if ok { count := r.1.toNat, unread := (tag :: body).length - r.2 } then .ok ()
          else .panic) >>= fun _ => f' r)
        (f' r) := by
    intro r
    have hguard := PanicsUnless.guard
      fun _ : ok { count := r.1.toNat, unread := (tag :: body).length - r.2 } =>
        PanicsUnless.refl (.ok () : AiclResult Unit)
    exact (hguard.bind_left fun _ => f' r).congr (and_iff_left trivial)
  have hcounts := @forall_readVarint_iff tag body fun count pos =>
    ok { count := count, unread := (tag :: body).length - pos }
  refine ((PanicsUnless.bind_right fun r _ => hcheck r).congr ?_).trans h
  rw [hcounts]
  refine forall_congr' fun count => forall_congr' fun len => forall_congr' fun rest =>
    imp_congr_right fun hbody => ?_
  have hunread : (tag :: body).length - (1 + len.length) = rest.length := by
    rw [hbody, List.length_cons, List.length_append]
    omega
  rw [hunread]

/-- On slices shorter than the data, the logging function for nested calls reserves within
bounds exactly when the counts pass. -/
def CallsPass (ok : Reservation → Prop) [DecidablePred ok] (data : Bytes)
    (dec' : Bytes → UInt32 → LoggedResult (Operand × Nat))
    (dec : Bytes → UInt32 → AiclResult (Operand × Nat)) : Prop :=
  ∀ rest idx, rest.length < data.length →
    PanicsUnless (CountsPass ok rest) (judgedCall ok dec' rest idx) (dec rest idx)

/-- The list arm. -/
theorem decodeValueLogged_list_panicsUnless (hdec : ReadsOperands (body.length + 1) dec)
    (h : CallsPass ok (0x17 :: body) dec' dec) (idx : UInt32) :
    PanicsUnless
      ((∀ count len rest, body = len ++ rest → Varint count len →
        ok { count := count, unread := rest.length }) ∧
          ∀ i rest, ItemAt (0x17 :: body) i rest → CountsPass ok rest)
      ((decodeValueLogged dec' .list idx (0x17 :: body) 1).judged ok)
      (decodeValue dec .list idx (0x17 :: body) 1) := by
  have hitems := list_panicsUnless hdec (fun _ => judgedCall ok dec') (fun _ => CountsPass ok) idx
    fun _ rest => h rest _
  simp only [decodeValueLogged, Logged.judged_bind, Logged.judged_lift, Logged.judged_loop,
    Logged.judged_pure, judged_withCapacity, judged_itemStepLogged]
  exact reserve_panicsUnless ok 0x17 _ _ hitems

/-- The map arm. -/
theorem decodeValueLogged_map_panicsUnless (hdec : ReadsOperands (body.length + 1) dec)
    (h : CallsPass ok (0x18 :: body) dec' dec) (idx : UInt32) :
    PanicsUnless (∀ i rest, ItemAt (0x18 :: body) i rest → CountsPass ok rest)
      ((decodeValueLogged dec' .map idx (0x18 :: body) 1).judged ok)
      (decodeValue dec .map idx (0x18 :: body) 1) := by
  have hentries := map_panicsUnless hdec (fun _ => judgedCall ok dec') (fun _ => CountsPass ok) idx
    fun _ rest => h rest _
  simp only [decodeValueLogged, Logged.judged_bind, Logged.judged_lift, Logged.judged_loop,
    Logged.judged_pure, judged_entryStepLogged]
  exact hentries

/-- The other arms reserve nothing. -/
theorem judged_decodeValueLogged_of_flat {tag : OperandType} (hlist : tag ≠ .list)
    (hmap : tag ≠ .map) (idx : UInt32) (pos : Nat) :
    (decodeValueLogged dec' tag idx data pos).judged ok = decodeValue dec tag idx data pos := by
  cases tag with
  | list => exact absurd rfl hlist
  | map => exact absurd rfl hmap
  | _ => exact Logged.judged_lift ok _

/-- One call, given the calls on shorter slices. -/
theorem decodeOperandWithLogged_panicsUnless (hdec : ReadsOperands data.length dec)
    (h : CallsPass ok data dec' dec) (idx : UInt32) :
    PanicsUnless (CountsPass ok data) ((decodeOperandWithLogged dec' data idx).judged ok)
      (decodeOperandWith dec data idx) := by
  refine PanicsUnless.congr ?_ countsPass_iff.symm
  cases data with
  | nil =>
      have herr : (decodeOperandWithLogged dec' [] idx).judged ok = decodeOperandWith dec [] idx :=
        Logged.judged_lift ok _
      rw [herr]
      refine (PanicsUnless.refl _).congr (iff_of_true trivial ⟨?_, ?_⟩)
      · intro count len rest hdata
        exact absurd hdata (List.cons_ne_nil _ _).symm
      · intro i rest hitem
        cases hitem
  | cons tag body =>
      have hcall : (decodeOperandWithLogged dec' (tag :: body) idx).judged ok =
          (decodeValueLogged dec' (OperandType.fromU8 tag) idx (tag :: body) 1).judged ok := rfl
      rw [hcall]
      rcases fromU8_nested_cases tag with rfl | rfl | ⟨⟨hlist, hmap⟩, htag, htag'⟩
      · refine (decodeValueLogged_list_panicsUnless hdec h idx).congr (and_congr_left fun _ => ?_)
        simp only [List.cons.injEq, true_and]
      · refine (decodeValueLogged_map_panicsUnless hdec h idx).congr (and_iff_right ?_).symm
        intro count len rest hdata
        exact absurd (List.cons.inj hdata).1 (by decide)
      · rw [judged_decodeValueLogged_of_flat hlist hmap]
        refine (PanicsUnless.refl _).congr (iff_of_true trivial ⟨?_, ?_⟩)
        · intro count len rest hdata
          exact absurd (List.cons.inj hdata).1 htag
        · intro i rest hitem
          exact absurd hitem (not_itemAt htag htag')

/-! ## Operands -/

/-- The operand decoder with a check of every reservation. -/
theorem decodeOperandLoggedFuel_panicsUnless (fuel : Nat) (data : Bytes) (idx : UInt32)
    (h : data.length < fuel) :
    PanicsUnless (CountsPass ok data) ((decodeOperandLoggedFuel fuel data idx).judged ok)
      (decodeOperand data idx) := by
  induction fuel generalizing data idx with
  | zero => exact absurd h (Nat.not_lt_zero _)
  | succ fuel ih =>
      have hbelow : CallsPass ok data (decodeOperandLoggedFuel fuel) decodeOperand :=
        fun rest k hrest => ih rest k (by omega)
      rw [@decodeOperand_eq decodeOperand data (fun _ _ _ => rfl)]
      exact decodeOperandWithLogged_panicsUnless (decodeOperand_reads _) hbelow idx

/-- Every reservation of the operand decoder passes a check exactly when the counts of all
lists that decoding reaches do. -/
theorem decodeOperandLogged_panicsUnless (data : Bytes) (idx : UInt32) :
    PanicsUnless (CountsPass ok data) (judgedCall ok decodeOperandLogged data idx)
      (decodeOperand data idx) :=
  decodeOperandLoggedFuel_panicsUnless (data.length + 1) data idx (Nat.lt_succ_self _)

/-- The loop over the operands of a packet with a check of every reservation. -/
theorem operandLoopLogged_panicsUnless (opcode : UInt8) (body : Bytes) :
    PanicsUnless (PayloadCountsPass ok (opcode :: body))
      ((operandLoopLogged (opcode :: body)).judged ok) (operandLoop (opcode :: body)) := by
  have hitems := items_panicsUnless (decodeOperand_reads (body.length + 1))
    (fun _ => judgedCall ok decodeOperandLogged) (fun _ => CountsPass ok) opcode UInt32.ofNat
    (fun _ rest _ => decodeOperandLogged_panicsUnless rest _) fun r => pure r.1
  simp only [operandLoopLogged, Logged.judged_bind, Logged.judged_lift, Logged.judged_loop,
    Logged.judged_pure, judged_withCapacity, judged_itemStepLogged]
  refine (reserve_panicsUnless ok opcode _ _ hitems).congr ?_
  rw [payloadCountsPass_iff]

end Checked

/-- Logging changes no result. -/
@[simp] theorem result_decodeOperandLogged (data : Bytes) (idx : UInt32) :
    (decodeOperandLogged data idx).result = decodeOperand data idx := by
  have hall := @decodeOperandLogged_panicsUnless (fun _ => True) _ data idx
  exact (Logged.result_eq_judged _).trans (hall.same fun _ _ _ _ _ _ => trivial)

/-- The reservations of the operand decoder. -/
theorem forall_log_decodeOperandLogged_iff {ok : Reservation → Prop} [DecidablePred ok]
    {data : Bytes} {idx : UInt32} :
    (∀ r ∈ (decodeOperandLogged data idx).log, ok r) ↔ CountsPass ok data :=
  Logged.forall_log_iff ok (result_decodeOperandLogged data idx)
    (decodeOperandLogged_panicsUnless data idx)
    ((decodeOperand_reads _ idx).sound data (Nat.lt_succ_self _)).ne_panic

/-! ## Packets -/

/-- Logging changes no result of the loop over the operands of a packet. -/
theorem result_operandLoopLogged (payload : Bytes) :
    (operandLoopLogged payload).result = operandLoop payload := by
  cases payload with
  | nil => rfl
  | cons opcode body =>
      have hall := @operandLoopLogged_panicsUnless (fun _ => True) _ opcode body
      exact (Logged.result_eq_judged _).trans
        (hall.same ⟨fun _ _ _ _ _ _ => trivial, fun _ _ _ _ _ _ _ _ _ => trivial⟩)

/-- The reservations of the loop over the operands of a packet. -/
theorem forall_log_operandLoopLogged_iff {ok : Reservation → Prop} [DecidablePred ok]
    {payload : Bytes} (hpayload : payload ≠ []) :
    (∀ r ∈ (operandLoopLogged payload).log, ok r) ↔ PayloadCountsPass ok payload := by
  cases payload with
  | nil => exact absurd rfl hpayload
  | cons opcode body =>
      exact Logged.forall_log_iff ok (result_operandLoopLogged _)
        (operandLoopLogged_panicsUnless opcode body) (operandLoop_sat opcode body).ne_panic

/-- The collected operands have their maps sorted. -/
theorem operandLoopLogged_sorted {payload : Bytes} {operands : List Operand}
    (h : (operandLoopLogged payload).result = .ok operands) :
    ∀ op ∈ operands, op.All Operand.MapSorted :=
  operandLoop_sorted ((result_operandLoopLogged payload).symm.trans h)

/-- The operands of a packet, with the certificate that their maps are sorted. -/
def collectOperandsLogged (payload : Bytes) :
    LoggedResult { operands : List Operand // ∀ op ∈ operands, op.All Operand.MapSorted } :=
  (operandLoopLogged payload).attach fun _ => operandLoopLogged_sorted

/-- Logging changes no collected operands. -/
@[simp] theorem result_collectOperandsLogged (payload : Bytes) :
    (collectOperandsLogged payload).result = collectOperands payload := by
  simp only [collectOperandsLogged, Logged.attach, collectOperands, result_operandLoopLogged]

/-- {lit}`to_packet`. -/
def PacketView.toPacketLogged (v : PacketView) : LoggedResult AiclPacket := do
  let payload ← Logged.lift v.payload
  let opcodeByte ← Logged.lift v.opcode
  let opcode ← Logged.lift (opcodeOf "unknown opcode byte" opcodeByte)
  let flags ← Logged.lift v.flags
  let ⟨operands, sorted⟩ ← collectOperandsLogged payload
  let messageId ← Logged.lift v.messageId
  let correlationId ← Logged.lift v.correlationId
  let deadlineMs ← Logged.lift v.deadlineMs
  pure
    { opcode
      flags := ⟨flags⟩
      messageId := some messageId
      correlationId
      deadlineMs
      operands
      sorted }

/-- {lit}`decode_to_packet_from_slice`. -/
def decodeToPacketFromSliceLogged (data : Bytes) : LoggedResult AiclPacket := do
  Logged.lift (failIf (data.length < headerSize) (.new .badHeader "truncated header"))
  let opcodeByte ← Logged.lift (index data headerSize)
  let opcode ← Logged.lift (opcodeOf "unknown opcode" opcodeByte)
  let flags ← Logged.lift (wordU16 data 6)
  let payloadLen ← Logged.lift (wordU32 data 44)
  let payload ← Logged.lift (slice data headerSize (headerSize + payloadLen.toNat))
  Logged.lift (failIf payload.isEmpty (.new .truncated "payload empty"))
  let ⟨operands, sorted⟩ ← collectOperandsLogged payload
  let messageId ← Logged.lift (idAt data 8)
  let correlationId ← Logged.lift (idAt data 24)
  let deadlineMs ← Logged.lift (wordU32 data 40)
  pure
    { opcode
      flags := ⟨flags⟩
      messageId := some messageId
      correlationId
      deadlineMs
      operands
      sorted }

/-- {lit}`decode_to_packet_from_slice` up to the operands: the payload of a slice that
passes the checks. -/
def slicePayload (data : Bytes) : AiclResult Bytes := do
  failIf (data.length < headerSize) (.new .badHeader "truncated header")
  let opcodeByte ← index data headerSize
  let _opcode ← opcodeOf "unknown opcode" opcodeByte
  let _flags ← wordU16 data 6
  let payloadLen ← wordU32 data 44
  let payload ← slice data headerSize (headerSize + payloadLen.toNat)
  failIf payload.isEmpty (.new .truncated "payload empty")
  pure payload

/-- Logging changes no packet of a view. -/
theorem PacketView.result_toPacketLogged (v : PacketView) :
    v.toPacketLogged.result = v.toPacket := by
  simp only [toPacketLogged, Logged.result_bind, result_collectOperandsLogged]
  rfl

/-- Logging changes no packet of a slice. -/
theorem result_decodeToPacketFromSliceLogged (data : Bytes) :
    (decodeToPacketFromSliceLogged data).result = decodeToPacketFromSlice data := by
  simp only [decodeToPacketFromSliceLogged, Logged.result_bind, result_collectOperandsLogged]
  rfl

/-- The reservations of the slice decoder. -/
theorem forall_log_decodeToPacketFromSliceLogged_iff {ok : Reservation → Prop} [DecidablePred ok]
    {data : Bytes} :
    (∀ r ∈ (decodeToPacketFromSliceLogged data).log, ok r) ↔
      ∀ payload, slicePayload data = .ok payload → PayloadCountsPass ok payload := by
  have hcollect : ∀ payload, (failIf (payload.isEmpty = true) (.new .truncated "payload empty") :
      AiclResult Unit) = .ok () →
      ((∀ r ∈ (collectOperandsLogged payload).log, ok r) ↔ PayloadCountsPass ok payload) := by
    intro payload hpass
    refine forall_log_operandLoopLogged_iff fun hnil => ?_
    rw [hnil] at hpass
    cases hpass
  simp only [decodeToPacketFromSliceLogged, slicePayload, Logged.forall_log_lift_bind,
    Logged.forall_log_bind, Logged.log_pure, Outcome.forall_bind_eq_ok_iff, Outcome.pure_eq,
    Outcome.ok.injEq, forall_eq', List.not_mem_nil, false_implies, implies_true, and_true]
  refine forall₅_congr fun _ _ _ _ _ => forall₅_congr fun _ _ _ _ _ => ?_
  exact forall₄_congr fun payload _ _ hpass => hcollect payload hpass

/-- The reservations of a view. -/
theorem PacketView.forall_log_toPacketLogged {ok : Reservation → Prop} [DecidablePred ok]
    {v : PacketView} {payload : Bytes} (hpayload : v.payload = .ok payload) (hne : payload ≠ [])
    (hcounts : PayloadCountsPass ok payload) : ∀ r ∈ v.toPacketLogged.log, ok r := by
  simp only [toPacketLogged, Logged.forall_log_lift_bind, Logged.forall_log_bind, Logged.log_pure,
    hpayload, Outcome.ok.injEq, forall_eq', List.not_mem_nil, false_implies, implies_true, and_true]
  intro _ _ _ _ _ _
  exact (forall_log_operandLoopLogged_iff hne).mpr hcounts

/-! ## Counts of sequences that are cut short -/

/-- Fewer operands are well formed, one behind another, than the count says. -/
def CutShort (count : Nat) (rest : Bytes) : Prop :=
  ∀ ts items post, rest = items ++ post → DerivesList IsNullOrReserved ts items → ts.length ≠ count

/-- The lists that decoding an operand reaches and that are cut short declare no more items
than bytes follow, {lit}`k` bytes behind the operand's buffer included. -/
def ListsFit (k : Nat) (data : Bytes) : Prop :=
  ∀ path count len rest, OperandPath data path (0x17 :: (len ++ rest)) → Varint count len →
    CutShort count rest → count ≤ rest.length + k

/-- The same for the operands of a payload and for the lists in them. -/
structure PayloadFits (k : Nat) (payload : Bytes) : Prop where
  count : ∀ opcode count len rest, payload = opcode :: (len ++ rest) → Varint count len →
    CutShort count rest → count ≤ rest.length + k
  operands : ∀ i rest, OperandAt payload i rest → ListsFit k rest

/-- A complete sequence has at least as many bytes as operands. -/
theorem within_iff_of_cutShort {k count : Nat} {rest : Bytes} :
    Reservation.Within k { count := count, unread := rest.length } ↔
      (CutShort count rest → count ≤ rest.length + k) := by
  constructor
  · intro h _
    exact h
  · intro h
    by_cases hcut : CutShort count rest
    · exact h hcut
    · simp only [CutShort, not_forall, not_not] at hcut
      obtain ⟨ts, items, post, rfl, hts, rfl⟩ := hcut
      have hle := hts.length_le
      have hlen := @List.length_append _ items post
      show ts.length ≤ (items ++ post).length + k
      omega

/-- The counts of an operand are within what is unread when those of its lists that are
cut short are. -/
theorem countsPass_within_iff {k : Nat} {data : Bytes} :
    CountsPass (Reservation.Within k) data ↔ ListsFit k data := by
  simp only [CountsPass, ListsFit, within_iff_of_cutShort]

/-- The same for a payload. -/
theorem payloadCountsPass_within_iff {k : Nat} {payload : Bytes} :
    PayloadCountsPass (Reservation.Within k) payload ↔ PayloadFits k payload := by
  constructor
  · intro h
    constructor
    · intro opcode count len rest hpayload hlen
      exact within_iff_of_cutShort.mp (h.count opcode count len rest hpayload hlen)
    · intro i rest hoperand
      exact countsPass_within_iff.mp (h.operands i rest hoperand)
  · intro h
    constructor
    · intro opcode count len rest hpayload hlen
      exact within_iff_of_cutShort.mpr (h.count opcode count len rest hpayload hlen)
    · intro i rest hoperand
      exact countsPass_within_iff.mpr (h.operands i rest hoperand)

/-- A complete sequence is not cut short. -/
theorem not_cutShort {ts : List Isa.Tree} {count : Nat} {len len' items post rest : Bytes}
    (hts : DerivesList IsNullOrReserved ts items) (hlen : Varint ts.length len)
    (hlen' : Varint count len') (heq : len' ++ rest = len ++ (items ++ post)) :
    ¬ CutShort count rest := by
  obtain ⟨rfl, -, rfl⟩ := hlen'.unique hlen heq
  intro hcut
  exact hcut ts items post rfl hts rfl

/-- In a complete operand no list is cut short. -/
theorem StartsOperand.listsFit {data : Bytes} (h : StartsOperand data) (k : Nat) :
    ListsFit k data := by
  intro path count len rest hpath hlen hcut
  obtain ⟨_, body, post, hsplit, ts, len', items, -, rfl, hlen', hts⟩ :=
    (hpath.startsOperand h).layout
  rw [List.append_assoc] at hsplit
  exact absurd hcut (not_cutShort hts hlen' hlen hsplit)

/-- In a complete payload nothing is cut short. -/
theorem payloadFits_of_payload {opcode : UInt8} {ts : List Isa.Tree} {payload : Bytes}
    (h : Payload IsNullOrReserved opcode ts payload) (k : Nat) : PayloadFits k payload := by
  constructor
  · intro tag count len rest hpayload hlen hcut
    cases h with
    | @mk len' items hlen' hts =>
        have hsplit : len ++ rest = len' ++ (items ++ []) := by
          rw [List.append_nil]
          exact (List.cons.inj hpayload).2.symm
        exact absurd hcut (not_cutShort hts hlen' hlen hsplit)
  · intro i rest hoperand
    rw [← List.append_nil payload] at hoperand
    exact (OperandAt.startsOperand h hoperand).listsFit k

/-- A decoded view has a complete payload. -/
theorem payload_of_decode {crc32 : Bytes → UInt32} {codec : AiclCodec} {data : Bytes}
    {view : PacketView} (h : codec.decode crc32 data = .ok view) :
    ∃ opcode ts payload, view.payload = .ok payload ∧
      Payload IsNullOrReserved opcode ts payload := by
  obtain ⟨_, hvalidate, -⟩ := Outcome.bind_eq_ok_iff.mp h
  have hvalid : Valid crc32 codec data := (validateHeader_eq_ok_iff codec).mp hvalidate
  have hview : view = viewOf data := (Outcome.ok.inj ((view_of_valid hvalid).symm.trans h)).symm
  obtain ⟨opcode, ts, hpayload⟩ := hvalid.payload
  exact ⟨opcode, ts, _, hview ▸ payload_viewOf hvalid.complete, hpayload⟩

/-- The reservations of the decoders are within the unread bytes, of the buffer and
{lit}`k` behind it, exactly when the counts of the sequences that are cut short are; those
of a decoded view always are. -/
theorem reservations_within_iff (k : Nat) :
    (∀ data idx, (∀ r ∈ (decodeOperandLogged data idx).log, r.Within k) ↔ ListsFit k data) ∧
      (∀ crc32 codec data view, AiclCodec.decode crc32 codec data = .ok view →
        ∀ r ∈ view.toPacketLogged.log, r.Within k) ∧
      ∀ data, (∀ r ∈ (decodeToPacketFromSliceLogged data).log, r.Within k) ↔
        ∀ payload, slicePayload data = .ok payload → PayloadFits k payload := by
  refine ⟨?_, ?_, ?_⟩
  · intro data idx
    exact forall_log_decodeOperandLogged_iff.trans countsPass_within_iff
  · intro crc32 codec data view hview
    obtain ⟨opcode, ts, payload, hview, hpayload⟩ := payload_of_decode hview
    have hne : payload ≠ [] := by
      rintro rfl
      cases hpayload
    exact view.forall_log_toPacketLogged hview hne
      (payloadCountsPass_within_iff.mpr (payloadFits_of_payload hpayload k))
  · intro data
    simp only [forall_log_decodeToPacketFromSliceLogged_iff, payloadCountsPass_within_iff]

/-- A payload of two bytes, whose count announces 127 operands. -/
def overdrawn : Bytes := [AiclOpcode.nop.toU8, 0x7F]

/-- A frame of 58 bytes has a borrowed view whose packet makes the decoder reserve 127
elements. -/
theorem frame_overdrawn :
    ¬ ∀ data view, AiclCodec.new.decodeBorrowed Crc32.ieee data = .ok view →
      ∀ r ∈ (decodeToPacketFromSliceLogged view.data).log, r.count ≤ view.data.length := by
  intro h
  have hview : AiclCodec.new.decodeBorrowed Crc32.ieee (frameAround overdrawn) =
      .ok (borrowedOf (frameAround overdrawn)) := by decide +kernel
  have hlog := h _ _ hview
  have hframe : ¬ ∀ r ∈
      (decodeToPacketFromSliceLogged (borrowedOf (frameAround overdrawn)).data).log,
      r.count ≤ (borrowedOf (frameAround overdrawn)).data.length := by decide +kernel
  exact hframe hlog

end Aicl.CoreRust
