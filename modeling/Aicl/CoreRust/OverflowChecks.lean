import Aicl.CoreRust.OperandItems
import Aicl.Foundation.Crc32

/-!
# The operand decoder in a build with overflow checks

For the messages of nested operands, {lit}`decode_operand` computes the number
{lit}`idx * 1000 + i` as a {lit}`u32` before every nested call.  A release build wraps;
a build with overflow checks panics.  The number of an operand is its path, the positions
that lead to it, read as a numeral to the base 1000.

Main results:

- Theorem {lit}`decodeOperandChecked_panicsUnless`: the two builds decode an operand
  alike when the numbers of all paths that decoding reaches fit, and the checked one
  panics otherwise.
- Theorem {lit}`validateHeaderChecked_eq_iff`: the same for the operands of a frame.
-/

namespace Aicl.CoreRust

open Outcome (failIf index slice PanicsUnless Forward)

/-! ## The checked build -/

/-- A nested call for item {lit}`i`, whose index {lit}`idx * 1000 + i` is computed with
overflow checks before the call. -/
def indexChecked (dec : Bytes → UInt32 → AiclResult (Operand × Nat)) (idx : UInt32) (i : Nat)
    (rest : Bytes) (index : UInt32) : AiclResult (Operand × Nat) :=
  if idx.toNat * 1000 + i < 2 ^ 32 then dec rest index else .panic

/-- The match of {lit}`decode_operand`: the arms that make nested calls compute an
index for each. -/
def decodeValueChecked (dec : Bytes → UInt32 → AiclResult (Operand × Nat)) (tag : OperandType)
    (idx : UInt32) (data : Bytes) (pos : Nat) : AiclResult (Operand × Nat) :=
  match tag with
  | .list => do
      let (count, pos) ← readVarint data pos
      let (items, pos) ← Outcome.loop
        (fun i => itemStep (indexChecked dec idx i) (fun i => idx * 1000 + UInt32.ofNat i) i)
        count.toNat 0 [] data pos
      pure (.list items, pos)
  | .map => do
      let (count, pos) ← readVarint data pos
      let (map, pos) ← Outcome.loop (fun i => entryStep (indexChecked dec idx i) idx i)
        count.toNat 0 [] data pos
      pure (.map map, pos)
  | tag => decodeValue dec tag idx data pos

/-- The body of {lit}`decode_operand`. -/
def decodeOperandWithChecked (dec : Bytes → UInt32 → AiclResult (Operand × Nat)) (data : Bytes)
    (idx : UInt32) : AiclResult (Operand × Nat) :=
  if data.isEmpty then .err (.new .truncated s!"operand {idx}: no tag byte")
  else do
    let tag ← Outcome.index data 0
    decodeValueChecked dec (OperandType.fromU8 tag) idx data 1

/-- {lit}`decode_operand` with a bound on the depth of its recursion. -/
def decodeOperandCheckedFuel : (fuel : Nat) → Bytes → UInt32 → AiclResult (Operand × Nat)
  | 0, _, _ => .panic
  | fuel + 1, data, idx => decodeOperandWithChecked (decodeOperandCheckedFuel fuel) data idx

/-- {lit}`decode_operand`. -/
def decodeOperandChecked (data : Bytes) (idx : UInt32) : AiclResult (Operand × Nat) :=
  decodeOperandCheckedFuel (data.length + 1) data idx

/-- One round of the operand loop of {lit}`validate_header`; the index of an operand of
the packet is its position. -/
def skipStepChecked (i : Nat) (_ : Unit) (data : Bytes) (pos : Nat) : AiclResult (Unit × Nat) := do
  let (_, pos) ← nestedOperand decodeOperandChecked (UInt32.ofNat i) data pos
  pure ((), pos)

/-- The operand pass of {lit}`validate_header`. -/
def operandPassChecked (payload : Bytes) : AiclResult Unit := do
  failIf payload.isEmpty (.new .truncated "payload empty")
  let (count, pos) ← readVarint payload 1
  let (_, pos) ← Outcome.loop skipStepChecked count.toNat 0 () payload pos
  failIf (pos ≠ payload.length)
    (.new .trailingBytes s!"operand payload consumed {pos} of {payload.length} bytes")

section Checksum

variable (crc32 : Bytes → UInt32)

/-- {lit}`validate_header` up to its operand pass: the payload of a frame that passes
the checks. -/
def headerPayload (maxPayload : Nat) (checkCrc : Bool) (data : Bytes) : AiclResult Bytes := do
  checkPrelude crc32 validateMessages data
  let flags ← wordU16 data 6
  let payloadLen ← wordU32 data 44
  failIf (maxPayload < payloadLen.toNat)
    (.new .payloadTooLarge s!"payload {payloadLen} > max {maxPayload}")
  let total := headerSize + payloadLen.toNat
  failIf (data.length < total) (.new .truncated
    s!"declared {headerSize} + {payloadLen} = {total} but buffer is {data.length}")
  checkTrailer crc32 (flags &&& 0x0100 != 0) checkCrc total data
  let opcodeByte ← index data headerSize
  let _opcode ← opcodeOf "unknown opcode byte" opcodeByte
  slice data headerSize (headerSize + payloadLen.toNat)

/-- {lit}`validate_header`. -/
def validateHeaderChecked (maxPayload : Nat) (checkCrc : Bool) (data : Bytes) : AiclResult Unit := do
  let payload ← headerPayload crc32 maxPayload checkCrc data
  operandPassChecked payload

/-- The release build goes through the same checks. -/
theorem validateHeader_eq_headerPayload (maxPayload : Nat) (checkCrc : Bool) (data : Bytes) :
    validateHeader crc32 maxPayload checkCrc data =
      headerPayload crc32 maxPayload checkCrc data >>= operandPass := by
  simp only [validateHeader, headerPayload, Outcome.bind_assoc]

end Checksum

/-! ## Paths -/

/-- A path as a numeral to the base 1000, after the number {lit}`idx`. -/
def pathNumber (idx : Nat) (path : List Nat) : Nat :=
  path.foldl (fun n i => n * 1000 + i) idx

/-- The numbers of all paths that decoding reaches are {lit}`u32`s. -/
def PathsFit (idx : Nat) (data : Bytes) : Prop :=
  ∀ path target, OperandPath data path target → pathNumber idx path < 2 ^ 32

/-- The same for the operands of a payload. -/
def PayloadPathsFit (payload : Bytes) : Prop :=
  ∀ i rest, OperandAt payload i rest → PathsFit i rest

/-- Further positions make a number no smaller. -/
theorem pathNumber_ge (path : List Nat) (idx : Nat) :
    idx * 1000 ^ path.length ≤ pathNumber idx path := by
  induction path generalizing idx with
  | nil => simp [pathNumber]
  | cons i path ih =>
      calc idx * 1000 ^ (path.length + 1) = idx * 1000 * 1000 ^ path.length := by
            rw [Nat.pow_succ, Nat.mul_assoc, Nat.mul_comm 1000]
        _ ≤ (idx * 1000 + i) * 1000 ^ path.length :=
            Nat.mul_le_mul_right _ (Nat.le_add_right _ i)
        _ ≤ pathNumber (idx * 1000 + i) path := ih _

/-- The number of the operand itself. -/
theorem PathsFit.lt {idx : Nat} {data : Bytes} (h : PathsFit idx data) : idx < 2 ^ 32 :=
  h [] data .here

/-- Paths fit when those through every item do. -/
theorem pathsFit_iff {idx : Nat} {data : Bytes} (hidx : idx < 2 ^ 32) :
    PathsFit idx data ↔ ∀ i rest, ItemAt data i rest → PathsFit (idx * 1000 + i) rest := by
  constructor
  · intro h i rest hitem path target hpath
    exact h (i :: path) target (.item hitem hpath)
  · intro h path target hpath
    cases hpath with
    | here => exact hidx
    | item hitem hrest => exact h _ _ hitem _ target hrest

/-! ## One call -/

/-- On slices shorter than the data, the checked function for nested calls panics
exactly when a path does not fit. -/
def ChecksBelow (data : Bytes) (dec' dec : Bytes → UInt32 → AiclResult (Operand × Nat)) : Prop :=
  ∀ rest idx, rest.length < data.length →
    PanicsUnless (PathsFit idx.toNat rest) (dec' rest idx) (dec rest idx)

variable {dec dec' : Bytes → UInt32 → AiclResult (Operand × Nat)} {data : Bytes}

/-- A nested call with its index. -/
theorem indexChecked_panicsUnless (h : ChecksBelow data dec' dec) (idx : UInt32) (i : Nat)
    {rest : Bytes} (hrest : rest.length < data.length) :
    PanicsUnless (PathsFit (idx.toNat * 1000 + i) rest)
      (indexChecked dec' idx i rest (idx * 1000 + UInt32.ofNat i))
      (dec rest (idx * 1000 + UInt32.ofNat i)) := by
  refine (PanicsUnless.guard fun hlt => ?_).congr
    (show _ ∧ PathsFit (idx.toNat * 1000 + i) rest ↔ _ from and_iff_right_of_imp PathsFit.lt)
  have hnat : (idx * 1000 + UInt32.ofNat i).toNat = idx.toNat * 1000 + i := by
    rw [UInt32.toNat_add, UInt32.toNat_mul, UInt32.toNat_ofNat']
    have hthousand : (1000 : UInt32).toNat = 1000 := rfl
    rw [hthousand]
    omega
  exact hnat ▸ h rest _ hrest

/-- The list arm. -/
theorem decodeValueChecked_list_panicsUnless {body : Bytes}
    (hdec : ReadsOperands (body.length + 1) dec) (h : ChecksBelow (0x17 :: body) dec' dec)
    (idx : UInt32) :
    PanicsUnless (∀ i rest, ItemAt (0x17 :: body) i rest → PathsFit (idx.toNat * 1000 + i) rest)
      (decodeValueChecked dec' .list idx (0x17 :: body) 1)
      (decodeValue dec .list idx (0x17 :: body) 1) :=
  list_panicsUnless hdec (indexChecked dec' idx)
    (fun i rest => PathsFit (idx.toNat * 1000 + i) rest) idx
    fun i _ hrest => indexChecked_panicsUnless h idx i hrest

/-- The map arm. -/
theorem decodeValueChecked_map_panicsUnless {body : Bytes}
    (hdec : ReadsOperands (body.length + 1) dec) (h : ChecksBelow (0x18 :: body) dec' dec)
    (idx : UInt32) :
    PanicsUnless (∀ i rest, ItemAt (0x18 :: body) i rest → PathsFit (idx.toNat * 1000 + i) rest)
      (decodeValueChecked dec' .map idx (0x18 :: body) 1)
      (decodeValue dec .map idx (0x18 :: body) 1) :=
  map_panicsUnless hdec (indexChecked dec' idx)
    (fun i rest => PathsFit (idx.toNat * 1000 + i) rest) idx
    fun i _ hrest => indexChecked_panicsUnless h idx i hrest

/-- The other arms make no nested calls. -/
theorem decodeValueChecked_of_flat {tag : OperandType} (hlist : tag ≠ .list) (hmap : tag ≠ .map)
    (idx : UInt32) (pos : Nat) :
    decodeValueChecked dec' tag idx data pos = decodeValue dec tag idx data pos := by
  cases tag with
  | list => exact absurd rfl hlist
  | map => exact absurd rfl hmap
  | _ => rfl

/-- One call, given the calls on shorter slices. -/
theorem decodeOperandWithChecked_panicsUnless (hdec : ReadsOperands data.length dec)
    (h : ChecksBelow data dec' dec) (idx : UInt32) :
    PanicsUnless (∀ i rest, ItemAt data i rest → PathsFit (idx.toNat * 1000 + i) rest)
      (decodeOperandWithChecked dec' data idx) (decodeOperandWith dec data idx) := by
  cases data with
  | nil =>
      refine (PanicsUnless.refl _).congr (iff_of_true trivial ?_)
      intro i rest hitem
      cases hitem
  | cons tag body =>
      rcases fromU8_nested_cases tag with rfl | rfl | ⟨⟨hlist, hmap⟩, htag, htag'⟩
      · exact decodeValueChecked_list_panicsUnless hdec h idx
      · exact decodeValueChecked_map_panicsUnless hdec h idx
      · have hsame : decodeOperandWithChecked dec' (tag :: body) idx =
            decodeOperandWith dec (tag :: body) idx :=
          decodeValueChecked_of_flat hlist hmap idx 1
        rw [hsame]
        refine (PanicsUnless.refl _).congr (iff_of_true trivial ?_)
        intro i rest hitem
        exact absurd hitem (not_itemAt htag htag')

/-! ## Whole decodings -/

/-- The checked build decodes an operand as the release build does when all paths that
decoding reaches fit, and panics otherwise. -/
theorem decodeOperandCheckedFuel_panicsUnless (fuel : Nat) (data : Bytes) (idx : UInt32)
    (h : data.length < fuel) :
    PanicsUnless (PathsFit idx.toNat data) (decodeOperandCheckedFuel fuel data idx)
      (decodeOperand data idx) := by
  induction fuel generalizing data idx with
  | zero => exact absurd h (Nat.not_lt_zero _)
  | succ fuel ih =>
      have hbelow : ChecksBelow data (decodeOperandCheckedFuel fuel) decodeOperand :=
        fun rest k hrest => ih rest k (by omega)
      rw [@decodeOperand_eq decodeOperand data (fun _ _ _ => rfl)]
      exact (decodeOperandWithChecked_panicsUnless (decodeOperand_reads _) hbelow idx).congr
        (pathsFit_iff idx.toNat_lt).symm

/-- The same with the fuel that is always enough. -/
theorem decodeOperandChecked_panicsUnless (data : Bytes) (idx : UInt32) :
    PanicsUnless (PathsFit idx.toNat data) (decodeOperandChecked data idx)
      (decodeOperand data idx) :=
  decodeOperandCheckedFuel_panicsUnless (data.length + 1) data idx (Nat.lt_succ_self _)

/-- A round of the operand loop moves forward. -/
theorem skipStep_forward (i : Nat) (u : Unit) : Forward (skipStep i u) :=
  forward_bind (nestedOperand_forward _) fun _ => forward_pure ()

/-- A round of the operand loop. -/
theorem skipStepChecked_panicsUnless (i : Nat) (u : Unit) (data : Bytes) {pos : Nat}
    (hpos : 1 ≤ pos) :
    PanicsUnless (pos ≤ data.length → PathsFit (UInt32.ofNat i).toNat (data.drop pos))
      (skipStepChecked i u data pos) (skipStep i u data pos) := by
  have hcall := fun rest (_ : rest.length < data.length) =>
    decodeOperandChecked_panicsUnless rest (UInt32.ofNat i)
  exact (nestedOperand_panicsUnless hcall hpos).bind_left _

/-- The operand pass. -/
theorem operandPassChecked_panicsUnless (payload : Bytes) :
    PanicsUnless (PayloadPathsFit payload) (operandPassChecked payload) (operandPass payload) := by
  cases payload with
  | nil =>
      refine (PanicsUnless.refl _).congr (iff_of_true trivial ?_)
      intro i rest hoperand
      cases hoperand
  | cons opcode body =>
      have hrun := sequence_panicsUnless opcode skipStepChecked skipStep
        (fun i rest => PathsFit (UInt32.ofNat i).toNat rest)
        (fun i u _ => skipStepChecked_panicsUnless i u (opcode :: body))
        skipStep_forward skip_read (fun _ _ => exists_const Unit)
        (fun r => failIf (r.2 ≠ (opcode :: body).length) (.new .trailingBytes
          s!"operand payload consumed {r.2} of {(opcode :: body).length} bytes"))
      refine hrun.congr (forall_congr' fun i => forall_congr' fun rest => ?_)
      rw [operandAt_iff]
      refine imp_congr_right fun hoperand => ?_
      rw [hoperand.toNat_ofNat]

/-- Validation in a build with overflow checks ends as it does in a release build exactly
when the numbers of all paths that it reaches fit; otherwise it panics. -/
theorem validateHeaderChecked_eq_iff (crc32 : Bytes → UInt32) (maxPayload : Nat) (checkCrc : Bool)
    (data : Bytes) :
    validateHeaderChecked crc32 maxPayload checkCrc data =
        validateHeader crc32 maxPayload checkCrc data ↔
      ∀ payload, headerPayload crc32 maxPayload checkCrc data = .ok payload →
        PayloadPathsFit payload := by
  rw [validateHeader_eq_headerPayload, validateHeaderChecked]
  cases headerPayload crc32 maxPayload checkCrc data with
  | ok payload =>
      simp only [Outcome.ok_bind, Outcome.ok.injEq, forall_eq']
      exact (operandPassChecked_panicsUnless payload).eq_iff (operandPass_sat payload).ne_panic
  | err e => simp
  | panic => simp

/-- Four more levels below an operand leave room for its number only when it is zero. -/
theorem PathsFit.eq_zero {idx : Nat} {path : List Nat} {target : Bytes} (h : PathsFit idx data)
    (hpath : OperandPath data path target) (hdepth : 4 ≤ path.length) : idx = 0 := by
  by_contra hidx
  have hnumber := (pathNumber_ge path idx).trans_lt (h path target hpath)
  have hpow : 1000 ^ 4 ≤ 1000 ^ path.length := Nat.pow_le_pow_right (by decide) hdepth
  have hmul := Nat.mul_le_mul (Nat.one_le_iff_ne_zero.mpr hidx) hpow
  omega

open Isa.Frame in
/-- A frame around a payload. -/
def frameAround (payload : Bytes) : Bytes :=
  Header.bytes Crc32.ieee
    { version := isaVersion.toNat
      flags := 0
      messageId := List.replicate 16 0
      correlationId := List.replicate 16 0
      deadlineMs := 0
      payloadLen := payload.length
      messageId_length := zeroId_length
      correlationId_length := zeroId_length } ++ payload

/-- One operand: five nulls and a list in a list in a list, in a list. -/
def nestedLists : Bytes :=
  [AiclOpcode.nop.toU8, 1, 0x17, 6, 0x19, 0x19, 0x19, 0x19, 0x19, 0x17, 1, 0x17, 1, 0x17, 1, 0x19]

/-- The release build accepts the nested lists, the build with overflow checks panics. -/
theorem nestedLists_overflow :
    ¬ ∀ data, validateHeaderChecked Crc32.ieee maxPayloadSize true data =
      validateHeader Crc32.ieee maxPayloadSize true data := by
  intro h
  have haccepts : (validateHeader Crc32.ieee maxPayloadSize true
      (frameAround nestedLists)).isOk = true := by decide +kernel
  have hpanics : (validateHeaderChecked Crc32.ieee maxPayloadSize true
      (frameAround nestedLists)).isOk = false := by decide +kernel
  rw [h, haccepts] at hpanics
  exact Bool.noConfusion hpanics

end Aicl.CoreRust
