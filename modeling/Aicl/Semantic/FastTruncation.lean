import Aicl.Bin.PacketSizes
import Aicl.Semantic.FastActionCodec

/-!
# Fast frames that are cut off

Slices do not notice that a buffer ends early.  The decoders of both fast codecs do: on
every proper prefix of a frame they raise.  {lit}`FastActionDecoder` does so as long as
the session identifier has the sixteen bytes of its field, which the constructor of
{lit}`FastActionEncoder` does not check.

Main results:

- Theorem {lit}`truncation_detected_iff`: which frames are reported when they are cut
  off.
- Theorem {lit}`FastAction.forall_detectsCuts_iff`: the widths of a session identifier.
-/

namespace Aicl.Semantic

open Bin (getSlice)
open Outcome (Remains ReadsBack cutOff_of_prefix)

/-- Every proper prefix of a frame makes a decoder raise. -/
def DetectsTruncation (decode : Bytes → SemResult DecodedAction) (w : Bytes) : Prop :=
  ∀ c, c <+: w → c ≠ w → ∃ e, decode c = .err e

/-- A shorter prefix that is accepted is not reported. -/
theorem not_detectsTruncation {decode : Bytes → SemResult DecodedAction} {w : Bytes} {n : Nat}
    (hlength : n < w.length) (hdecodes : ∃ decoded, decode (w.take n) = .ok decoded) :
    ¬ DetectsTruncation decode w := by
  intro hdetects
  have hne : w.take n ≠ w := by
    intro heq
    have hshort := congrArg List.length heq
    rw [List.length_take] at hshort
    omega
  have ⟨e, he⟩ := hdetects (w.take n) (List.take_prefix n w) hne
  have ⟨decoded, hdecoded⟩ := hdecodes
  rw [hdecoded] at he
  cases he

/-- The frame of an action that the fast codec encodes. -/
theorem FastCodec.detectsTruncation {lib : FastLibrary} (hlib : lib.RejectsCuts)
    {sessionId : UuidBytes} {action : ModelAction} {w : Bytes}
    (hw : encodeAction lib sessionId action = .ok w) :
    DetectsTruncation (decodeAction lib) w := by
  intro c hprefix hne
  have ⟨frame, hframe⟩ := encodeAction_eq_ok hw
  have hcut := cutOff_of_prefix hprefix hne
  rw [hframe] at hcut
  exact (decodeAction_raises_of_cutOff hlib frame hcut).exists_err

namespace FastAction

/-- Every proper prefix of a frame of an encoder makes the decoder raise, for actions
whose correlation identifier is empty or has 32 digits. -/
def FastActionEncoder.DetectsCuts (lib : FastLibrary) (encoder : FastActionEncoder) : Prop :=
  ∀ (action : ModelAction) (counter : Nat) (w : Bytes),
    (action.correlationId.length = 0 ∨ (idDigits action.correlationId).length = 32) →
      (encoder.encode lib action counter).1 = .ok w → DetectsTruncation (decode lib) w

/-- An encoder whose session identifier has the width of its field. -/
theorem detectsCuts_of_length {lib : FastLibrary} (hlib : lib.RejectsCuts)
    {encoder : FastActionEncoder} (hsession : encoder.sessionId.length = 16) :
    encoder.DetectsCuts lib := by
  intro action counter w hid hw c hprefix hne
  have ⟨frame, hframe⟩ := encode_eq_ok hw
  have hcorrelation := (correlationField_length_iff frame.correlationId_eq).mpr hid
  have hcut := cutOff_of_prefix hprefix hne
  rw [hframe] at hcut
  exact (decode_raises_of_cutOff hlib frame hsession hcorrelation hcut).exists_err

/-! ## Session identifiers of another width -/

section Widths

variable {lib : FastLibrary}

/-- A request to generate from nothing, for a target of zeros. -/
def zeroTargetAction (n : Nat) : ModelAction where
  intent := .generate
  target := ⟨List.replicate n 0, Utf8.valid_of_ascii fun b hb => by
    rw [(List.mem_replicate.mp hb).2]
    decide⟩
  inputs_nodupKeys := noEntries_nodupKeys
  params_nodupKeys := noEntries_nodupKeys
  result_nodupKeys := noEntries_nodupKeys
  metadata_nodupKeys := noEntries_nodupKeys

/-- An encoder whose session identifier consists of zeros. -/
def zeroSessionEncoder (n : Nat) : FastActionEncoder where
  origin := .ofAscii "model"
  sessionId := List.replicate n 0

/-- The head of such a request. -/
def zeroHead : Bytes := headOf .generate [0x01, 0x00, 0x00, 0x00]

/-- The frame of such a request. -/
def zeroFrame (n target counter : Nat) : Bytes :=
  zeroHead ++ (List.replicate n 0 ++
    ((List.replicate 8 0 ++ (BigEndian.toBytes 8 (counter + 1)).reverse) ++
      (List.replicate 16 0 ++ ((BigEndian.toBytes 2 target ++ List.replicate target 0) ++
        ([0, 0] ++ ([] ++ ([] ++ ([0, 0, 0, 0] ++ ([0xE8, 0x03] ++ [])))))))))

/-- A number that fits its field is packed. -/
theorem packWord_of_lt {w n : Nat} (h : n < 256 ^ w) :
    liftBin (Bin.pack [((false, w), (n : Int))]) = .ok (BigEndian.toBytes w n) := by
  have hrange : Bin.InRange false w (n : Int) := ⟨Int.natCast_nonneg n, Int.ofNat_lt.mpr h⟩
  have hmod : ((n : Int) % (256 ^ w : Nat)).toNat = n := by
    rw [Int.emod_eq_of_lt hrange.1 hrange.2, Int.toNat_natCast]
  simp only [Bin.pack, Bin.packInt_of_inRange hrange, hmod, Outcome.ok_bind, Outcome.pure_eq,
    List.append_nil, liftBin]

/-- The same in little-endian order. -/
theorem packLittle_of_lt {w n : Nat} (h : n < 256 ^ w) :
    packLittle w (n : Int) = .ok (BigEndian.toBytes w n).reverse := by
  rw [packLittle, packWord_of_lt h]
  rfl

/-- The head of such a request has these flags. -/
theorem packLittle_zeroFlags (target : Nat) :
    packLittle 4 (flagsOf (zeroTargetAction target)) = .ok [0x01, 0x00, 0x00, 0x00] :=
  @packLittle_of_lt 4 1 (by decide)

/-- The target of such a request. -/
theorem encodeStr16_zeroTarget {target : Nat} (h : target < 2 ^ 16) :
    encodeStr16 (zeroTargetAction target).target =
      .ok (BigEndian.toBytes 2 target ++ List.replicate target 0) := by
  have hlength : (zeroTargetAction target).target.length = target := List.length_replicate
  unfold encodeStr16
  rw [hlength, Bin.fmtH, packWord_of_lt h]
  rfl

/-- The sections of such a request. -/
theorem encodeSections_zeroTarget (hone : lib.toThousandths 0x3FF0000000000000 = .ok 1000)
    {target : Nat} (h : target < 2 ^ 16) :
    encodeSections lib (zeroTargetAction target) =
      .ok ((BigEndian.toBytes 2 target ++ List.replicate target 0) ++ ([0, 0] ++ ([] ++ ([] ++
        ([0, 0, 0, 0] ++ ([0xE8, 0x03] ++ [])))))) := by
  have hinputs : encodeJsonSmall lib (zeroTargetAction target).inputs = .ok [0, 0] := rfl
  have hparams : encodeJsonSection lib (zeroTargetAction target).params = .ok [] := rfl
  have hresult : encodeJsonSection lib (zeroTargetAction target).result = .ok [] := rfl
  have hmetadata : encodeJsonSection lib (zeroTargetAction target).metadata = .ok [] := rfl
  have hdeadline : packLittle 4 (maskDeadline (zeroTargetAction target).deadlineMs) =
      .ok [0, 0, 0, 0] :=
    @packLittle_of_lt 4 0 (by decide)
  have hconfInt : confidenceInt lib (zeroTargetAction target).confidence = .ok 1000 := by
    change (lib.toThousandths 0x3FF0000000000000 >>= fun n => pure (min n 65535)) = _
    rw [hone]
    rfl
  have hconfidence : packLittle 2 1000 = .ok [0xE8, 0x03] := @packLittle_of_lt 2 1000 (by decide)
  unfold encodeSections
  rw [encodeStr16_zeroTarget h, hinputs, hparams, hresult, hmetadata, hdeadline, hconfInt]
  simp only [Outcome.ok_bind, hconfidence, Outcome.pure_eq]

/-- It is what the encoder returns. -/
theorem encode_zeroTarget (hone : lib.toThousandths 0x3FF0000000000000 = .ok 1000)
    {n target counter : Nat} (htarget : target < 2 ^ 16) (hcounter : counter + 1 < 2 ^ 64) :
    ((zeroSessionEncoder n).encode lib (zeroTargetAction target) counter).1 =
      .ok (zeroFrame n target counter) := by
  have hid : (makeMessageId counter).1 =
      .ok ⟨List.replicate 8 0 ++ (BigEndian.toBytes 8 (counter + 1)).reverse,
        messageId_length (counter + 1)⟩ :=
    if_pos hcounter
  have hcorrelation : correlationField (zeroTargetAction target).correlationId =
      .ok (List.replicate 16 0) := rfl
  unfold FastActionEncoder.encode
  dsimp only
  rw [hid, packLittle_zeroFlags, hcorrelation, encodeSections_zeroTarget hone htarget]
  simp only [Outcome.ok_bind, Outcome.pure_eq]
  rfl

/-- Sections without a target and inputs are read from zeros. -/
theorem decodeSections_of_zeros {data deadline confidence rest : Bytes} {pos : Nat}
    (correlationId : Utf8String) (hdeadline : deadline.length = 4)
    (hconfidence : confidence.length = 2)
    (hat : Remains data pos ([0, 0] ++ ([0, 0] ++ (deadline ++ (confidence ++ rest))))) :
    ∃ decoded, decodeSections lib .generate 1 correlationId data pos = .ok decoded := by
  have htarget : encodeStr16 .empty = .ok [0, 0] := @encodeStr16_zeroTarget 0 (by decide)
  have hinputs : ReadsBack (decodeJsonSmall lib) (.dict []) [0, 0] := by
    intro data pos rest hat
    rw [decodeJsonSmall_of_length packLength_zero hat, if_pos rfl]
    rfl
  unfold decodeSections
  rw [(decodeStr16_readsBack htarget).step hat]
  dsimp only
  rw [hinputs.step hat.advance]
  have hdeadlineAt := hat.advance.advance
  change ∃ decoded, (readLittle 4 data _ >>= fun r => readLittle 2 data r.2 >>= fun r => _) =
    .ok decoded
  rw [(readNumber_readsBack _ hdeadline).step hdeadlineAt]
  dsimp only
  rw [(readNumber_readsBack _ hconfidence).step hdeadlineAt.advance]
  exact ⟨_, rfl⟩

/-- Sixty-four bytes are accepted when the lengths of target and inputs are zero. -/
theorem decode_of_zeros {data : Bytes} (hhead : data.take 6 = zeroHead)
    (hzero : (data.drop 54).take 4 = [0, 0, 0, 0]) (hlength : data.length = 64) :
    ∃ decoded, decode lib data = .ok decoded := by
  have hat : Remains data 0 (zeroHead ++ data.drop 6) := by
    rw [← hhead, List.take_append_drop]
    exact Remains.start data
  have hrest : data.drop 54 =
      [0, 0] ++ ([0, 0] ++ ((data.drop 58).take 4 ++ ((data.drop 58).drop 4 ++ []))) := by
    rw [List.append_nil, List.take_append_drop, ← List.append_assoc]
    change data.drop 54 = [0, 0, 0, 0] ++ data.drop (54 + 4)
    rw [← hzero, ← List.drop_drop, List.take_append_drop]
  have hdeadline : ((data.drop 58).take 4).length = 4 := by
    rw [List.length_take, List.length_drop, hlength]
    rfl
  have hconfidence : ((data.drop 58).drop 4).length = 2 := by
    rw [List.length_drop, List.length_drop, hlength]
  have hsections : Remains data 54 _ := ⟨by omega, hrest⟩
  rw [decode_of_head (packLittle_zeroFlags 0) hat]
  exact decodeSections_of_zeros _ hdeadline hconfidence hsections

/-- A frame is accepted without its last byte or bytes when the lengths of target and
inputs are read as zeros. -/
theorem not_detectsCuts_of_zeros (hone : lib.toThousandths 0x3FF0000000000000 = .ok 1000)
    {n target counter : Nat} (htarget : target < 2 ^ 16) (hcounter : counter + 1 < 2 ^ 64)
    (hzero : ((zeroFrame n target counter).drop 54).take 4 = [0, 0, 0, 0])
    (hlength : 64 < (zeroFrame n target counter).length) :
    ¬ (zeroSessionEncoder n).DetectsCuts lib := by
  intro hdetects
  have hw := @encode_zeroTarget lib hone n target counter htarget hcounter
  apply not_detectsTruncation hlength _ (hdetects (zeroTargetAction target) counter _ (.inl rfl) hw)
  apply decode_of_zeros
  · rw [List.take_take]
    rfl
  · rw [List.drop_take, List.take_take]
    exact hzero
  · rw [List.length_take]
    omega

/-- A target that fills the gap of a short session identifier. -/
def gapTarget (n : Nat) : Nat := if n < 16 then 256 else 0

/-- A counter whose bytes lie outside the lengths. -/
def farCounter (n : Nat) : Nat := if n < 40 then 0 else 256 ^ 7 - 1

/-- With another width of the session identifier, the lengths are read as zeros. -/
theorem zeroFrame_lengths {n : Nat} (hpos : 0 < n) (hne : n ≠ 16) :
    ((zeroFrame n (gapTarget n) (farCounter n)).drop 54).take 4 = [0, 0, 0, 0] ∧
      64 < (zeroFrame n (gapTarget n) (farCounter n)).length := by
  by_cases hsmall : n < 52
  · have hall : ∀ n : Fin 52, 0 < n.val → n.val ≠ 16 →
        ((zeroFrame n.val (gapTarget n.val) (farCounter n.val)).drop 54).take 4 = [0, 0, 0, 0] ∧
          64 < (zeroFrame n.val (gapTarget n.val) (farCounter n.val)).length := by
      decide +kernel
    exact hall ⟨n, hsmall⟩ hpos hne
  · have ⟨k, hk⟩ := Nat.exists_eq_add_of_le (Nat.not_lt.mp hsmall)
    constructor
    · rw [zeroFrame, hk, List.replicate_add]
      rfl
    · simp only [zeroFrame, List.length_append, List.length_replicate]
      have hhead : zeroHead.length = 6 := rfl
      omega

/-- Encoders with a session identifier of one width report every cut exactly when it is
the width of the field. -/
theorem forall_detectsCuts_iff (hlib : lib.RejectsCuts)
    (hone : lib.toThousandths 0x3FF0000000000000 = .ok 1000) {n : Nat} (hpos : 0 < n) :
    (∀ encoder : FastActionEncoder, encoder.sessionId.length = n → encoder.DetectsCuts lib) ↔
      n = 16 := by
  constructor
  · intro hall
    by_contra hne
    have ⟨hzero, hlength⟩ := zeroFrame_lengths hpos hne
    have htarget : gapTarget n < 2 ^ 16 := by
      unfold gapTarget
      split <;> decide
    have hcounter : farCounter n + 1 < 2 ^ 64 := by
      unfold farCounter
      split <;> decide
    exact not_detectsCuts_of_zeros hone htarget hcounter hzero hlength
      (hall (zeroSessionEncoder n) List.length_replicate)
  · intro hn encoder hlength
    exact detectsCuts_of_length hlib (hlength.trans hn)

end Widths

/-- A session identifier that is not empty is kept. -/
theorem init_given (origin : Utf8String) {sessionId : Bytes} (hne : sessionId ≠ []) (created : Nat) :
    FastActionEncoder.init origin (some sessionId) created = (.ok { origin, sessionId }, created) := by
  have hgiven : ¬ (((some sessionId).getD []).isEmpty = true) := by simpa using hne
  exact if_neg hgiven

end FastAction

/-! ## Which cuts are reported -/

/-- The fast codec reports every frame that is cut off.  So does the fast action codec
with the default session identifier, and with identifiers of one length exactly when the
length is sixteen. -/
theorem truncation_detected_iff {lib : FastLibrary} (hlib : lib.RejectsCuts)
    (hone : lib.toThousandths 0x3FF0000000000000 = .ok 1000) :
    (∀ (sessionId : UuidBytes) (action : ModelAction) (w : Bytes),
      FastCodec.encodeAction lib sessionId action = .ok w →
        DetectsTruncation (FastCodec.decodeAction lib) w) ∧
    (∀ (origin : Utf8String) (created : Nat) (encoder : FastAction.FastActionEncoder),
      (FastAction.FastActionEncoder.init origin none created).1 = .ok encoder →
        encoder.DetectsCuts lib) ∧
    ∀ n, 0 < n →
      ((∀ (origin : Utf8String) (sessionId : Bytes) (created : Nat)
          (encoder : FastAction.FastActionEncoder), sessionId.length = n →
            (FastAction.FastActionEncoder.init origin (some sessionId) created).1 = .ok encoder →
              encoder.DetectsCuts lib) ↔ n = 16) := by
  refine ⟨fun _ _ _ hw => FastCodec.detectsTruncation hlib hw, ?_, ?_⟩
  · intro origin created encoder hinit
    exact FastAction.detectsCuts_of_length hlib (FastAction.init_sessionId_length hinit)
  · intro n hpos
    rw [← FastAction.forall_detectsCuts_iff hlib hone hpos]
    constructor
    · intro hall encoder hlength
      have hinit := FastAction.init_given encoder.origin
        (List.length_pos_iff.mp (hlength ▸ hpos)) 0
      exact hall encoder.origin encoder.sessionId 0 encoder hlength (congrArg Prod.fst hinit)
    · intro hall origin sessionId created encoder hlength hinit
      rw [FastAction.init_given origin (List.length_pos_iff.mp (hlength ▸ hpos))] at hinit
      apply hall encoder
      rw [← Outcome.ok.inj hinit]
      exact hlength

/-- Both frames of a request to generate. -/
theorem truncation_detected_generate :
    ∃ w w', FastCodec.encodeAction FastCodec.textLibrary zeroUuid generateAction = .ok w ∧
      (FastAction.firstEncoder.encode FastCodec.textLibrary generateAction 1).1 = .ok w' ∧
        DetectsTruncation (FastCodec.decodeAction FastCodec.textLibrary) w ∧
          DetectsTruncation (FastAction.decode FastCodec.textLibrary) w' := by
  have hok : (FastCodec.encodeAction FastCodec.textLibrary zeroUuid generateAction).isOk = true := by
    decide +kernel
  have hok' : (FastAction.firstEncoder.encode FastCodec.textLibrary generateAction 1).1.isOk =
      true := by
    decide +kernel
  have ⟨w, hw⟩ := Outcome.isOk_iff.mp hok
  have ⟨w', hw'⟩ := Outcome.isOk_iff.mp hok'
  have ⟨hcodec, hdefault, _⟩ := truncation_detected_iff FastCodec.textLibrary_rejectsCuts rfl
  have hencoder := hdefault _ 0 _ FastAction.init_firstEncoder
  exact ⟨w, w', hw, hw', hcodec zeroUuid generateAction w hw,
    hencoder generateAction 1 w' (.inl rfl) hw'⟩

/-- After a session identifier of seventeen bytes, a frame is accepted without its last
byte. -/
theorem truncation_longSession :
    (FastAction.FastActionEncoder.init (.ofAscii "model") (some (List.replicate 17 0)) 0).1 =
        .ok (FastAction.zeroSessionEncoder 17) ∧
      (FastAction.zeroTargetAction 0).IsJson ∧
      ∃ w, ((FastAction.zeroSessionEncoder 17).encode FastCodec.textLibrary
          (FastAction.zeroTargetAction 0) 0).1 = .ok w ∧ w.length = 65 ∧
        (∃ decoded, FastAction.decode FastCodec.textLibrary (w.take 64) = .ok decoded) ∧
          ¬ DetectsTruncation (FastAction.decode FastCodec.textLibrary) w := by
  have hempty : (Value.ofEntries []).IsJson := ⟨List.nodup_nil, trivial⟩
  have hok : (((FastAction.zeroSessionEncoder 17).encode FastCodec.textLibrary
      (FastAction.zeroTargetAction 0) 0).1 >>= fun w =>
        pure (w.length, (FastAction.decode FastCodec.textLibrary (w.take 64)).isOk)) =
          .ok (65, true) := by
    decide +kernel
  have ⟨w, hw, hvalues⟩ := Outcome.bind_eq_ok_iff.mp hok
  have ⟨hlength, hdecodes⟩ := Prod.mk.inj (Outcome.ok.inj hvalues)
  have ⟨decoded, hdecoded⟩ := Outcome.isOk_iff.mp hdecodes
  refine ⟨rfl, ⟨hempty, hempty, hempty, hempty⟩, w, hw, hlength, ⟨decoded, hdecoded⟩, ?_⟩
  exact not_detectsTruncation (by omega) ⟨decoded, hdecoded⟩

end Aicl.Semantic
