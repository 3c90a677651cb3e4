import Aicl.Foundation.ReaderErrors
import Aicl.Semantic.FastCodec

/-!
# The fast action codec

{lit}`FastActionEncoder` and {lit}`FastActionDecoder` of
{lit}`aicl/semantic/fast_action_codec.py`: an action in one frame without a packet.
The counter of the module is passed from call to call.

Main results:

- Theorem {lit}`FastAction.decode_bytes`: what is read back when the correlation field
  has its width.
- Theorem {lit}`FastAction.framing_iff`: when the frame of an action has its form.
- Theorem {lit}`FastAction.decode_raises_of_cutOff`: a frame that is cut off is
  reported.
-/

namespace Aicl.Semantic

open Bin (getSlice pack fmtI fmtH hexLower)
open Outcome (Remains ReadsBack ReadsThrough CutOff DetectsCut OverrunsCut StartsInside Raises)

namespace FastAction

/-! ## Constants -/

/-- {lit}`_VERSION`. -/
def version : UInt8 := 0x02

/-- {lit}`_INTENT_TO_BYTE`; every intent has one, so that the default of {lit}`get` is
not used. -/
def intentToByte : ModelIntent → UInt8
  | .classify => 0x43
  | .generate => 0x46
  | .reason => 0x44
  | .embed => 0x42
  | .rank => 0x47
  | .summarize => 0x48
  | .synthesize => 0x49
  | .verify => 0x4A
  | .extract => 0x4B
  | .transform => 0x4C
  | .plan => 0x4D
  | .evaluate => 0x4E
  | .callModel => 0x40
  | .callTool => 0x41
  | .readMemory => 0x20
  | .writeMemory => 0x21
  | .deleteMemory => 0x22
  | .indexQuery => 0x23
  | .indexUpsert => 0x24
  | .route => 0x03
  | .filter => 0x04
  | .returnResult => 0x11
  | .streamResult => 0x12
  | .cancel => 0x09

/-- {lit}`_BYTE_TO_INTENT`. -/
def byteToIntent (byte : UInt8) : Option ModelIntent := ModelIntent.ofByte? intentToByte byte

/-- {lit}`_FLAG_REQUEST`. -/
def flagRequest : Nat := 0x0001

/-- {lit}`_FLAG_STREAM`. -/
def flagStream : Nat := 0x0004

/-- {lit}`_FLAG_CANCEL`. -/
def flagCancel : Nat := 0x0020

/-- {lit}`_FLAG_HAS_PARAMS`. -/
def flagHasParams : Nat := 0x0100

/-- {lit}`_FLAG_HAS_RESULT`. -/
def flagHasResult : Nat := 0x0200

/-- {lit}`_FLAG_HAS_METADATA`. -/
def flagHasMetadata : Nat := 0x0400

/-- The flags that are built up bit by bit. -/
def setFlags (stream cancel params result metadata : Bool) : Nat :=
  let flags := flagRequest
  let flags := if stream then flags ||| flagStream else flags
  let flags := if cancel then flags ||| flagCancel else flags
  let flags := if params then flags ||| flagHasParams else flags
  let flags := if result then flags ||| flagHasResult else flags
  if metadata then flags ||| flagHasMetadata else flags

/-- The flags of an action. -/
def flagsOf (action : ModelAction) : Nat :=
  setFlags action.stream action.cancel (!action.params.isEmpty) (!action.result.isEmpty)
    (!action.metadata.isEmpty)

/-- {lit}`bool(flags & bit)`. -/
def hasFlag (flags bit : Nat) : Bool := flags &&& bit ≠ 0

/-! ## Little-endian numbers -/

/-- {lit}`struct.pack` of one unsigned little-endian number. -/
def packLittle (w : Nat) (v : Int) : SemResult Bytes := do
  let raw ← liftBin (pack [((false, w), v)])
  pure raw.reverse

/-- An unsigned little-endian number. -/
abbrev readLittle (w : Nat) : Bytes → Nat → SemResult (Nat × Nat) :=
  readNumber (fun raw => BigEndian.ofBytes raw.reverse) w

/-! ## Message identifiers -/

/-- The bytes of a message identifier. -/
theorem messageId_length (n : Nat) :
    (List.replicate 8 0 ++ (BigEndian.toBytes 8 n).reverse).length = 16 := by
  simp

/-- {lit}`_make_message_id`, with the counter it leaves. -/
def makeMessageId (counter : Nat) : SemResult UuidBytes × Nat :=
  let n := counter + 1
  (if n < 2 ^ 64 then
    pure ⟨List.replicate 8 0 ++ (BigEndian.toBytes 8 n).reverse, messageId_length n⟩
  else .err (.builtin "OverflowError"), n)

/-! ## Correlation identifiers -/

/-- The correlation field of a text. -/
def correlationField (correlationId : Utf8String) : SemResult Bytes :=
  if correlationId.length = 0 then pure (List.replicate 16 0)
  else
    match Hex.parse (correlationId.bytes.filter (· ≠ 0x2D)) with
    | some bytes => pure bytes
    | none => .err (.builtin "ValueError")

/-- The correlation identifier of a frame: no text for zeros. -/
def readCorrelation (data : Bytes) (pos : Nat) : SemResult (Utf8String × Nat) :=
  let corrBytes := getSlice data pos (pos + 16)
  pure (if corrBytes = List.replicate 16 0 then .empty else hexText corrBytes, pos + 16)

/-! ## The encoder -/

/-- {lit}`FastActionEncoder`. -/
structure FastActionEncoder where
  origin : Utf8String
  sessionId : Bytes

/-- {lit}`__init__`: a session identifier that is missing or empty is made. -/
def FastActionEncoder.init (origin : Utf8String) (sessionId : Option Bytes) (counter : Nat) :
    SemResult FastActionEncoder × Nat :=
  let given := sessionId.getD []
  if given.isEmpty then
    let (id, counter) := makeMessageId counter
    (do
      let id ← id
      pure { origin, sessionId := id.val }, counter)
  else (pure { origin, sessionId := given }, counter)

/-- What {lit}`encode` appends after the correlation identifier. -/
def encodeSections (lib : FastLibrary) (action : ModelAction) : SemResult Bytes := do
  let target ← encodeStr16 action.target
  let inputs ← encodeJsonSmall lib action.inputs
  let params ← encodeJsonSection lib action.params
  let result ← encodeJsonSection lib action.result
  let deadline ← packLittle 4 (maskDeadline action.deadlineMs)
  let confInt ← confidenceInt lib action.confidence
  let confidence ← packLittle 2 confInt
  let metadata ← encodeJsonSection lib action.metadata
  pure (target ++ (inputs ++ (params ++ (result ++ (deadline ++ (confidence ++ metadata))))))

/-- {lit}`encode`, with the counter it leaves. -/
def FastActionEncoder.encode (encoder : FastActionEncoder) (lib : FastLibrary)
    (action : ModelAction) (counter : Nat) : SemResult Bytes × Nat :=
  let (messageId, counter) := makeMessageId counter
  (do
    let flags ← packLittle 4 (flagsOf action)
    let head := version :: intentToByte action.intent :: flags
    let messageId ← messageId
    let correlationId ← correlationField action.correlationId
    let sections ← encodeSections lib action
    pure (head ++ (encoder.sessionId ++ (messageId.val ++ (correlationId ++ sections)))), counter)

/-! ## The decoder -/

/-- What {lit}`decode` reads after the correlation identifier. -/
def decodeSections (lib : FastLibrary) (intent : ModelIntent) (flags : Nat)
    (correlationId : Utf8String) (data : Bytes) (pos : Nat) : SemResult DecodedAction := do
  let (target, pos) ← decodeStr16 data pos
  let (inputs, pos) ← decodeJsonSmall lib data pos
  let (params, pos) ← decodeJsonSection lib (hasFlag flags flagHasParams) data pos
  let (result, pos) ← decodeJsonSection lib (hasFlag flags flagHasResult) data pos
  let (deadlineMs, pos) ← readLittle 4 data pos
  let (confInt, pos) ← readLittle 2 data pos
  let (metadata, _) ← decodeJsonSection lib (hasFlag flags flagHasMetadata) data pos
  pure
    { intent
      target
      inputs
      params
      result
      confidence := lib.ofThousandths confInt
      stream := hasFlag flags flagStream
      cancel := hasFlag flags flagCancel
      correlationId
      deadlineMs
      metadata }

/-- {lit}`FastActionDecoder.decode`. -/
def decode (lib : FastLibrary) (data : Bytes) : SemResult DecodedAction := do
  let (head, pos) ← readField 6 data 0
  let version := head.getD 0 0
  let intentByte := head.getD 1 0
  let flags := BigEndian.ofBytes (head.drop 2).reverse
  if version ≠ FastAction.version then
    .err (.semanticError s!"Unknown fast codec version: {version.toNat}")
  else
    match byteToIntent intentByte with
    | none => .err (.semanticError s!"Unknown intent byte: 0x{hexLower 2 intentByte.toNat}")
    | some intent => do
        let ((), pos) ← skip 16 data pos
        let ((), pos) ← skip 16 data pos
        let (correlationId, pos) ← readCorrelation data pos
        decodeSections lib intent flags correlationId data pos

/-! ## Reading little-endian numbers -/

section Little

variable {w n : Nat} {b : Bytes}

/-- A packed number is not negative, and its bytes spell it backwards. -/
theorem packLittle_eq_ok {v : Int} (h : packLittle w v = .ok b) :
    b.length = w ∧ (BigEndian.ofBytes b.reverse : Int) = v := by
  have ⟨raw, hraw, hb⟩ := Outcome.bind_eq_ok_iff.mp h
  rw [← Outcome.ok.inj hb, List.length_reverse, List.reverse_reverse]
  exact packWord_eq_ok hraw

/-- A packed number is read back. -/
theorem readLittle_readsBack_packed (h : packLittle w (n : Int) = .ok b) :
    ReadsBack (readLittle w) n b := by
  have ⟨hlength, hvalue⟩ := packLittle_eq_ok h
  rw [← Int.ofNat_inj.mp hvalue]
  exact readNumber_readsBack _ hlength

end Little

/-! ## Reading correlation identifiers -/

section Correlation

variable {b : Bytes}

/-- The text of a correlation field. -/
def correlationText (b : Bytes) : Utf8String :=
  if b = List.replicate 16 0 then .empty else hexText b

/-- A correlation field of sixteen bytes is read back as its text. -/
theorem readCorrelation_readsBack (hb : b.length = 16) :
    ReadsBack readCorrelation (correlationText b) b := by
  intro data pos rest hat
  have hslice := getSlice_of_remains hat
  rw [hb] at hslice
  unfold readCorrelation
  dsimp only
  rw [hslice, hb]
  rfl

/-- A correlation field that is cut off is passed over. -/
theorem readCorrelation_overrunsCut (hb : b.length = 16) : OverrunsCut readCorrelation b := by
  intro data pos c hat hc
  have hlen := hat.length
  have hlt := hc.length_lt
  show data.length < pos + 16
  omega

end Correlation

/-! ## Heads -/

/-- The table of bytes is inverted. -/
theorem byteToIntent_intentToByte (intent : ModelIntent) :
    byteToIntent (intentToByte intent) = some intent := by
  cases intent <;> rfl

/-- The bits of the flags, which fit four bytes. -/
theorem hasFlag_setFlags (stream cancel params result metadata : Bool) :
    let flags := setFlags stream cancel params result metadata
    hasFlag flags flagStream = stream ∧ hasFlag flags flagCancel = cancel ∧
      hasFlag flags flagHasParams = params ∧ hasFlag flags flagHasResult = result ∧
        hasFlag flags flagHasMetadata = metadata ∧ flags < 2 ^ 32 := by
  revert stream cancel params result metadata
  decide

/-- The head of a frame. -/
def headOf (intent : ModelIntent) (flags : Bytes) : Bytes := version :: intentToByte intent :: flags

section Heads

variable {lib : FastLibrary} {action : ModelAction} {flags rest data : Bytes}

/-- The head of a frame is read back. -/
theorem readHead_readsBack (h : packLittle 4 (flagsOf action) = .ok flags) :
    ReadsBack (readField 6) (headOf action.intent flags) (headOf action.intent flags) := by
  have ⟨hlength, _⟩ := packLittle_eq_ok h
  apply readField_readsBack
  rw [headOf, List.length_cons, List.length_cons, hlength]

/-- After a head, the identifiers and the sections are read. -/
theorem decode_of_head (h : packLittle 4 (flagsOf action) = .ok flags)
    (hat : Remains data 0 (headOf action.intent flags ++ rest)) :
    decode lib data =
      skip 16 data (headOf action.intent flags).length >>= fun r =>
        skip 16 data r.2 >>= fun r =>
          readCorrelation data r.2 >>= fun r =>
            decodeSections lib action.intent (flagsOf action) r.1 data r.2 := by
  have ⟨_, hvalue⟩ := packLittle_eq_ok h
  have hflags : BigEndian.ofBytes ((headOf action.intent flags).drop 2).reverse = flagsOf action :=
    Int.ofNat_inj.mp hvalue
  unfold decode
  rw [(readHead_readsBack h).step hat]
  dsimp only
  rw [hflags, headOf]
  simp only [List.getD_cons_zero, List.getD_cons_succ, byteToIntent_intentToByte]
  rw [if_neg (not_not_intro rfl), Nat.zero_add]

end Heads

/-! ## Sections -/

section Sections

variable {lib : FastLibrary} {action : ModelAction}

/-- The sections of an action. -/
structure Sections (lib : FastLibrary) (action : ModelAction) where
  target : Bytes
  inputs : Bytes
  params : Bytes
  result : Bytes
  deadline : Bytes
  confidence : Bytes
  metadata : Bytes
  target_eq : encodeStr16 action.target = .ok target
  inputs_eq : encodeJsonSmall lib action.inputs = .ok inputs
  params_eq : encodeJsonSection lib action.params = .ok params
  result_eq : encodeJsonSection lib action.result = .ok result
  deadline_eq : packLittle 4 (maskDeadline action.deadlineMs) = .ok deadline
  confidence_length : confidence.length = 2
  metadata_eq : encodeJsonSection lib action.metadata = .ok metadata

/-- Their bytes. -/
def Sections.bytes (sections : Sections lib action) : Bytes :=
  sections.target ++ (sections.inputs ++ (sections.params ++ (sections.result ++
    (sections.deadline ++ (sections.confidence ++ sections.metadata)))))

/-- The action that is read back from sections. -/
def Sections.decoded (sections : Sections lib action) (correlationId : Utf8String) :
    DecodedAction where
  intent := action.intent
  target := action.target
  inputs := .ofEntries action.inputs
  params := .ofEntries action.params
  result := .ofEntries action.result
  confidence := lib.ofThousandths (BigEndian.ofBytes sections.confidence.reverse)
  stream := action.stream
  cancel := action.cancel
  correlationId
  deadlineMs := maskDeadline action.deadlineMs
  metadata := .ofEntries action.metadata

/-- What is encoded are sections. -/
theorem encodeSections_eq_ok {b : Bytes} (h : encodeSections lib action = .ok b) :
    ∃ sections : Sections lib action, b = sections.bytes := by
  have ⟨target, htarget, h⟩ := Outcome.bind_eq_ok_iff.mp h
  have ⟨inputs, hinputs, h⟩ := Outcome.bind_eq_ok_iff.mp h
  have ⟨params, hparams, h⟩ := Outcome.bind_eq_ok_iff.mp h
  have ⟨result, hresult, h⟩ := Outcome.bind_eq_ok_iff.mp h
  have ⟨deadline, hdeadline, h⟩ := Outcome.bind_eq_ok_iff.mp h
  have ⟨confInt, _, h⟩ := Outcome.bind_eq_ok_iff.mp h
  have ⟨confidence, hconfidence, h⟩ := Outcome.bind_eq_ok_iff.mp h
  have ⟨metadata, hmetadata, h⟩ := Outcome.bind_eq_ok_iff.mp h
  exact ⟨⟨target, inputs, params, result, deadline, confidence, metadata, htarget, hinputs,
    hparams, hresult, hdeadline, (packLittle_eq_ok hconfidence).1, hmetadata⟩,
    (Outcome.ok.inj h).symm⟩

/-- The sections are read back. -/
theorem decodeSections_of_remains {data : Bytes} {pos : Nat} (hlib : lib.InvertsJson)
    (hjson : action.IsJson) (sections : Sections lib action) (correlationId : Utf8String)
    (hat : Remains data pos sections.bytes) :
    decodeSections lib action.intent (flagsOf action) correlationId data pos =
      .ok (sections.decoded correlationId) := by
  have ⟨hstream, hcancel, hparams, hresult, hmetadata, _⟩ :=
    hasFlag_setFlags action.stream action.cancel (!action.params.isEmpty)
      (!action.result.isEmpty) (!action.metadata.isEmpty)
  unfold Sections.bytes at hat
  have hinputs := hat.advance
  have hparamsAt := hinputs.advance
  have hresultAt := hparamsAt.advance
  have hdeadline := hresultAt.advance
  have hconfidence := hdeadline.advance
  have hmetadataAt := hconfidence.advance
  rw [← List.append_nil sections.metadata] at hmetadataAt
  unfold decodeSections flagsOf
  rw [hstream, hcancel, hparams, hresult, hmetadata]
  rw [(decodeStr16_readsBack sections.target_eq).step hat]
  dsimp only
  rw [(decodeJsonSmall_readsBack hlib hjson.inputs sections.inputs_eq).step hinputs]
  dsimp only
  rw [(decodeJsonSection_readsBack hlib hjson.params sections.params_eq).step hparamsAt]
  dsimp only
  rw [(decodeJsonSection_readsBack hlib hjson.result sections.result_eq).step hresultAt]
  dsimp only
  rw [(readLittle_readsBack_packed sections.deadline_eq).step hdeadline]
  dsimp only
  rw [(readNumber_readsBack _ sections.confidence_length).step hconfidence]
  dsimp only
  rw [(decodeJsonSection_readsBack hlib hjson.metadata sections.metadata_eq).step hmetadataAt]
  rfl

/-- Sections that are cut off are reported: a cut in the target by what is read after it,
any other cut where it is. -/
theorem decodeSections_raises {data c : Bytes} {pos : Nat} (hlib : lib.RejectsCuts)
    (sections : Sections lib action) (correlationId : Utf8String) (hat : Remains data pos c)
    (hc : CutOff c sections.bytes) :
    Raises (decodeSections lib action.intent (flagsOf action) correlationId data pos) := by
  have ⟨_, _, hparams, hresult, hmetadata, _⟩ :=
    hasFlag_setFlags action.stream action.cancel (!action.params.isEmpty)
      (!action.result.isEmpty) (!action.metadata.isEmpty)
  have hdeadline := (packLittle_eq_ok sections.deadline_eq).1
  unfold decodeSections
  refine (decodeStr16_overrunsCut sections.target_eq).step
    (decodeStr16_readsBack sections.target_eq).readsThrough hat hc ?_ ?_
  · exact fun _ pos hpast => (decodeJsonSmall_startsInside lib).step hpast
  intro _ c _ hat hc
  refine (decodeJsonSmall_detectsCut hlib sections.inputs_eq).step
    (decodeJsonSmall_readsThrough sections.inputs_eq) hat hc ?_
  intro _ c _ hat hc
  unfold flagsOf
  dsimp only
  rw [hparams, hresult, hmetadata]
  refine (decodeJsonSection_detectsCut hlib sections.params_eq).step
    (decodeJsonSection_readsThrough sections.params_eq) hat hc ?_
  intro _ c _ hat hc
  refine (decodeJsonSection_detectsCut hlib sections.result_eq).step
    (decodeJsonSection_readsThrough sections.result_eq) hat hc ?_
  intro _ c _ hat hc
  refine (readNumber_detectsCut _ hdeadline).step
    (readNumber_readsBack _ hdeadline).readsThrough hat hc ?_
  intro _ c _ hat hc
  refine (readNumber_detectsCut _ sections.confidence_length).step
    (readNumber_readsBack _ sections.confidence_length).readsThrough hat hc ?_
  intro _ c _ hat hc
  exact (decodeJsonSection_detectsCut hlib sections.metadata_eq _ _ c hat hc).bind

end Sections

/-! ## Frames -/

section Frames

variable {lib : FastLibrary} {action : ModelAction} {sessionId : Bytes}

/-- The parts of the frame of an action. -/
structure Frame (lib : FastLibrary) (action : ModelAction) where
  flags : Bytes
  messageId : UuidBytes
  correlationId : Bytes
  sections : Sections lib action
  flags_eq : packLittle 4 (flagsOf action) = .ok flags
  correlationId_eq : correlationField action.correlationId = .ok correlationId
  sections_eq : encodeSections lib action = .ok sections.bytes

/-- The bytes of a frame. -/
def Frame.bytes (frame : Frame lib action) (sessionId : Bytes) : Bytes :=
  headOf action.intent frame.flags ++ (sessionId ++ (frame.messageId.val ++
    (frame.correlationId ++ frame.sections.bytes)))

/-- The head of a frame has six bytes. -/
theorem Frame.headOf_length (frame : Frame lib action) :
    (headOf action.intent frame.flags).length = 6 := by
  rw [headOf, List.length_cons, List.length_cons, (packLittle_eq_ok frame.flags_eq).1]

/-- What is encoded is a frame. -/
theorem encode_eq_ok {encoder : FastActionEncoder} {counter : Nat} {w : Bytes}
    (h : (encoder.encode lib action counter).1 = .ok w) :
    ∃ frame : Frame lib action, w = frame.bytes encoder.sessionId := by
  have ⟨flags, hflags, h⟩ := Outcome.bind_eq_ok_iff.mp h
  have ⟨messageId, _, h⟩ := Outcome.bind_eq_ok_iff.mp h
  have ⟨correlationId, hcorrelation, h⟩ := Outcome.bind_eq_ok_iff.mp h
  have ⟨b, hsections, h⟩ := Outcome.bind_eq_ok_iff.mp h
  have ⟨sections, hb⟩ := encodeSections_eq_ok hsections
  rw [hb] at hsections h
  exact ⟨⟨flags, messageId, correlationId, sections, hflags, hcorrelation, hsections⟩,
    (Outcome.ok.inj h).symm⟩

/-- A frame whose session identifier and correlation field have their width is read
back. -/
theorem decode_bytes (hlib : lib.InvertsJson) (hjson : action.IsJson) (frame : Frame lib action)
    (hsession : sessionId.length = 16) (hcorrelation : frame.correlationId.length = 16) :
    decode lib (frame.bytes sessionId) =
      .ok (frame.sections.decoded (correlationText frame.correlationId)) := by
  have hhead := Remains.start (frame.bytes sessionId)
  have hat := hhead.advance
  rw [Nat.zero_add] at hat
  rw [decode_of_head frame.flags_eq hhead, (skip_readsBack hsession).step hat,
    (skip_readsBack frame.messageId.property).step hat.advance,
    (readCorrelation_readsBack hcorrelation).step hat.advance.advance]
  exact decodeSections_of_remains hlib hjson frame.sections _ hat.advance.advance.advance

/-- Such a frame is reported when it is cut off. -/
theorem decode_raises_of_cutOff {c : Bytes} (hlib : lib.RejectsCuts) (frame : Frame lib action)
    (hsession : sessionId.length = 16) (hcorrelation : frame.correlationId.length = 16)
    (hc : CutOff c (frame.bytes sessionId)) : Raises (decode lib c) := by
  rcases hc.append with hcut | ⟨c', hc', hcut⟩
  · exact (readField_detectsCut frame.headOf_length c 0 c (Remains.start c) hcut).bind
  have hhead := Remains.start c
  rw [hc'] at hhead
  have hat := hhead.advance
  rw [Nat.zero_add] at hat
  rw [hc', decode_of_head frame.flags_eq hhead]
  -- Past the end, nothing is noticed before the target is read.
  have hpast : ∀ correlationId pos, (headOf action.intent frame.flags ++ c').length < pos →
      Raises (decodeSections lib action.intent (flagsOf action) correlationId
        (headOf action.intent frame.flags ++ c') pos) :=
    fun _ pos h => decodeStr16_startsInside.step h
  refine (skip_overrunsCut hsession).step (skip_readsBack hsession).readsThrough hat hcut ?_ ?_
  · exact fun _ pos h => hpast _ _ (by omega)
  intro _ c _ hat hc
  refine (skip_overrunsCut frame.messageId.property).step
    (skip_readsBack frame.messageId.property).readsThrough hat hc ?_ ?_
  · exact fun _ pos h => hpast _ _ (by omega)
  intro _ c _ hat hc
  refine (readCorrelation_overrunsCut hcorrelation).step
    (readCorrelation_readsBack hcorrelation).readsThrough hat hc ?_ ?_
  · exact fun correlationId pos h => hpast correlationId pos h
  intro correlationId c _ hat hc
  exact decodeSections_raises hlib frame.sections correlationId hat hc

end Frames

/-! ## Digits -/

section Digits

/-- The bytes of texts that are joined. -/
theorem asciiBytes_join (texts : List String) :
    Utf8.asciiBytes (String.join texts) = texts.flatMap Utf8.asciiBytes := by
  unfold Utf8.asciiBytes
  rw [String.toList_join, List.filter_flatMap, List.map_flatMap]

/-- The text of a byte string consists of its digits. -/
theorem hexText_bytes (b : Bytes) : (hexText b).bytes = Hex.ofBytes b := by
  have hbyte : ∀ n : Fin 256,
      Utf8.asciiBytes (hexLower 2 n.val) = Hex.ofByte (UInt8.ofNat n.val) := by
    decide +kernel
  have hlower : ∀ c : UInt8, Utf8.asciiBytes (hexLower 2 c.toNat) = Hex.ofByte c := by
    intro c
    rw [hbyte ⟨c.toNat, c.toNat_lt⟩, UInt8.ofNat_toNat]
  change Utf8.asciiBytes (String.join _) = _
  rw [asciiBytes_join, List.flatMap_map, Hex.ofBytes]
  exact congrArg (b.flatMap ·) (funext hlower)

/-- The digits of an identifier in lower case, without dashes and white space. -/
def idDigits (text : Utf8String) : Bytes := Hex.digits (text.bytes.filter (· ≠ 0x2D))

/-- Digits, unless all of them are zero. -/
def significant (digits : Bytes) : Bytes := if digits.all (· = 0x30) then [] else digits

/-- Two texts spell one identifier. -/
def SameId (a b : Utf8String) : Prop := significant (idDigits a) = significant (idDigits b)

/-- The digits of the text of a byte string. -/
theorem idDigits_hexText (b : Bytes) : idDigits (hexText b) = Hex.ofBytes b := by
  have hdash := Hex.forall_mem_ofBytes (P := fun c => decide (c ≠ 0x2D) = true)
    (fun n hn => decide_eq_true (Hex.digit_spec hn).2.2.2) b
  rw [idDigits, hexText_bytes, List.filter_eq_self.mpr hdash, Hex.digits_ofBytes]

/-- The text of a correlation field spells its digits. -/
theorem significant_correlationText (b : Bytes) :
    significant (idDigits (correlationText b)) = significant (Hex.ofBytes b) := by
  unfold correlationText
  by_cases hzero : b = List.replicate 16 0
  · rw [if_pos hzero, hzero]
    decide
  · rw [if_neg hzero, idDigits_hexText]

/-- The correlation field of a text has its digits, or is zero for the empty text. -/
theorem correlationField_eq_ok {text : Utf8String} {b : Bytes} (h : correlationField text = .ok b) :
    (text.length = 0 ∧ b = List.replicate 16 0) ∨
      (text.length ≠ 0 ∧ idDigits text = Hex.ofBytes b) := by
  unfold correlationField at h
  by_cases hempty : text.length = 0
  · rw [if_pos hempty] at h
    exact .inl ⟨hempty, (Outcome.ok.inj h).symm⟩
  · rw [if_neg hempty] at h
    split at h
    next bytes hparse =>
      rw [← Outcome.ok.inj h]
      exact .inr ⟨hempty, Hex.digits_of_parse hparse⟩
    next => cases h

/-- A correlation field spells its text. -/
theorem sameId_correlationText {text : Utf8String} {b : Bytes} (h : correlationField text = .ok b) :
    SameId (correlationText b) text := by
  rw [SameId, significant_correlationText]
  rcases correlationField_eq_ok h with ⟨hempty, hb⟩ | ⟨_, hdigits⟩
  · have htext : text.bytes = [] := List.eq_nil_of_length_eq_zero hempty
    rw [hb, idDigits, htext]
    decide
  · rw [hdigits]

/-- A correlation field has its width for the empty text and for 32 digits. -/
theorem correlationField_length_iff {text : Utf8String} {b : Bytes}
    (h : correlationField text = .ok b) :
    b.length = 16 ↔ text.length = 0 ∨ (idDigits text).length = 32 := by
  rcases correlationField_eq_ok h with ⟨hempty, hb⟩ | ⟨hne, hdigits⟩
  · exact iff_of_true (by rw [hb, List.length_replicate]) (.inl hempty)
  · rw [hdigits, Hex.ofBytes_length]
    omega

end Digits

/-! ## Framing -/

section Framing

variable {lib : FastLibrary} {action : ModelAction}

/-- Every field of fixed width in front of the sections is written with its width. -/
def FixedWidths (lib : FastLibrary) (action : ModelAction) (w : Bytes) : Prop :=
  ∃ head sessionId messageId correlationId sections : Bytes,
    encodeSections lib action = .ok sections ∧
      w = head ++ (sessionId ++ (messageId ++ (correlationId ++ sections))) ∧
        head.length = 6 ∧ sessionId.length = 16 ∧ messageId.length = 16 ∧
          correlationId.length = 16

/-- The default session identifier has sixteen bytes. -/
theorem init_sessionId_length {origin : Utf8String} {counter : Nat} {encoder : FastActionEncoder}
    (h : (FastActionEncoder.init origin none counter).1 = .ok encoder) :
    encoder.sessionId.length = 16 := by
  have ⟨id, _, h⟩ := Outcome.bind_eq_ok_iff.mp h
  rw [← Outcome.ok.inj h]
  exact id.property

/-- A frame with a session identifier of sixteen bytes has its widths exactly when its
correlation field has. -/
theorem fixedWidths_iff {sessionId : Bytes} (frame : Frame lib action)
    (hsession : sessionId.length = 16) :
    FixedWidths lib action (frame.bytes sessionId) ↔ frame.correlationId.length = 16 := by
  constructor
  · intro ⟨head, session, messageId, correlationId, sections, hsections, hw, hhead, hsessionId,
      hmessageId, hcorrelationId⟩
    rw [frame.sections_eq] at hsections
    have hlength := congrArg List.length hw
    rw [← Outcome.ok.inj hsections] at hlength
    have hframeHead := frame.headOf_length
    have hframeMessage := frame.messageId.property
    unfold Frame.bytes at hlength
    simp only [List.length_append] at hlength
    omega
  · intro hcorrelation
    exact ⟨_, _, _, _, _, frame.sections_eq, rfl, frame.headOf_length, hsession,
      frame.messageId.property, hcorrelation⟩

/-- With the default session identifier, the frame of a valid action has its widths and
is read back exactly when the correlation identifier is empty or has 32 digits. -/
theorem framing_iff (hlib : lib.InvertsJson) {origin : Utf8String} {created : Nat}
    {encoder : FastActionEncoder}
    (hinit : (FastActionEncoder.init origin none created).1 = .ok encoder)
    (hvalid : action.validate lib.toLibrary = []) (hdeadline : action.deadlineMs < 2 ^ 32)
    (hjson : action.IsJson) {counter : Nat} {w : Bytes}
    (hw : (encoder.encode lib action counter).1 = .ok w) :
    (FixedWidths lib action w ∧ ∃ decoded, decode lib w = .ok decoded ∧
      decoded.SameFields action ∧ SameId decoded.correlationId action.correlationId) ↔
        action.correlationId.length = 0 ∨ (idDigits action.correlationId).length = 32 := by
  have hsession := init_sessionId_length hinit
  have ⟨frame, hframe⟩ := encode_eq_ok hw
  rw [hframe, fixedWidths_iff frame hsession, ← correlationField_length_iff frame.correlationId_eq]
  constructor
  · intro ⟨hcorrelation, _⟩
    exact hcorrelation
  · intro hcorrelation
    have hmask := (maskDeadline_eq_iff (deadlineMs_nonneg hvalid)).mpr hdeadline
    refine ⟨hcorrelation, _, decode_bytes hlib hjson frame hsession hcorrelation, ?_, ?_⟩
    · exact ⟨rfl, rfl, rfl, rfl, rfl, rfl, rfl, hmask, rfl⟩
    · exact sameId_correlationText frame.correlationId_eq

/-- The first encoder of a process, with the default session identifier. -/
def firstEncoder : FastActionEncoder where
  origin := .ofAscii "model"
  sessionId := List.replicate 8 0 ++ (BigEndian.toBytes 8 1).reverse

/-- It is what the constructor makes. -/
theorem init_firstEncoder :
    (FastActionEncoder.init (.ofAscii "model") none 0).1 = .ok firstEncoder := rfl

/-- The frame of a request to generate has its widths and is read back. -/
theorem framing_generate :
    ∃ w decoded, (firstEncoder.encode FastCodec.textLibrary generateAction 1).1 = .ok w ∧
      FixedWidths FastCodec.textLibrary generateAction w ∧
        decode FastCodec.textLibrary w = .ok decoded ∧ decoded.SameFields generateAction := by
  have hok : (firstEncoder.encode FastCodec.textLibrary generateAction 1).1.isOk = true := by
    decide +kernel
  have ⟨w, hw⟩ := Outcome.isOk_iff.mp hok
  have hiff := framing_iff FastCodec.textLibrary_invertsJson init_firstEncoder (by decide +kernel)
    (by decide) FastCodec.generateAction_isJson hw
  have ⟨hwidths, decoded, hdecoded, hsame, _⟩ := hiff.mpr (.inl rfl)
  exact ⟨w, decoded, hw, hwidths, hdecoded, hsame⟩

/-- A request to generate with a correlation identifier of two digits. -/
def shortIdAction : ModelAction where
  intent := .generate
  correlationId := .ofAscii "ab"
  inputs_nodupKeys := noEntries_nodupKeys
  params_nodupKeys := noEntries_nodupKeys
  result_nodupKeys := noEntries_nodupKeys
  metadata_nodupKeys := noEntries_nodupKeys

/-- Its frame has one byte in the correlation field and is not read back. -/
theorem framing_shortId :
    shortIdAction.validate FastCodec.textLibrary.toLibrary = [] ∧ shortIdAction.IsJson ∧
      ∃ w, (firstEncoder.encode FastCodec.textLibrary shortIdAction 1).1 = .ok w ∧
        decode FastCodec.textLibrary w = .err (.bin .structError) ∧
          ¬ FixedWidths FastCodec.textLibrary shortIdAction w := by
  have hempty : (Value.ofEntries []).IsJson := ⟨List.nodup_nil, trivial⟩
  have hok : ((firstEncoder.encode FastCodec.textLibrary shortIdAction 1).1 >>= fun w =>
      pure ((decode FastCodec.textLibrary w).error?)) = .ok (some (.bin .structError)) := by
    decide +kernel
  have ⟨w, hw, hdecoded⟩ := Outcome.bind_eq_ok_iff.mp hok
  have hdecoded := Outcome.error?_eq_some_iff.mp (Outcome.ok.inj hdecoded)
  have ⟨frame, hframe⟩ := encode_eq_ok hw
  have hsession := init_sessionId_length init_firstEncoder
  have hcorrelation := correlationField_length_iff frame.correlationId_eq
  refine ⟨by decide +kernel, ⟨hempty, hempty, hempty, hempty⟩, w, hw, hdecoded, ?_⟩
  rw [hframe, fixedWidths_iff frame hsession, hcorrelation]
  decide

end Framing

end FastAction

end Aicl.Semantic
