import Aicl.Foundation.Hex
import Aicl.Semantic.FastSections
import Aicl.Semantic.Inputs

/-!
# The fast codec

{lit}`FastCodec` of {lit}`aicl/semantic/fast_codec.py`: an action in one frame, with
optional sections that bits of a flag byte announce.  The session identifier that
{lit}`uuid4` makes is an argument.

Main results:

- Theorem {lit}`FastCodec.decodeAction_encodeAction`: what is read back.
- Theorem {lit}`FastCodec.roundTrip_iff`: when it is the action.
- Theorem {lit}`FastCodec.decodeAction_raises_of_cutOff`: a frame that is cut off is
  reported.
-/

namespace Aicl.Semantic

open Bin (getSlice pack fmtI fmtH hexLower)
open Outcome (Remains ReadsBack ReadsThrough CutOff DetectsCut OverrunsCut StartsInside Raises)

namespace ModelIntent

/-- Every intent, in the order of the tables. -/
def all : List ModelIntent :=
  [classify, generate, reason, embed, rank, summarize, synthesize, verify, extract, transform,
    plan, evaluate, callModel, callTool, readMemory, writeMemory, deleteMemory, indexQuery,
    indexUpsert, route, filter, returnResult, streamResult, cancel]

/-- The inverse of a table of intents; of two intents with one byte the later one stays. -/
def ofByte? (table : ModelIntent → UInt8) (byte : UInt8) : Option ModelIntent :=
  all.reverse.find? fun intent => table intent = byte

end ModelIntent

namespace FastCodec

/-! ## Constants -/

/-- {lit}`_FAST_CODEC_VERSION`. -/
def fastCodecVersion : UInt8 := 0x01

/-- {lit}`_INTENT_BYTE`; every intent has one, so that the default of {lit}`get` is not
used. -/
def intentByte : ModelIntent → UInt8
  | .classify => 0x01
  | .generate => 0x02
  | .reason => 0x03
  | .embed => 0x04
  | .rank => 0x05
  | .summarize => 0x06
  | .synthesize => 0x07
  | .verify => 0x08
  | .extract => 0x09
  | .transform => 0x0A
  | .plan => 0x0B
  | .evaluate => 0x0C
  | .callModel => 0x10
  | .callTool => 0x11
  | .readMemory => 0x20
  | .writeMemory => 0x21
  | .deleteMemory => 0x22
  | .indexQuery => 0x23
  | .indexUpsert => 0x24
  | .route => 0x30
  | .filter => 0x31
  | .returnResult => 0x40
  | .streamResult => 0x41
  | .cancel => 0xFF

/-- {lit}`_BYTE_TO_INTENT`. -/
def byteToIntent (byte : UInt8) : Option ModelIntent := ModelIntent.ofByte? intentByte byte

/-- {lit}`_FLAG_STREAM`. -/
def flagStream : UInt8 := 0x01

/-- {lit}`_FLAG_CANCEL`. -/
def flagCancel : UInt8 := 0x02

/-- {lit}`_FLAG_HAS_PARAMS`. -/
def flagHasParams : UInt8 := 0x04

/-- {lit}`_FLAG_HAS_RESULT`. -/
def flagHasResult : UInt8 := 0x08

/-- {lit}`_FLAG_HAS_METADATA`. -/
def flagHasMetadata : UInt8 := 0x10

/-- The flag byte that is built up bit by bit. -/
def setFlags (stream cancel params result metadata : Bool) : UInt8 :=
  let flags := 0
  let flags := if stream then flags ||| flagStream else flags
  let flags := if cancel then flags ||| flagCancel else flags
  let flags := if params then flags ||| flagHasParams else flags
  let flags := if result then flags ||| flagHasResult else flags
  if metadata then flags ||| flagHasMetadata else flags

/-- The flags of an action. -/
def flagsOf (action : ModelAction) : UInt8 :=
  setFlags action.stream action.cancel (!action.params.isEmpty) (!action.result.isEmpty)
    (!action.metadata.isEmpty)

/-- {lit}`bool(flags & bit)`. -/
def hasFlag (flags bit : UInt8) : Bool := flags &&& bit ≠ 0

/-! ## Correlation identifiers -/

/-- Five groups of digits with dashes between them. -/
def groups (hex : Bytes) : Bytes :=
  hex.take 8 ++ 0x2D :: ((hex.drop 8).take 4 ++ 0x2D :: ((hex.drop 12).take 4 ++
    0x2D :: ((hex.drop 16).take 4 ++ 0x2D :: hex.drop 20)))

/-- Nothing but dashes and digits. -/
theorem mem_groups {hex : Bytes} {c : UInt8} (h : c ∈ groups hex) : c = 0x2D ∨ c ∈ hex := by
  simp only [groups, List.mem_append, List.mem_cons] at h
  rcases h with h | h | h | h | h | h | h | h | h
  · exact .inr (List.mem_of_mem_take h)
  · exact .inl h
  · exact .inr (List.mem_of_mem_drop (List.mem_of_mem_take h))
  · exact .inl h
  · exact .inr (List.mem_of_mem_drop (List.mem_of_mem_take h))
  · exact .inl h
  · exact .inr (List.mem_of_mem_drop (List.mem_of_mem_take h))
  · exact .inl h
  · exact .inr (List.mem_of_mem_drop h)

/-- The groups of a byte string are ASCII. -/
theorem groups_le (bytes : Bytes) : ∀ c ∈ groups (Hex.ofBytes bytes), c ≤ 0x7F := by
  intro c hc
  rcases mem_groups hc with hdash | hdigit
  · rw [hdash]
    decide
  · have hall := Hex.forall_mem_ofBytes (P := (· ≤ 0x7F)) (fun n hn => (Hex.digit_spec hn).2.2.1)
    exact hall bytes c hdigit

/-- {lit}`str(uuid.UUID(bytes=…))`. -/
def uuidText (id : UuidBytes) : Utf8String :=
  ⟨groups (Hex.ofBytes id.val), Utf8.valid_of_ascii (groups_le id.val)⟩

/-- The correlation identifier of a frame: no text for zeros, and no identifier of
another length. -/
def readCorrelation (data : Bytes) (pos : Nat) : SemResult (Utf8String × Nat) :=
  let corrBytes := getSlice data pos (pos + 16)
  if corrBytes = List.replicate 16 0 then pure (.empty, pos + 16)
  else if h : corrBytes.length = 16 then pure (uuidText ⟨corrBytes, h⟩, pos + 16)
  else .err (.builtin "ValueError")

/-! ## The codec -/

/-- {lit}`encode_action`. -/
def encodeAction (lib : FastLibrary) (sessionId : UuidBytes) (action : ModelAction) :
    SemResult Bytes := do
  let head := [fastCodecVersion, intentByte action.intent, flagsOf action]
  let target ← encodeStr16 action.target
  let inputs ← encodeJsonSmall lib action.inputs
  let params ← encodeJsonSection lib action.params
  let result ← encodeJsonSection lib action.result
  let correlationId ← correlationBytes lib.toLibrary action.correlationId
  let deadline ← liftBin (pack [(fmtI, maskDeadline action.deadlineMs)])
  let confInt ← confidenceInt lib action.confidence
  let confidence ← liftBin (pack [(fmtH, confInt)])
  let metadata ← encodeJsonSection lib action.metadata
  pure (head ++ (sessionId.val ++ (target ++ (inputs ++ (params ++ (result ++
    (correlationId.val ++ (deadline ++ (confidence ++ metadata)))))))))

/-- What {lit}`decode_action` reads after the head. -/
def decodeFields (lib : FastLibrary) (intent : ModelIntent) (flags : UInt8) (data : Bytes)
    (pos : Nat) : SemResult DecodedAction := do
  let ((), pos) ← skip 16 data pos
  let (target, pos) ← decodeStr16 data pos
  let (inputs, pos) ← decodeJsonSmall lib data pos
  let (params, pos) ← decodeJsonSection lib (hasFlag flags flagHasParams) data pos
  let (result, pos) ← decodeJsonSection lib (hasFlag flags flagHasResult) data pos
  let (correlationId, pos) ← readCorrelation data pos
  let (deadlineMs, pos) ← readWord 4 data pos
  let (confInt, pos) ← readWord 2 data pos
  let (metadata, _) ← decodeJsonSection lib (hasFlag flags flagHasMetadata) data pos
  pure
    { intent
      target
      inputs
      params
      result
      confidence := lib.ofThousandths confInt
      stream := hasFlag flags flagStream
      cancel := hasFlag flags flagCancel
      correlationId
      deadlineMs
      metadata }

/-- {lit}`decode_action`. -/
def decodeAction (lib : FastLibrary) (data : Bytes) : SemResult DecodedAction := do
  let (head, pos) ← readField 3 data 0
  let version := head.getD 0 0
  let intentByte := head.getD 1 0
  let flags := head.getD 2 0
  if version ≠ fastCodecVersion then
    .err (.semanticError s!"Unknown fast codec version: {version.toNat}")
  else
    match byteToIntent intentByte with
    | none => .err (.semanticError s!"Unknown intent byte: 0x{hexLower 2 intentByte.toNat}")
    | some intent => decodeFields lib intent flags data pos

/-! ## Heads -/

/-- The table of bytes is inverted. -/
theorem byteToIntent_intentByte (intent : ModelIntent) :
    byteToIntent (intentByte intent) = some intent := by
  cases intent <;> rfl

/-- The bits of a flag byte. -/
theorem hasFlag_setFlags (stream cancel params result metadata : Bool) :
    let flags := setFlags stream cancel params result metadata
    hasFlag flags flagStream = stream ∧ hasFlag flags flagCancel = cancel ∧
      hasFlag flags flagHasParams = params ∧ hasFlag flags flagHasResult = result ∧
        hasFlag flags flagHasMetadata = metadata := by
  revert stream cancel params result metadata
  decide

/-! ## Reading back -/

section Correlation

variable {data : Bytes} {pos : Nat}

/-- The text of a correlation identifier. -/
def correlationText (id : UuidBytes) : Utf8String :=
  if id.val = List.replicate 16 0 then .empty else uuidText id

/-- A correlation identifier is read back as its text. -/
theorem readCorrelation_readsBack (id : UuidBytes) :
    ReadsBack readCorrelation (correlationText id) id.val := by
  intro data pos rest hat
  have hslice := getSlice_of_remains hat
  rw [id.property] at hslice
  unfold readCorrelation correlationText
  dsimp only
  rw [hslice]
  by_cases hzero : id.val = List.replicate 16 0
  · rw [if_pos hzero, if_pos hzero, id.property]
    rfl
  · rw [if_neg hzero, if_neg hzero, dif_pos id.property, id.property]
    rfl

/-- Bytes of another length are no correlation identifier. -/
theorem readCorrelation_raises (h : (getSlice data pos (pos + 16)).length ≠ 16) :
    Raises (readCorrelation data pos) := by
  have hzero : getSlice data pos (pos + 16) ≠ List.replicate 16 0 := by
    intro heq
    rw [heq, List.length_replicate] at h
    exact h rfl
  unfold readCorrelation
  dsimp only
  rw [if_neg hzero, dif_neg h]
  trivial

/-- A correlation identifier that is cut off is reported. -/
theorem readCorrelation_detectsCut (id : UuidBytes) : DetectsCut readCorrelation id.val := by
  intro data pos c hat hc
  have hlt := hc.length_lt
  rw [id.property] at hlt
  apply readCorrelation_raises
  rw [getSlice_of_remains_le hat hlt.le]
  exact hlt.ne

end Correlation

section Frames

variable {lib : FastLibrary} {sessionId : UuidBytes} {action : ModelAction}

/-- The parts of the frame of an action. -/
structure Frame (lib : FastLibrary) (action : ModelAction) where
  target : Bytes
  inputs : Bytes
  params : Bytes
  result : Bytes
  correlationId : UuidBytes
  deadline : Bytes
  confidence : Bytes
  metadata : Bytes
  target_eq : encodeStr16 action.target = .ok target
  inputs_eq : encodeJsonSmall lib action.inputs = .ok inputs
  params_eq : encodeJsonSection lib action.params = .ok params
  result_eq : encodeJsonSection lib action.result = .ok result
  correlationId_eq : correlationBytes lib.toLibrary action.correlationId = .ok correlationId
  deadline_eq : liftBin (pack [(fmtI, maskDeadline action.deadlineMs)]) = .ok deadline
  confidence_length : confidence.length = 2
  metadata_eq : encodeJsonSection lib action.metadata = .ok metadata

/-- The bytes of a frame. -/
def Frame.bytes (frame : Frame lib action) (sessionId : UuidBytes) : Bytes :=
  [fastCodecVersion, intentByte action.intent, flagsOf action] ++ (sessionId.val ++
    (frame.target ++ (frame.inputs ++ (frame.params ++ (frame.result ++
      (frame.correlationId.val ++ (frame.deadline ++ (frame.confidence ++ frame.metadata))))))))

/-- The action that is read back from a frame. -/
def Frame.decoded (frame : Frame lib action) : DecodedAction where
  intent := action.intent
  target := action.target
  inputs := .ofEntries action.inputs
  params := .ofEntries action.params
  result := .ofEntries action.result
  confidence := lib.ofThousandths (BigEndian.ofBytes frame.confidence)
  stream := action.stream
  cancel := action.cancel
  correlationId := correlationText frame.correlationId
  deadlineMs := maskDeadline action.deadlineMs
  metadata := .ofEntries action.metadata

/-- What is encoded is a frame. -/
theorem encodeAction_eq_ok {w : Bytes} (h : encodeAction lib sessionId action = .ok w) :
    ∃ frame : Frame lib action, w = frame.bytes sessionId := by
  have ⟨target, htarget, h⟩ := Outcome.bind_eq_ok_iff.mp h
  have ⟨inputs, hinputs, h⟩ := Outcome.bind_eq_ok_iff.mp h
  have ⟨params, hparams, h⟩ := Outcome.bind_eq_ok_iff.mp h
  have ⟨result, hresult, h⟩ := Outcome.bind_eq_ok_iff.mp h
  have ⟨id, hid, h⟩ := Outcome.bind_eq_ok_iff.mp h
  have ⟨deadline, hdeadline, h⟩ := Outcome.bind_eq_ok_iff.mp h
  have ⟨confInt, _, h⟩ := Outcome.bind_eq_ok_iff.mp h
  have ⟨confidence, hconfidence, h⟩ := Outcome.bind_eq_ok_iff.mp h
  have ⟨metadata, hmetadata, h⟩ := Outcome.bind_eq_ok_iff.mp h
  exact ⟨⟨target, inputs, params, result, id, deadline, confidence, metadata, htarget, hinputs,
    hparams, hresult, hid, hdeadline, (packWord_eq_ok hconfidence).1, hmetadata⟩,
    (Outcome.ok.inj h).symm⟩

/-- The head of a frame is read back. -/
theorem readHead_readsBack (intent : ModelIntent) (flags : UInt8) :
    ReadsBack (readField 3) [fastCodecVersion, intentByte intent, flags]
      [fastCodecVersion, intentByte intent, flags] :=
  readField_readsBack rfl

/-- After a head, the fields are read. -/
theorem decodeAction_of_head {data rest : Bytes} {flags : UInt8}
    (hat : Remains data 0 ([fastCodecVersion, intentByte action.intent, flags] ++ rest)) :
    decodeAction lib data = decodeFields lib action.intent flags data 3 := by
  unfold decodeAction
  rw [(readHead_readsBack action.intent flags).step hat]
  simp only [List.getD_cons_zero, List.getD_cons_succ, byteToIntent_intentByte]
  rw [if_neg (not_not_intro rfl)]
  rfl

/-- The fields after the head are read back. -/
theorem decodeFields_of_remains {data : Bytes} {pos : Nat} (hlib : lib.InvertsJson)
    (hjson : action.IsJson) (frame : Frame lib action)
    (hat : Remains data pos (sessionId.val ++ (frame.target ++ (frame.inputs ++ (frame.params ++
      (frame.result ++ (frame.correlationId.val ++ (frame.deadline ++
        (frame.confidence ++ (frame.metadata ++ [])))))))))) :
    decodeFields lib action.intent (flagsOf action) data pos = .ok frame.decoded := by
  have ⟨hstream, hcancel, hparams, hresult, hmetadata⟩ :=
    hasFlag_setFlags action.stream action.cancel (!action.params.isEmpty)
      (!action.result.isEmpty) (!action.metadata.isEmpty)
  have htarget := hat.advance
  have hinputs := htarget.advance
  have hparamsAt := hinputs.advance
  have hresultAt := hparamsAt.advance
  have hcorrelation := hresultAt.advance
  have hdeadline := hcorrelation.advance
  have hconfidence := hdeadline.advance
  have hmetadataAt := hconfidence.advance
  unfold decodeFields flagsOf
  rw [hstream, hcancel, hparams, hresult, hmetadata]
  rw [(skip_readsBack sessionId.property).step hat]
  dsimp only
  rw [(decodeStr16_readsBack frame.target_eq).step htarget]
  dsimp only
  rw [(decodeJsonSmall_readsBack hlib hjson.inputs frame.inputs_eq).step hinputs]
  dsimp only
  rw [(decodeJsonSection_readsBack hlib hjson.params frame.params_eq).step hparamsAt]
  dsimp only
  rw [(decodeJsonSection_readsBack hlib hjson.result frame.result_eq).step hresultAt]
  dsimp only
  rw [(readCorrelation_readsBack frame.correlationId).step hcorrelation]
  dsimp only
  rw [(readWord_readsBack_packed frame.deadline_eq).step hdeadline]
  dsimp only
  rw [(readNumber_readsBack _ frame.confidence_length).step hconfidence]
  dsimp only
  rw [(decodeJsonSection_readsBack hlib hjson.metadata frame.metadata_eq).step hmetadataAt]
  rfl

/-- A frame is read back. -/
theorem decodeAction_bytes (hlib : lib.InvertsJson) (hjson : action.IsJson)
    (frame : Frame lib action) : decodeAction lib (frame.bytes sessionId) = .ok frame.decoded := by
  have hhead := Remains.start (frame.bytes sessionId)
  rw [decodeAction_of_head hhead]
  apply decodeFields_of_remains hlib hjson frame
  rw [List.append_nil]
  exact hhead.advance

/-- Fields that are cut off are reported: a cut in the session identifier or in the
target by what is read after it, any other cut where it is. -/
theorem decodeFields_raises {data c : Bytes} {pos : Nat} (hlib : lib.RejectsCuts)
    (frame : Frame lib action) (hat : Remains data pos c)
    (hc : CutOff c (sessionId.val ++ (frame.target ++ (frame.inputs ++ (frame.params ++
      (frame.result ++ (frame.correlationId.val ++ (frame.deadline ++
        (frame.confidence ++ frame.metadata))))))))) :
    Raises (decodeFields lib action.intent (flagsOf action) data pos) := by
  have ⟨_, _, hparams, hresult, hmetadata⟩ :=
    hasFlag_setFlags action.stream action.cancel (!action.params.isEmpty)
      (!action.result.isEmpty) (!action.metadata.isEmpty)
  have hdeadline := (packWord_eq_ok frame.deadline_eq).1
  unfold decodeFields
  refine (skip_overrunsCut sessionId.property).step
    (skip_readsBack sessionId.property).readsThrough hat hc ?_ ?_
  · exact fun _ pos hpast => decodeStr16_startsInside.step hpast
  intro _ c _ hat hc
  refine (decodeStr16_overrunsCut frame.target_eq).step
    (decodeStr16_readsBack frame.target_eq).readsThrough hat hc ?_ ?_
  · exact fun _ pos hpast => (decodeJsonSmall_startsInside lib).step hpast
  intro _ c _ hat hc
  refine (decodeJsonSmall_detectsCut hlib frame.inputs_eq).step
    (decodeJsonSmall_readsThrough frame.inputs_eq) hat hc ?_
  intro _ c _ hat hc
  unfold flagsOf
  dsimp only
  rw [hparams, hresult, hmetadata]
  refine (decodeJsonSection_detectsCut hlib frame.params_eq).step
    (decodeJsonSection_readsThrough frame.params_eq) hat hc ?_
  intro _ c _ hat hc
  refine (decodeJsonSection_detectsCut hlib frame.result_eq).step
    (decodeJsonSection_readsThrough frame.result_eq) hat hc ?_
  intro _ c _ hat hc
  refine (readCorrelation_detectsCut frame.correlationId).step
    (readCorrelation_readsBack frame.correlationId).readsThrough hat hc ?_
  intro _ c _ hat hc
  refine (readNumber_detectsCut _ hdeadline).step
    (readNumber_readsBack _ hdeadline).readsThrough hat hc ?_
  intro _ c _ hat hc
  refine (readNumber_detectsCut _ frame.confidence_length).step
    (readNumber_readsBack _ frame.confidence_length).readsThrough hat hc ?_
  intro _ c _ hat hc
  exact (decodeJsonSection_detectsCut hlib frame.metadata_eq _ _ c hat hc).bind

/-- A frame that is cut off is reported. -/
theorem decodeAction_raises_of_cutOff {c : Bytes} (hlib : lib.RejectsCuts)
    (frame : Frame lib action) (hc : CutOff c (frame.bytes sessionId)) :
    Raises (decodeAction lib c) := by
  rcases hc.append with hcut | ⟨c', hc', hcut⟩
  · exact (readField_detectsCut rfl c 0 c (Remains.start c) hcut).bind
  · have hhead := Remains.start c
    rw [hc'] at hhead
    rw [hc', decodeAction_of_head hhead]
    exact decodeFields_raises hlib frame hhead.advance hcut

end Frames

/-! ## Round trips -/

section RoundTrip

variable {lib : FastLibrary} {sessionId : UuidBytes} {action : ModelAction} {w : Bytes}

/-- {lit}`uuid.UUID` parses what {lit}`str` makes of an identifier. -/
def ParsesUuids (lib : FastLibrary) : Prop := ∀ id, lib.uuid (uuidText id) = .ok id

/-- The text of an identifier has the bytes of the identifier. -/
theorem correlationBytes_correlationText (huuid : ParsesUuids lib) (id : UuidBytes) :
    correlationBytes lib.toLibrary (correlationText id) = .ok id := by
  unfold correlationText
  by_cases hzero : id.val = List.replicate 16 0
  · have hid : zeroUuid = id := Subtype.ext hzero.symm
    rw [if_pos hzero, ← hid]
    rfl
  · have hlength : (uuidText id).length ≠ 0 := by
      simp [uuidText, Utf8String.length, groups]
    rw [if_neg hzero, correlationBytes, if_neg hlength]
    exact huuid id

/-- A valid action that is encoded is read back, with its fields and its correlation
identifier, exactly when its deadline fits four bytes. -/
theorem roundTrip_iff (hlib : lib.InvertsJson) (huuid : ParsesUuids lib)
    (hvalid : action.validate lib.toLibrary = []) (hjson : action.IsJson)
    (hw : encodeAction lib sessionId action = .ok w) :
    (∃ decoded, decodeAction lib w = .ok decoded ∧ decoded.SameFields action ∧
      correlationBytes lib.toLibrary decoded.correlationId =
        correlationBytes lib.toLibrary action.correlationId) ↔ action.deadlineMs < 2 ^ 32 := by
  have ⟨frame, hframe⟩ := encodeAction_eq_ok hw
  have hdecoded : decodeAction lib w = .ok frame.decoded := by
    rw [hframe]
    exact decodeAction_bytes hlib hjson frame
  have hdeadline := maskDeadline_eq_iff (deadlineMs_nonneg hvalid)
  constructor
  · intro ⟨decoded, hok, hsame, _⟩
    rw [hdecoded] at hok
    have hsame := (Outcome.ok.inj hok) ▸ hsame
    exact hdeadline.mp hsame.deadlineMs
  · intro hlt
    refine ⟨frame.decoded, hdecoded, ?_, ?_⟩
    · exact ⟨rfl, rfl, rfl, rfl, rfl, rfl, rfl, hdeadline.mpr hlt, rfl⟩
    · rw [frame.correlationId_eq]
      exact correlationBytes_correlationText huuid frame.correlationId

end RoundTrip

/-! ## A library that knows one text -/

/-- {lit}`uuid.UUID` of a text with dashes. -/
def parseUuid (text : Utf8String) : SemResult UuidBytes :=
  match Hex.parse (text.bytes.filter (· ≠ 0x2D)) with
  | some bytes => if h : bytes.length = 16 then pure ⟨bytes, h⟩ else .err (.builtin "ValueError")
  | none => .err (.builtin "ValueError")

/-- The dictionary of a request to generate. -/
def textEntries : Entries := [(textKey, .str textKey)]

/-- Its text. -/
def textJson : Utf8String := .ofAscii "\x7b\"text\":\"text\"\x7d"

/-- The writer of this text. -/
def dumpsText : Value → SemResult Utf8String
  | .dict [(.str key, .str value)] =>
      if key = textKey ∧ value = textKey then pure textJson else .err (.builtin "TypeError")
  | _ => .err (.builtin "TypeError")

/-- The reader of this text. -/
def loadsText (data : Bytes) : Option Value :=
  if data = textJson.bytes then some (.ofEntries textEntries) else none

/-- A library that writes and reads this text only, and the confidence one. -/
def textLibrary : FastLibrary where
  toLibrary := { idleLibrary with uuid := parseUuid }
  dumpsUtf8 := dumpsText
  loadsBytes := loadsText
  toThousandths value :=
    if value = 0x3FF0000000000000 then pure 1000 else .err (.builtin "ValueError")
  ofThousandths n := if n = 1000 then 0x3FF0000000000000 else 0

/-- It writes one text only. -/
theorem textLibrary_dumpsUtf8 {entries : Entries} {text : Utf8String}
    (h : textLibrary.dumpsUtf8 (.ofEntries entries) = .ok text) :
    entries = textEntries ∧ text = textJson := by
  change dumpsText (.dict _) = _ at h
  unfold dumpsText at h
  split at h
  next key value heq =>
    have ⟨entry, hentries, hentry⟩ := List.map_eq_singleton_iff.mp (Value.dict.inj heq)
    have ⟨hkey, hvalue⟩ := Prod.mk.inj hentry
    by_cases hkeys : key = textKey ∧ value = textKey
    · rw [if_pos hkeys] at h
      rw [hkeys.1] at hkey
      rw [hkeys.2] at hvalue
      have hentry : entry = (textKey, .str textKey) := Prod.ext (Value.str.inj hkey) hvalue
      rw [hentries, hentry, ← Outcome.ok.inj h]
      exact ⟨rfl, rfl⟩
    · rw [if_neg hkeys] at h
      cases h
  next => cases h

/-- It reads what it writes. -/
theorem textLibrary_invertsJson : textLibrary.InvertsJson := by
  intro entries text _ h
  have ⟨hentries, htext⟩ := textLibrary_dumpsUtf8 h
  rw [hentries, htext]
  constructor
  · decide
  · change loadsText textJson.bytes = _
    rw [loadsText, if_pos rfl]

/-- It reads nothing else. -/
theorem textLibrary_rejectsCuts : textLibrary.RejectsCuts := by
  intro entries text h c hc
  have ⟨_, htext⟩ := textLibrary_dumpsUtf8 h
  have hlt := hc.length_lt
  have hne : c ≠ textJson.bytes := by
    intro heq
    rw [heq, htext] at hlt
    exact Nat.lt_irrefl _ hlt
  exact if_neg hne

/-- Groups without their dashes. -/
theorem filter_groups {hex : Bytes} (h : ∀ c ∈ hex, c ≠ 0x2D) :
    (groups hex).filter (· ≠ 0x2D) = hex := by
  have hjoin : ∀ n, (hex.drop n).take 4 ++ hex.drop (n + 4) = hex.drop n := by
    intro n
    rw [← List.drop_drop, List.take_append_drop]
  have hdash : ∀ part rest : Bytes, (∀ c ∈ part, c ∈ hex) →
      (part ++ 0x2D :: rest).filter (· ≠ 0x2D) = part ++ rest.filter (· ≠ 0x2D) := by
    intro part rest hpart
    rw [List.filter_append, List.filter_cons_of_neg (by simp),
      List.filter_eq_self.mpr fun c hc => decide_eq_true (h c (hpart c hc))]
  have hmiddle : ∀ n, ∀ c ∈ (hex.drop n).take 4, c ∈ hex :=
    fun n c hc => List.mem_of_mem_drop (List.mem_of_mem_take hc)
  have hlast : (hex.drop 20).filter (· ≠ 0x2D) = hex.drop 20 :=
    List.filter_eq_self.mpr fun c hc => decide_eq_true (h c (List.mem_of_mem_drop hc))
  unfold groups
  rw [hdash _ _ fun c hc => List.mem_of_mem_take hc, hdash _ _ (hmiddle 8), hdash _ _ (hmiddle 12),
    hdash _ _ (hmiddle 16), hlast, hjoin 16, hjoin 12, hjoin 8, List.take_append_drop]

/-- It parses the text of an identifier. -/
theorem textLibrary_parsesUuids : ParsesUuids textLibrary := by
  intro id
  have hdash := Hex.forall_mem_ofBytes (P := (· ≠ 0x2D))
    (fun n hn => (Hex.digit_spec hn).2.2.2) id.val
  change parseUuid (uuidText id) = _
  unfold parseUuid
  rw [uuidText, filter_groups hdash, Hex.parse_ofBytes]
  exact dif_pos id.property

/-- The fields of a request to generate are JSON. -/
theorem generateAction_isJson : generateAction.IsJson := by
  have hempty : (Value.ofEntries []).IsJson := ⟨List.nodup_nil, trivial⟩
  exact ⟨⟨List.nodup_singleton _, ⟨_, rfl⟩, trivial, trivial⟩, hempty, hempty, hempty⟩

/-- A request to generate is read back. -/
theorem roundTrip_generate :
    ∃ w decoded, encodeAction textLibrary zeroUuid generateAction = .ok w ∧
      decodeAction textLibrary w = .ok decoded ∧ decoded.SameFields generateAction := by
  have hok : (encodeAction textLibrary zeroUuid generateAction).isOk = true := by decide +kernel
  have ⟨w, hw⟩ := Outcome.isOk_iff.mp hok
  have hiff := roundTrip_iff textLibrary_invertsJson textLibrary_parsesUuids (by decide +kernel)
    generateAction_isJson hw
  have ⟨decoded, hdecoded, hsame, _⟩ := hiff.mpr (by decide)
  exact ⟨w, decoded, hw, hdecoded, hsame⟩

/-- A request to generate with a deadline of five bytes. -/
def lateAction : ModelAction where
  intent := .generate
  deadlineMs := 2 ^ 32
  inputs_nodupKeys := noEntries_nodupKeys
  params_nodupKeys := noEntries_nodupKeys
  result_nodupKeys := noEntries_nodupKeys
  metadata_nodupKeys := noEntries_nodupKeys

/-- Its deadline is read back as zero. -/
theorem roundTrip_late :
    lateAction.validate textLibrary.toLibrary = [] ∧ lateAction.IsJson ∧
      ∃ w decoded, encodeAction textLibrary zeroUuid lateAction = .ok w ∧
        decodeAction textLibrary w = .ok decoded ∧ decoded.deadlineMs = 0 ∧
          ¬ ∃ decoded, decodeAction textLibrary w = .ok decoded ∧
            decoded.SameFields lateAction := by
  have hempty : (Value.ofEntries []).IsJson := ⟨List.nodup_nil, trivial⟩
  have hjson : lateAction.IsJson := ⟨hempty, hempty, hempty, hempty⟩
  have hok : (encodeAction textLibrary zeroUuid lateAction).isOk = true := by decide +kernel
  have ⟨w, hw⟩ := Outcome.isOk_iff.mp hok
  have ⟨frame, hframe⟩ := encodeAction_eq_ok hw
  have hdecoded : decodeAction textLibrary w = .ok frame.decoded := by
    rw [hframe]
    exact decodeAction_bytes textLibrary_invertsJson hjson frame
  refine ⟨by decide +kernel, hjson, w, frame.decoded, hw, hdecoded, rfl, ?_⟩
  intro ⟨decoded, hok, hsame⟩
  rw [hdecoded] at hok
  have hsame := (Outcome.ok.inj hok) ▸ hsame
  have hdeadline : ((0 : Nat) : Int) = 2 ^ 32 := hsame.deadlineMs
  exact absurd hdeadline (by decide)

end FastCodec

end Aicl.Semantic
