import Aicl.Semantic.EncodingErrors
import Aicl.Semantic.Envelope
import Aicl.Semantic.FastActionCodec
import Aicl.Semantic.Mediation

/-!
# Requests and their responses

From {lit}`action_to_bytes` of one adapter over {lit}`bytes_to_observation` and
{lit}`observation_to_request` of another one to its {lit}`result_to_bytes`, and back to the
first.  The session of the frame of an action becomes the trace of what is observed of it,
the correlation of the request that is built from that, and the correlation identifier of
the frame of the result.  {lit}`upper` is {lit}`str.upper`.

Main results:

- Definition {lit}`observationOf`: what is observed of the frame of a packet.
- Theorem {lit}`bytesToObservation_encode`: every adapter observes it or raises.
- Theorem {lit}`reply_reaches_action`: the response to an action leads back to it.
-/

namespace Aicl.Semantic

open Bin (Symbol Packet PacketView IsExtension Shows maxTlvValueSize readOr decodeUtf8 extBytes)
open Isa.Frame

/-! ## Requests to a model -/

/-- Outbound request to a model. -/
structure ModelRequest where
  targetModel : Value
  task : Utf8String
  prompt : Utf8String := .empty
  inputs : Entries := []
  params : Entries := []
  maxTokens : Int := 512
  temperature : UInt64 := 0x3FE6666666666666
  stop : List Utf8String := []
  stream : Bool := false
  grammar : Option Utf8String := none
  correlationId : Utf8String := .empty
  deadlineMs : Nat := 0
  metadata : List (Utf8String × Utf8String) := []

/-- The line of an input in a prompt. -/
def promptLine (lib : Library) (e : Utf8String × Value) : SemResult Utf8String := do
  let text ← match e.2 with
    | .str text => pure text
    | value => lib.dumps value
  pure ((e.1.append (.ofAscii ": ")).append text)

/-- The lines of the inputs. -/
def promptLines (lib : Library) : Entries → SemResult (List Utf8String)
  | [] => pure []
  | e :: inputs => do
      let line ← promptLine lib e
      let lines ← promptLines lib inputs
      pure (line :: lines)

/-- {lit}`"\n".join(lines)`. -/
def joinLines : List Utf8String → Utf8String
  | [] => .empty
  | [line] => line
  | line :: lines => (line.append (.ofAscii "\n")).append (joinLines lines)

/-- The prompt of the inputs; a text that is no string is not joined. -/
def promptOf (lib : Library) (inputs : Entries) : SemResult Utf8String :=
  match (Dict.get? textKey inputs).filter Value.truthy with
  | some (.str text) => pure text
  | some _ => .err (.builtin "TypeError")
  | none => do
      let lines ← promptLines lib inputs
      pure (joinLines lines)

/-- {lit}`observation_to_request`; of a grammar its BNF is used. -/
def observationToRequest (lib : Library) (upper : Utf8String → Utf8String) (obs : ModelObservation)
    (modelName : Utf8String) (grammar : Option Utf8String) : SemResult ModelRequest := do
  let prompt ← promptOf lib obs.inputs
  pure
    { targetModel :=
        if modelName.length ≠ 0 then .str modelName
        else (Dict.get? (.ofAscii "model") obs.context).getD (.str .empty)
      task := if obs.task.length ≠ 0 then upper obs.task else .ofAscii "GENERATE"
      prompt
      inputs := obs.inputs
      params := obs.params
      grammar
      correlationId := obs.traceId
      deadlineMs := obs.deadlineMs
      metadata := obs.metadata }

/-! ## Observations of packets -/

section Shown

variable {p : Packet} {checksum : Bool} {exts : List Symbol} {v : PacketView}

/-- A text is returned. -/
theorem text_of_shows (h : Shows p checksum exts v) (hexts : p.appendExtensions = .ok exts)
    (hplain : ∀ s ∈ p.symbols, ¬ IsExtension s) (i : Nat) {tag : UInt8} {text : Utf8String}
    (hi : p.extensionSteps[i]? = some (tag, extBytes tag (some text.bytes))) :
    readOr .empty decodeUtf8 (v.extOne tag) = .ok text := by
  have hone : v.extOne tag = if (!text.bytes.isEmpty) = true then some text.bytes else none :=
    h.extOne_of_ok hexts hplain i hi
  rw [hone]
  cases htext : text.bytes with
  | nil => exact congrArg _ (Utf8String.ext_bytes htext.symm)
  | cons b bs =>
      have hwritten : (!(b :: bs).isEmpty) = true := rfl
      have hempty : decodeUtf8 [] = .ok .empty := rfl
      rw [if_pos hwritten, ← htext, Bin.readOr_of_empty hempty, Bin.decodeUtf8_bytes]

/-- What is observed of the frame of a packet. -/
def observationOf (p : Packet) : ModelObservation where
  task := p.intent
  context := [(.ofAscii "intent", .str p.intent)]
  inputs := []
  params := []
  schemaId := p.schemaId
  traceId := hexText p.sessionId
  origin := match p.origin with
    | some identity => identity.name
    | none => .empty
  confidence := p.confidence
  deadlineMs := p.deadlineMs.toNat
  metadata := p.metadata

/-- The observation of a view of a packet. -/
theorem viewToObservation_of_shows (lib : Library) (h : Shows p checksum exts v)
    (hexts : p.appendExtensions = .ok exts) (hplain : ∀ s ∈ p.symbols, ¬ IsExtension s) :
    viewToObservation lib v = .ok (observationOf p) := by
  have hschema : v.schemaId = .ok p.schemaId := text_of_shows h hexts hplain 17 rfl
  have hdeadline : v.deadlineMs = p.deadlineMs.toNat := by rw [← h.deadlineMs, Int.toNat_natCast]
  unfold viewToObservation observationOf
  rw [h.intent_eq hexts hplain, h.metadata_eq hexts hplain, hschema, h.origin_eq hexts hplain,
    h.confidence_eq hexts hplain, h.sessionId_eq hexts hplain, hdeadline]
  simp only [liftBin, readSymbols_symbols, Outcome.ok_bind]
  rfl

end Shown

variable {σ τ : Type} {crc32 : Bytes → UInt32} {lib : Library}

/-- An adapter that reads the frame of a packet observes the packet, as soon as the frame
can be decoded and the gate allows its view. -/
theorem bytesToObservation_encode {p : Packet} {checksum : Bool} {frame : Bytes}
    (hplain : ∀ s ∈ p.symbols, ¬ IsExtension s) (hencode : Bin.encode crc32 p checksum = .ok frame)
    (self : SemanticAdapter σ) (g : σ) (obs : ModelObservation) :
    (self.bytesToObservation crc32 lib frame g).1 = .ok obs ↔
      obs = observationOf p ∧ ∃ v, Bin.decode crc32 frame = .ok v ∧
        allows (self.gate.checkInbound v g).1 = true := by
  have hread : ∀ v, Bin.decode crc32 frame = .ok v →
      viewToObservation lib v = .ok (observationOf p) := by
    intro v hv
    obtain ⟨exts, hexts, hshows⟩ := Bin.shows_of_decode hencode hv
    exact viewToObservation_of_shows lib hshows hexts hplain
  constructor
  · intro h
    obtain ⟨v, hv, hview⟩ := bytesToObservation_eq_ok h
    rw [SemanticAdapter.packetViewToObservation_eq] at hview
    obtain ⟨hallows, hview⟩ := required_eq_ok_iff.mp hview
    rw [hread v hv] at hview
    exact ⟨(Outcome.ok.inj hview).symm, v, hv, hallows⟩
  · rintro ⟨rfl, v, hv, hallows⟩
    rw [SemanticAdapter.bytesToObservation_of_decode hv,
      SemanticAdapter.packetViewToObservation_eq]
    exact required_eq_ok_iff.mpr ⟨hallows, hread v hv⟩

/-! ## The frame of an action -/

/-- An action that becomes a packet is valid. -/
theorem validate_of_actionToPacket {self : SemanticAdapter σ} {sessionId messageId : UuidBytes}
    {action : ModelAction} {g : σ} {p : Packet}
    (h : (self.actionToPacket lib sessionId messageId action g).1 = .ok p) :
    action.validate lib = [] := by
  by_contra hinvalid
  rw [SemanticAdapter.actionToPacket_of_invalid hinvalid] at h
  cases h

/-- What the packet of an action tells apart from the envelope. -/
theorem buildPacket_context {self : SemanticAdapter σ} {sessionId messageId : UuidBytes}
    {action : ModelAction} {p : Packet}
    (h : self.buildPacket lib sessionId messageId action = .ok p) :
    p.sessionId = sessionId.val ∧ p.origin = some self.identity ∧ p.schemaId = .empty ∧
      p.metadata =
        metadataOf lib [(semanticIntentKey, .str action.intent.text)] action.metadata := by
  obtain ⟨symbols, _, h⟩ := Outcome.bind_eq_ok_iff.mp h
  obtain ⟨id, _, h⟩ := Outcome.bind_eq_ok_iff.mp h
  obtain ⟨tool, _, h⟩ := Outcome.bind_eq_ok_iff.mp h
  obtain ⟨model, _, h⟩ := Outcome.bind_eq_ok_iff.mp h
  cases h
  exact ⟨rfl, rfl, rfl, rfl⟩

/-- What is observed of an action that an adapter sends. -/
def actionObservation (lib : Library) (sender : SemanticAdapter σ) (sessionId : UuidBytes)
    (action : ModelAction) : ModelObservation where
  task := action.intent.text
  context := [(.ofAscii "intent", .str action.intent.text)]
  inputs := []
  params := []
  schemaId := .empty
  traceId := hexText sessionId.val
  origin := sender.origin
  confidence := action.confidence
  deadlineMs := action.deadlineMs.toNat
  metadata := metadataOf lib [(semanticIntentKey, .str action.intent.text)] action.metadata

/-- The observation of the packet of an action. -/
theorem observationOf_buildPacket {self : SemanticAdapter σ} {sessionId messageId : UuidBytes}
    {action : ModelAction} {p : Packet}
    (h : self.buildPacket lib sessionId messageId action = .ok p) :
    observationOf p = actionObservation lib self sessionId action := by
  have hpacket := buildPacket_eq_ok h
  have ⟨hsession, horigin, hschema, hmetadata⟩ := buildPacket_context h
  unfold observationOf actionObservation
  rw [hsession, horigin, hschema, hmetadata, hpacket.intent, hpacket.confidence,
    hpacket.deadlineMs]
  rfl

/-- The request that is built from it. -/
theorem observationToRequest_action (upper : Utf8String → Utf8String) (sender : SemanticAdapter σ)
    (sessionId : UuidBytes) (action : ModelAction) (modelName : Utf8String)
    (grammar : Option Utf8String) :
    observationToRequest lib upper (actionObservation lib sender sessionId action) modelName grammar =
      .ok
        { targetModel := .str modelName
          task := upper action.intent.text
          grammar
          correlationId := hexText sessionId.val
          deadlineMs := action.deadlineMs.toNat
          metadata :=
            metadataOf lib [(semanticIntentKey, .str action.intent.text)] action.metadata } := by
  have htask : (actionObservation lib sender sessionId action).task.length ≠ 0 := by
    change action.intent.text.length ≠ 0
    cases action.intent <;> decide
  have hcontext : Dict.get? (.ofAscii "model")
      (actionObservation lib sender sessionId action).context = none := rfl
  have hname : (if modelName.length ≠ 0 then Value.str modelName else .str .empty) =
      .str modelName := by
    by_cases hempty : modelName.length ≠ 0
    · exact if_pos hempty
    · have hnil : modelName = .empty :=
        Utf8String.ext_bytes (List.length_eq_zero_iff.mp (not_not.mp hempty))
      rw [if_neg hempty, hnil]
  have hprompt : promptOf lib (actionObservation lib sender sessionId action).inputs =
      .ok .empty := rfl
  unfold observationToRequest
  rw [hcontext, Option.getD_none, hname, hprompt, Outcome.ok_bind, if_pos htask]
  rfl

/-! ## The frame of a result -/

/-- The fields of the packet of a result. -/
structure ResponseOf (lib : Library) (server : SemanticAdapter σ) (sessionId : UuidBytes)
    (correlationId : UuidBytes) (result : ModelResult) (p : Packet) : Prop where
  flags : p.flags = 0x0002
  sessionId : p.sessionId = sessionId.val
  correlationId : p.correlationId = correlationId.val
  origin : p.origin = some server.identity
  operation : p.operation = result.intent.toOpcode
  intent : p.intent = result.intent.text
  symbols : ∃ output, SemanticAdapter.outputSymbols lib result.output = .ok output ∧
    p.symbols = output ++ SemanticAdapter.errorSymbols result.error
  confidence : p.confidence = result.confidence
  deadlineMs : p.deadlineMs = 0
  errorInfo : p.errorInfo =
    (result.error.filter fun text => decide (text.length ≠ 0)).map fun text =>
      { errorCode := 0x0001, severity := 1, message := text }
  schemaId : p.schemaId = .empty
  metadata : p.metadata =
    metadataOf lib (SemanticAdapter.responseMetadata result) result.metadata

/-- What is sent for a result is the frame of its packet. -/
theorem encode_of_resultToBytes {self : SemanticAdapter σ} {sessionId messageId id : UuidBytes}
    {result : ModelResult} {correlationId : Utf8String} {g : σ} {reply : Bytes}
    (hid : correlationBytes lib correlationId = .ok id)
    (h : (self.resultToBytes crc32 lib sessionId messageId result correlationId none g).1 =
      .ok reply) :
    ∃ p, ResponseOf lib self sessionId id result p ∧ Bin.encode crc32 p false = .ok reply := by
  obtain ⟨p, hp, hencode⟩ := Outcome.bind_eq_ok_iff.mp h
  refine ⟨p, ?_, liftBin_eq_ok_iff.mp hencode⟩
  obtain ⟨output, houtput, hp⟩ := Outcome.bind_eq_ok_iff.mp hp
  obtain ⟨id', hid', hp⟩ := Outcome.bind_eq_ok_iff.mp hp
  obtain rfl : id = id' := Outcome.ok.inj (hid.symm.trans hid')
  cases hp
  exact
    { flags := rfl
      sessionId := rfl
      correlationId := rfl
      origin := rfl
      operation := rfl
      intent := rfl
      symbols := ⟨output.val, Outcome.attach_eq_ok_iff.mp houtput, rfl⟩
      confidence := rfl
      deadlineMs := rfl
      errorInfo := rfl
      schemaId := rfl
      metadata := rfl }

/-- What a response shows: the session of the action that it answers, and the result. -/
structure Answers (lib : Library) (server : SemanticAdapter σ) (sessionId : UuidBytes)
    (result : ModelResult) (v : PacketView) : Prop where
  operation : (v.operation : Int) = result.intent.toOpcode
  flags : v.flags = 0x0002
  correlationId : v.correlationId = sessionId.val
  intent : v.intent = .ok result.intent.text
  origin : v.origin = .ok (some server.identity)
  symbols : ∃ output, SemanticAdapter.outputSymbols lib result.output = .ok output ∧
    v.symbols = output ++ SemanticAdapter.errorSymbols result.error
  confidence : v.confidence = .ok result.confidence
  errorInfo : v.errorInfo = .ok ((result.error.filter fun text => decide (text.length ≠ 0)).map
    fun text => { errorCode := 0x0001, severity := 1, message := text })
  metadata : v.metadata =
    .ok (metadataOf lib (SemanticAdapter.responseMetadata result) result.metadata)

section Response

variable {self : SemanticAdapter σ} {sessionId correlationId : UuidBytes} {result : ModelResult}
  {p : Packet} (h : ResponseOf lib self sessionId correlationId result p)

include h

/-- The symbols of the packet of a result are strings. -/
theorem ResponseOf.strings : ∀ s ∈ p.symbols, ∃ text, s = .string text := by
  obtain ⟨output, houtput, hsymbols⟩ := h.symbols
  rw [hsymbols]
  intro s hs
  rcases List.mem_append.mp hs with hs | hs
  · exact outputSymbols_strings houtput s hs
  · exact errorSymbols_strings result.error s hs

/-- They are no vendor operands. -/
theorem ResponseOf.plain : ∀ s ∈ p.symbols, ¬ IsExtension s := by
  intro s hs hext
  obtain ⟨text, rfl⟩ := h.strings s hs
  rcases hext with ⟨tag, data, heq, _⟩
  cases heq

/-- The view of a response. -/
theorem ResponseOf.answers {exts : List Symbol} {v : PacketView} (hshows : Shows p false exts v)
    (hexts : p.appendExtensions = .ok exts) : Answers lib self correlationId result v := by
  have hrounded : Bin.roundedItems p.symbols = p.symbols := by
    rw [Bin.roundedItems_eq_map]
    refine (List.map_congr_left fun s hs => ?_).trans (List.map_id _)
    obtain ⟨text, rfl⟩ := h.strings s hs
    rfl
  have hopcode : (p.opcodeByte.toNat : Int) = result.intent.toOpcode := by
    rw [p.opcodeByte_toNat, h.operation]
    cases result.intent <;> rfl
  have herror : p.errorInfo.map Bin.ErrorInfo.identified = p.errorInfo := by
    rw [h.errorInfo, Option.map_map]
    rfl
  have hflags : (v.flags : Int) = 0x0002 := by
    rw [hshows.flags, Bin.wireFlags, h.flags]
    rfl
  constructor
  · rw [hshows.operation, hopcode]
  · exact Int.ofNat_inj.mp hflags
  · exact hshows.correlationId.trans h.correlationId
  · rw [hshows.intent_eq hexts h.plain, h.intent]
  · rw [hshows.origin_eq hexts h.plain, h.origin]
  · obtain ⟨output, houtput, hsymbols⟩ := h.symbols
    exact ⟨output, houtput, by rw [hshows.symbols_eq h.plain, hrounded, hsymbols]⟩
  · rw [hshows.confidence_eq hexts h.plain, h.confidence]
  · rw [hshows.errorInfo_eq hexts h.plain, herror, h.errorInfo]
  · rw [hshows.metadata_eq hexts h.plain, h.metadata]

end Response

/-- What is observed of a result that an adapter sends. -/
def resultObservation (lib : Library) (server : SemanticAdapter σ) (sessionId : UuidBytes)
    (result : ModelResult) : ModelObservation where
  task := result.intent.text
  context := [(.ofAscii "intent", .str result.intent.text)]
  inputs := []
  params := []
  schemaId := .empty
  traceId := hexText sessionId.val
  origin := server.origin
  confidence := result.confidence
  deadlineMs := 0
  metadata := metadataOf lib (SemanticAdapter.responseMetadata result) result.metadata

/-- The observation of the packet of a result. -/
theorem ResponseOf.observation {self : SemanticAdapter σ} {sessionId correlationId : UuidBytes}
    {result : ModelResult} {p : Packet} (h : ResponseOf lib self sessionId correlationId result p) :
    observationOf p = resultObservation lib self sessionId result := by
  unfold observationOf resultObservation
  rw [h.intent, h.schemaId, h.sessionId, h.origin, h.confidence, h.deadlineMs, h.metadata]
  rfl

/-! ## Correlation -/

/-- {lit}`uuid.UUID` reads the digits of sixteen bytes. -/
def Library.ReadsHex (lib : Library) : Prop := ∀ id : UuidBytes, lib.uuid (hexText id.val) = .ok id

/-- The identifier that a response gets from a trace. -/
theorem correlationBytes_hexText (hlib : lib.ReadsHex) (id : UuidBytes) :
    correlationBytes lib (hexText id.val) = .ok id := by
  have hlength : (hexText id.val).length ≠ 0 := by
    rw [Utf8String.length, FastAction.hexText_bytes, Hex.ofBytes_length, id.property]
    decide
  rw [correlationBytes, if_neg hlength, hlib id]

/-- An action that one adapter sends and another one observes becomes a request whose
result, whenever its frame is sent, answers that action: the frame names the session of the
action, and the first adapter observes the result as soon as its gate allows the view. -/
theorem reply_reaches_action (crc32 : Bytes → UInt32) (hlib : lib.ReadsHex)
    (upper : Utf8String → Utf8String) (client : SemanticAdapter σ) (server : SemanticAdapter τ)
    (sessionId messageId : UuidBytes) (action : ModelAction) (checksum : Bool) (g : σ) (h : τ)
    {frame : Bytes}
    (hsent : (client.actionToBytes crc32 lib sessionId messageId action checksum g).1 = .ok frame)
    {obs : ModelObservation} (hobs : (server.bytesToObservation crc32 lib frame h).1 = .ok obs)
    (modelName : Utf8String) (grammar : Option Utf8String) :
    obs = actionObservation lib client sessionId action ∧
      ∃ request, observationToRequest lib upper obs modelName grammar = .ok request ∧
        request.task = upper action.intent.text ∧
        (request.deadlineMs : Int) = action.deadlineMs ∧
        ∀ (replySession replyId : UuidBytes) (result : ModelResult) (h' : τ) {reply : Bytes},
          (server.resultToBytes crc32 lib replySession replyId result request.correlationId none
            h').1 = .ok reply →
          ((∃ v, Bin.decode crc32 reply = .ok v) ↔ payloadLen reply ≤ maxTlvValueSize) ∧
            ∀ v, Bin.decode crc32 reply = .ok v → Answers lib server sessionId result v ∧
              ∀ g', allows (client.gate.checkInbound v g').1 = true →
                (client.bytesToObservation crc32 lib reply g').1 =
                  .ok (resultObservation lib server replySession result) := by
  obtain ⟨p, hp, hencode⟩ := SemanticAdapter.actionToBytes_eq_ok hsent
  have hvalid := validate_of_actionToPacket hp
  have hbuild := (SemanticAdapter.actionToPacket_eq_ok hp).2
  have hplain := (buildPacket_eq_ok hbuild).plain
  have hobserved : obs = actionObservation lib client sessionId action := by
    have hpacket := ((bytesToObservation_encode hplain hencode server h obs).mp hobs).1
    rw [hpacket, observationOf_buildPacket hbuild]
  refine ⟨hobserved, ?_⟩
  rw [hobserved, observationToRequest_action]
  refine ⟨_, rfl, rfl, Int.toNat_of_nonneg (deadlineMs_nonneg hvalid), ?_⟩
  intro replySession replyId result h' reply hreply
  obtain ⟨q, hq, hencode⟩ := encode_of_resultToBytes (correlationBytes_hexText hlib sessionId) hreply
  refine ⟨Bin.decode_isOk_iff hencode, ?_⟩
  intro v hv
  obtain ⟨exts, hexts, hshows⟩ := Bin.shows_of_decode hencode hv
  refine ⟨hq.answers hshows hexts, ?_⟩
  intro g' hallows
  exact (bytesToObservation_encode hq.plain hencode client g' _).mpr
    ⟨hq.observation.symm, v, hv, hallows⟩

/-- A library that reads identifiers. -/
def uuidLibrary : Library := { SemanticAdapter.zeroLibrary with uuid := FastCodec.parseUuid }

/-- The digits of sixteen bytes are read. -/
theorem uuidLibrary_readsHex : uuidLibrary.ReadsHex := by
  intro id
  have hdigits : (hexText id.val).bytes.filter (· ≠ 0x2D) = Hex.ofBytes id.val := by
    rw [FastAction.hexText_bytes]
    refine List.filter_eq_self.mpr (Hex.forall_mem_ofBytes (fun n hn => ?_) id.val)
    exact decide_eq_true (Hex.digit_spec hn).2.2.2
  show FastCodec.parseUuid (hexText id.val) = .ok id
  rw [FastCodec.parseUuid, hdigits, Hex.parse_ofBytes]
  exact dif_pos id.property

/-- The session of a request. -/
def requestSession : UuidBytes := ⟨List.replicate 16 0x07, rfl⟩

/-- A request to generate, and its result. -/
theorem reply_reaches_action_generate :
    ∃ frame obs request reply v,
      (SemanticAdapter.actionToBytes { gate := allowAllGate } Crc32.ieee uuidLibrary requestSession
        zeroUuid generateAction false ()).1 = .ok frame ∧
      (SemanticAdapter.bytesToObservation { gate := allowAllGate } Crc32.ieee uuidLibrary frame
        ()).1 = .ok obs ∧
      observationToRequest uuidLibrary id obs .empty none = .ok request ∧
      (SemanticAdapter.resultToBytes { gate := allowAllGate } Crc32.ieee uuidLibrary zeroUuid
        zeroUuid SemanticAdapter.generateResult request.correlationId none ()).1 = .ok reply ∧
      Bin.decode Crc32.ieee reply = .ok v ∧
      Answers uuidLibrary { gate := allowAllGate : SemanticAdapter Unit } requestSession
        SemanticAdapter.generateResult v := by
  have hsent : (do
      let frame ← (SemanticAdapter.actionToBytes { gate := allowAllGate } Crc32.ieee uuidLibrary
        requestSession zeroUuid generateAction false ()).1
      liftBin (Bin.decode Crc32.ieee frame)).isOk = true := by
    decide +kernel
  obtain ⟨w, hrun⟩ := Outcome.isOk_iff.mp hsent
  obtain ⟨frame, hframe, hw⟩ := Outcome.bind_eq_ok_iff.mp hrun
  obtain ⟨p, hp, hencode⟩ := encode_of_actionToBytes hframe
  have hobs : (SemanticAdapter.bytesToObservation { gate := allowAllGate } Crc32.ieee uuidLibrary
      frame ()).1 = .ok (observationOf p) :=
    (bytesToObservation_encode hp.plain hencode _ () _).mpr
      ⟨rfl, w, liftBin_eq_ok_iff.mp hw, rfl⟩
  have ⟨hobserved, request, hrequest, _, _, hreplies⟩ := reply_reaches_action Crc32.ieee
    uuidLibrary_readsHex id { gate := allowAllGate } { gate := allowAllGate } requestSession zeroUuid
    generateAction false () () hframe hobs .empty none
  have hcorrelation : request.correlationId = hexText requestSession.val := by
    rw [hobserved, observationToRequest_action] at hrequest
    rw [← Outcome.ok.inj hrequest]
  have hanswered : (do
      let reply ← (SemanticAdapter.resultToBytes { gate := allowAllGate } Crc32.ieee uuidLibrary
        zeroUuid zeroUuid SemanticAdapter.generateResult (hexText requestSession.val) none ()).1
      liftBin (Bin.decode Crc32.ieee reply)).isOk = true := by
    decide +kernel
  rw [← hcorrelation] at hanswered
  obtain ⟨v, hrun⟩ := Outcome.isOk_iff.mp hanswered
  obtain ⟨reply, hreply, hv⟩ := Outcome.bind_eq_ok_iff.mp hrun
  have hv := liftBin_eq_ok_iff.mp hv
  exact ⟨frame, _, request, reply, v, hframe, hobs, hrequest, hreply, hv,
    ((hreplies zeroUuid zeroUuid SemanticAdapter.generateResult () hreply).2 v hv).1⟩

end Aicl.Semantic
