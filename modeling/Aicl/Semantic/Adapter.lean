import Aicl.Bin.Views
import Aicl.Semantic.Types

/-!
# The model adapter

{lit}`SemanticAdapter` of {lit}`aicl/semantic/adapter.py`: from actions and results
of a model to packets and frames, and from frames to observations.  A gate may
keep state of its own and may raise; every method takes the state of the gate and
returns the one it leaves.  The identifiers that {lit}`uuid4` makes are arguments.

Main definitions:

- Definition {lit}`SemanticAdapter.actionToPacket`: the outbound pipeline.
- Definition {lit}`SemanticAdapter.bytesToObservation`: the inbound pipeline.
- Definition {lit}`SemanticAdapter.resultToBytes`: the response of a model.
-/

namespace Aicl.Semantic

open Bin (Symbol Packet PacketView)

/-! ## Gates -/

/-- Result of a gate check; the audit entry is not looked at. -/
structure GateResult where
  allowed : Bool
  reason : String := ""

/-- A gate with its state: each check returns or raises. -/
structure GateCheck (σ : Type) where
  checkOutbound : ModelAction → σ → SemResult GateResult × σ
  checkInbound : PacketView → σ → SemResult GateResult × σ

/-- {lit}`_AllowAllGate`. -/
def allowAllGate : GateCheck Unit where
  checkOutbound _ g := (.ok { allowed := true }, g)
  checkInbound _ g := (.ok { allowed := true }, g)

/-- What follows a check: {lit}`if not gate_result.allowed: raise SemanticError(…)`. -/
def GateResult.require (message : String) (result : GateResult) : SemResult Unit :=
  Outcome.failIf (result.allowed = false) (.semanticError (message ++ result.reason))

/-! ## Symbols -/

mutual

/-- {lit}`_to_binary_symbol`. -/
def toBinarySymbol (lib : Library) : Value → SemResult Symbol
  | .str value => pure (.string value)
  | .bool value => pure (.bool value)
  | .int value => pure (.int .i64 value)
  | .float value => pure (.f64 value)
  | .list items => do
      let symbols ← toBinarySymbols lib items
      pure (.list symbols)
  | .dict entries => do
      let text ← lib.dumpsCompact (.dict entries)
      pure (.string text)
  | .null => pure .null
  | .object text _ => pure (.string text)

/-- The items of a list. -/
def toBinarySymbols (lib : Library) : List Value → SemResult (List Symbol)
  | [] => pure []
  | item :: items => do
      let symbol ← toBinarySymbol lib item
      let symbols ← toBinarySymbols lib items
      pure (symbol :: symbols)

end

/-- {lit}`"text"`. -/
def textKey : Utf8String := .ofAscii "text"

/-- The symbol of the text input, if there is one that is not empty. -/
def textSymbols (lib : Library) (inputs : Entries) : SemResult (List Symbol) :=
  match Dict.get? textKey inputs with
  | some value =>
      if value.truthy then do
        let symbol ← toBinarySymbol lib value
        pure [symbol]
      else pure []
  | none => pure []

/-- The one symbol of a dictionary, unless it is empty. -/
def dictSymbols (lib : Library) (entries : Entries) : SemResult (List Symbol) :=
  if entries.isEmpty then pure []
  else do
    let symbol ← toBinarySymbol lib (.ofEntries entries)
    pure [symbol]

/-- {lit}`_build_symbols`. -/
def buildSymbols (lib : Library) (action : ModelAction) : SemResult (List Symbol) := do
  let text ← textSymbols lib action.inputs
  let others ← toBinarySymbols lib ((action.inputs.filter fun e => e.1 ≠ textKey).map Prod.snd)
  let params ← dictSymbols lib action.params
  let result ← dictSymbols lib action.result
  pure (text ++ (others ++ (params ++ result)))

mutual

/-- A symbol of a value is well formed. -/
theorem toBinarySymbol_wellFormed (lib : Library) : ∀ (value : Value) {s : Symbol},
    toBinarySymbol lib value = .ok s → s.All Symbol.WellFormed
  | .str _, s, h => by
      cases h
      exact Symbol.All.of_leaf trivial trivial
  | .bool _, s, h => by
      cases h
      exact Symbol.All.of_leaf trivial trivial
  | .int _, s, h => by
      cases h
      exact Symbol.All.of_leaf trivial trivial
  | .float _, s, h => by
      cases h
      exact Symbol.All.of_leaf trivial trivial
  | .list items, s, h => by
      rw [toBinarySymbol] at h
      obtain ⟨symbols, hsymbols, h⟩ := Outcome.bind_eq_ok_iff.mp h
      cases h
      exact Symbol.all_list_iff.mpr ⟨trivial, toBinarySymbols_wellFormed lib items hsymbols⟩
  | .dict entries, s, h => by
      rw [toBinarySymbol] at h
      obtain ⟨text, _, h⟩ := Outcome.bind_eq_ok_iff.mp h
      cases h
      exact Symbol.All.of_leaf trivial trivial
  | .null, s, h => by
      cases h
      exact Symbol.All.of_leaf trivial trivial
  | .object _ _, s, h => by
      cases h
      exact Symbol.All.of_leaf trivial trivial

/-- The symbols of values are well formed. -/
theorem toBinarySymbols_wellFormed (lib : Library) : ∀ (values : List Value) {ss : List Symbol},
    toBinarySymbols lib values = .ok ss → ∀ s ∈ ss, s.All Symbol.WellFormed
  | [], ss, h => by
      cases h
      simp
  | item :: items, ss, h => by
      rw [toBinarySymbols] at h
      obtain ⟨symbol, hsymbol, h⟩ := Outcome.bind_eq_ok_iff.mp h
      obtain ⟨symbols, hsymbols, h⟩ := Outcome.bind_eq_ok_iff.mp h
      cases h
      exact List.forall_mem_cons.mpr ⟨toBinarySymbol_wellFormed lib item hsymbol,
        toBinarySymbols_wellFormed lib items hsymbols⟩

end

/-- Every symbol of a list of values is the symbol of a value. -/
theorem forall_toBinarySymbols {lib : Library} {P : Symbol → Prop}
    (hP : ∀ value s, toBinarySymbol lib value = .ok s → P s) {values : List Value}
    {ss : List Symbol} (h : toBinarySymbols lib values = .ok ss) : ∀ s ∈ ss, P s := by
  induction values generalizing ss with
  | nil =>
      cases h
      simp
  | cons item items ih =>
      rw [toBinarySymbols] at h
      obtain ⟨symbol, hsymbol, h⟩ := Outcome.bind_eq_ok_iff.mp h
      obtain ⟨symbols, hsymbols, h⟩ := Outcome.bind_eq_ok_iff.mp h
      cases h
      exact List.forall_mem_cons.mpr ⟨hP item symbol hsymbol, ih hsymbols⟩

/-- The symbol of a dictionary is the symbol of a value. -/
theorem forall_dictSymbols {lib : Library} {P : Symbol → Prop}
    (hP : ∀ value s, toBinarySymbol lib value = .ok s → P s) {entries : Entries}
    {ss : List Symbol} (h : dictSymbols lib entries = .ok ss) : ∀ s ∈ ss, P s := by
  unfold dictSymbols at h
  split at h
  next =>
    cases h
    simp
  next =>
    obtain ⟨symbol, hsymbol, h⟩ := Outcome.bind_eq_ok_iff.mp h
    cases h
    exact List.forall_mem_singleton.mpr (hP _ symbol hsymbol)

/-- The symbol of the text input is the symbol of a value. -/
theorem forall_textSymbols {lib : Library} {P : Symbol → Prop}
    (hP : ∀ value s, toBinarySymbol lib value = .ok s → P s) {inputs : Entries}
    {ss : List Symbol} (h : textSymbols lib inputs = .ok ss) : ∀ s ∈ ss, P s := by
  unfold textSymbols at h
  split at h
  next value _ =>
    split at h
    next =>
      obtain ⟨symbol, hsymbol, h⟩ := Outcome.bind_eq_ok_iff.mp h
      cases h
      exact List.forall_mem_singleton.mpr (hP value symbol hsymbol)
    next =>
      cases h
      simp
  next =>
    cases h
    simp

/-- Every symbol of an action is the symbol of a value. -/
theorem forall_buildSymbols {lib : Library} {P : Symbol → Prop}
    (hP : ∀ value s, toBinarySymbol lib value = .ok s → P s) {action : ModelAction}
    {ss : List Symbol} (h : buildSymbols lib action = .ok ss) : ∀ s ∈ ss, P s := by
  obtain ⟨text, htext, h⟩ := Outcome.bind_eq_ok_iff.mp h
  obtain ⟨others, hothers, h⟩ := Outcome.bind_eq_ok_iff.mp h
  obtain ⟨params, hparams, h⟩ := Outcome.bind_eq_ok_iff.mp h
  obtain ⟨result, hresult, h⟩ := Outcome.bind_eq_ok_iff.mp h
  cases h
  simp only [List.forall_mem_append]
  exact ⟨forall_textSymbols hP htext, forall_toBinarySymbols hP hothers,
    forall_dictSymbols hP hparams, forall_dictSymbols hP hresult⟩

/-- The symbols of an action are well formed. -/
theorem buildSymbols_wellFormed {lib : Library} {action : ModelAction} {ss : List Symbol}
    (h : buildSymbols lib action = .ok ss) : ∀ s ∈ ss, s.All Symbol.WellFormed :=
  forall_buildSymbols (fun value _ hs => toBinarySymbol_wellFormed lib value hs) h

/-! ## Packets of actions -/

/-- A field that has to be a text.  The source raises when the packet is encoded. -/
def textField : Value → SemResult Utf8String
  | .str value => pure value
  | _ => .err (.builtin "AttributeError")

/-- A field that has to be a number.  The source raises when the packet is encoded. -/
def intField : Value → SemResult Int
  | .int value => pure value
  | .bool value => pure (if value then 1 else 0)
  | _ => .err (.bin .structError)

/-- The {lit}`timeout_ms` of parameters. -/
def timeoutField (params : Entries) : SemResult Int :=
  intField ((Dict.get? (.ofAscii "timeout_ms") params).getD (.int 5000))

/-- The tool invocation of an action. -/
def toolInvocationOf (lib : Library) (action : ModelAction) :
    SemResult (Option Bin.ToolInvocation) :=
  let name := (Dict.get? toolNameKey action.params).getD .null
  if action.intent = .callTool ∧ name.truthy then do
    let toolName ← textField name
    let parametersJson ←
      lib.dumps ((Dict.get? (.ofAscii "parameters") action.params).getD (.dict []))
    let timeoutMs ← timeoutField action.params
    pure (some { toolName, parametersJson, timeoutMs })
  else pure none

/-- The model invocation of an action. -/
def modelInvocationOf (lib : Library) (action : ModelAction) :
    SemResult (Option Bin.ModelInvocation) :=
  if action.intent = .callModel ∧ action.target.length ≠ 0 then do
    let task ← textField ((Dict.get? (.ofAscii "task") action.params).getD (.str action.intent.text))
    let parametersJson ← lib.dumps (.ofEntries action.params)
    let timeoutMs ← timeoutField action.params
    pure (some { modelName := action.target, task, parametersJson, timeoutMs })
  else pure none

/-- {lit}`b"\x00" * 16`. -/
def zeroUuid : UuidBytes := ⟨List.replicate 16 0, Isa.Frame.zeroId_length⟩

/-- The bytes of a correlation identifier, zeros when it is empty. -/
def correlationBytes (lib : Library) (correlationId : Utf8String) : SemResult UuidBytes :=
  if correlationId.length = 0 then pure zeroUuid else lib.uuid correlationId

/-- The metadata of a packet: a dictionary display with another unpacked at its
end, with the texts of its values. -/
def metadataOf (lib : Library) (base extra : Entries) : List (Utf8String × Utf8String) :=
  (Dict.ofEntries (base ++ extra)).map fun e => (e.1, lib.text e.2)

/-- Metadata have no key twice. -/
theorem metadataOf_nodupKeys (lib : Library) (base extra : Entries) :
    Dict.NodupKeys (metadataOf lib base extra) := by
  rw [Dict.NodupKeys, metadataOf, List.map_map]
  exact Dict.ofEntries_nodupKeys (base ++ extra)

/-- {lit}`"semantic_intent"`. -/
def semanticIntentKey : Utf8String := .ofAscii "semantic_intent"

/-- The flags of an action, as the adapter writes them. -/
def ModelAction.flags (action : ModelAction) : Nat :=
  let flags := 0x0001
  let flags := if action.stream then flags ||| 0x0080 else flags
  if action.cancel then flags ||| 0x0020 else flags

/-! ## The adapter -/

/-- The adapter: the name of its origin, its gate and its type of identity. -/
structure SemanticAdapter (σ : Type) where
  origin : Utf8String := .ofAscii "model"
  gate : GateCheck σ
  identityType : Int := 0x04

namespace SemanticAdapter

variable {σ : Type} (self : SemanticAdapter σ) (crc32 : Bytes → UInt32) (lib : Library)

/-- The adapter's own {lit}`Identity`. -/
def identity : Bin.Identity := { idType := self.identityType, name := self.origin }

/-- {lit}`action_to_packet` after the gate. -/
def buildPacket (sessionId messageId : UuidBytes) (action : ModelAction) : SemResult Packet := do
  let symbols ← (buildSymbols lib action).attach fun _ h => buildSymbols_wellFormed h
  let correlationId ← correlationBytes lib action.correlationId
  let toolInvocation ← toolInvocationOf lib action
  let modelInvocation ← modelInvocationOf lib action
  pure
    { flags := action.flags
      sessionId := sessionId.val
      messageId := messageId.val
      correlationId := correlationId.val
      origin := some self.identity
      targets := if action.target.length = 0 then [] else [action.target]
      operation := action.intent.toOpcode
      intent := action.intent.text
      symbols := symbols.val
      confidence := action.confidence
      deadlineMs := action.deadlineMs
      toolInvocation
      modelInvocation
      metadata := metadataOf lib [(semanticIntentKey, .str action.intent.text)] action.metadata
      sessionId_length := sessionId.property
      messageId_length := messageId.property
      correlationId_length := correlationId.property
      symbols_wellFormed := symbols.property
      responseSymbols_wellFormed := Bin.noSymbols_wellFormed
      metadata_nodupKeys := metadataOf_nodupKeys lib _ _ }

/-- {lit}`action_to_packet`. -/
def actionToPacket (sessionId messageId : UuidBytes) (action : ModelAction) (g : σ) :
    SemResult Packet × σ :=
  let errors := action.validate lib
  if errors ≠ [] then (.err (.validationError errors), g)
  else
    let (gateResult, g) := self.gate.checkOutbound action g
    (do
      let gateResult ← gateResult
      gateResult.require "Gate rejected action: "
      self.buildPacket lib sessionId messageId action, g)

/-- {lit}`action_to_bytes`. -/
def actionToBytes (sessionId messageId : UuidBytes) (action : ModelAction) (checksum : Bool)
    (g : σ) : SemResult Bytes × σ :=
  let (pkt, g) := self.actionToPacket lib sessionId messageId action g
  (do
    let pkt ← pkt
    liftBin (Bin.encode crc32 pkt checksum), g)

/-- A packet is returned after the gate allowed the action. -/
theorem actionToPacket_eq_ok {self : SemanticAdapter σ} {lib : Library}
    {sessionId messageId : UuidBytes} {action : ModelAction} {g : σ} {p : Packet}
    (h : (self.actionToPacket lib sessionId messageId action g).1 = .ok p) :
    (∃ result, (self.gate.checkOutbound action g).1 = .ok result ∧ result.allowed = true) ∧
      self.buildPacket lib sessionId messageId action = .ok p := by
  unfold actionToPacket at h
  dsimp only at h
  split at h
  next => cases h
  next =>
    obtain ⟨result, hresult, h⟩ := Outcome.bind_eq_ok_iff.mp h
    obtain ⟨_, hrequire, h⟩ := Outcome.bind_eq_ok_iff.mp h
    have hallowed : ¬ result.allowed = false := Outcome.failIf_eq_ok_iff.mp hrequire
    exact ⟨⟨result, hresult, Bool.eq_true_of_not_eq_false hallowed⟩, h⟩

/-- Bytes are returned for a packet that is returned. -/
theorem actionToBytes_eq_ok {self : SemanticAdapter σ} {crc32 : Bytes → UInt32} {lib : Library}
    {sessionId messageId : UuidBytes} {action : ModelAction} {checksum : Bool} {g : σ}
    {bytes : Bytes}
    (h : (self.actionToBytes crc32 lib sessionId messageId action checksum g).1 = .ok bytes) :
    ∃ p, (self.actionToPacket lib sessionId messageId action g).1 = .ok p ∧
      Bin.encode crc32 p checksum = .ok bytes := by
  unfold actionToBytes at h
  obtain ⟨p, hp, h⟩ := Outcome.bind_eq_ok_iff.mp h
  exact ⟨p, hp, liftBin_eq_ok_iff.mp h⟩

/-! ### Responses -/

/-- The symbols of the output of a result. -/
def outputSymbols : Value → SemResult (List Symbol)
  | .null => pure []
  | .dict entries => do
      let symbol ← toBinarySymbol lib (.dict entries)
      pure [symbol]
  | .str value => pure [.string value]
  | value => pure [.string (lib.text value)]

/-- The symbols of the output of a result are well formed. -/
theorem outputSymbols_wellFormed {lib : Library} {output : Value} {ss : List Symbol}
    (h : outputSymbols lib output = .ok ss) : ∀ s ∈ ss, s.All Symbol.WellFormed := by
  have hstring : ∀ text, ∀ s ∈ [Symbol.string text], s.All Symbol.WellFormed := by
    intro text
    exact List.forall_mem_singleton.mpr (Symbol.All.of_leaf trivial trivial)
  cases output with
  | null =>
      cases h
      simp
  | dict entries =>
      obtain ⟨symbol, hsymbol, h⟩ := Outcome.bind_eq_ok_iff.mp h
      cases h
      exact List.forall_mem_singleton.mpr (toBinarySymbol_wellFormed lib _ hsymbol)
  | _ =>
      cases h
      exact hstring _

/-- The symbols of the error of a result. -/
def errorSymbols (error : Option Utf8String) : List Symbol :=
  match error with
  | some text => if text.length = 0 then [] else [.string text]
  | none => []

/-- The symbols of the error of a result are well formed. -/
theorem errorSymbols_wellFormed (error : Option Utf8String) :
    ∀ s ∈ errorSymbols error, s.All Symbol.WellFormed := by
  unfold errorSymbols
  split
  next text =>
    split
    next => simp
    next => exact List.forall_mem_singleton.mpr (Symbol.All.of_leaf trivial trivial)
  next => simp

/-- {lit}`session_id or uuid.uuid4().bytes`, and the check of its length. -/
def sessionBytes (fresh : UuidBytes) (sessionId : Option Bytes) : SemResult UuidBytes :=
  let given := sessionId.getD []
  if given.isEmpty then pure fresh
  else if h : given.length = 16 then pure ⟨given, h⟩
  else .err (.bin (.bin .encodeError "session_id must be 16 bytes"))

/-- The metadata of a response before those of the result. -/
def responseMetadata (result : ModelResult) : Entries :=
  [(semanticIntentKey, .str result.intent.text), (.ofAscii "tokens_used", .int result.tokensUsed),
    (.ofAscii "latency_ms", .float result.latencyMs)]

/-- The packet of {lit}`result_to_bytes`. -/
def resultPacket (sessionId messageId : UuidBytes) (result : ModelResult)
    (correlationId : Utf8String) (givenSession : Option Bytes) : SemResult Packet := do
  let output ← (outputSymbols lib result.output).attach fun _ h => outputSymbols_wellFormed h
  let correlationId ← correlationBytes lib correlationId
  let sessionId ← sessionBytes sessionId givenSession
  pure
    { flags := 0x0002
      sessionId := sessionId.val
      messageId := messageId.val
      correlationId := correlationId.val
      origin := some self.identity
      operation := result.intent.toOpcode
      intent := result.intent.text
      symbols := output.val ++ errorSymbols result.error
      confidence := result.confidence
      errorInfo := (result.error.filter fun text => decide (text.length ≠ 0)).map fun text =>
        { errorCode := 0x0001, severity := 1, message := text }
      metadata := metadataOf lib (responseMetadata result) result.metadata
      sessionId_length := sessionId.property
      messageId_length := messageId.property
      correlationId_length := correlationId.property
      symbols_wellFormed := fun s hs => (List.mem_append.mp hs).elim (output.property s)
        (errorSymbols_wellFormed result.error s)
      responseSymbols_wellFormed := Bin.noSymbols_wellFormed
      metadata_nodupKeys := metadataOf_nodupKeys lib _ _ }

/-- {lit}`result_to_bytes`: the gate is not asked. -/
def resultToBytes (sessionId messageId : UuidBytes) (result : ModelResult)
    (correlationId : Utf8String) (givenSession : Option Bytes) (g : σ) : SemResult Bytes × σ :=
  (do
    let pkt ← self.resultPacket lib sessionId messageId result correlationId givenSession
    liftBin (Bin.encode crc32 pkt false), g)

end SemanticAdapter

/-! ## Observations -/

/-- What the inbound loop may meet among the symbols of a view: a {lit}`Symbol`, or a
pair. -/
inductive SymbolObject where
  | symbol (s : Symbol)
  | pair (tag value : Value)

/-- {lit}`tag == "…"`. -/
def Value.isText (value : Value) (text : String) : Bool :=
  match value with
  | .str s => s == .ofAscii text
  | _ => false

/-- {lit}`inputs.setdefault(key, []).append(value)`. -/
def appendInput (key : Utf8String) (value : Value) (inputs : Entries) : SemResult Entries :=
  match Dict.get? key inputs with
  | none => pure (Dict.set key (.list [value]) inputs)
  | some (.list items) => pure (Dict.set key (.list (items ++ [value])) inputs)
  | some _ => .err (.builtin "AttributeError")

/-- The branch of a pair with the tag {lit}`"J"`. -/
def updateInputs (lib : Library) (value : Value) (inputs : Entries) : SemResult Entries :=
  let data := Dict.set (.ofAscii "json_data") value inputs
  let parsed := match value with
    | .str text => lib.loads text
    | value => some value
  match parsed with
  | none => pure data
  | some parsed =>
      match lib.update inputs parsed with
      | .err (.builtin "TypeError") => pure data
      | outcome => outcome

/-- One round of the inbound loop: the inputs and the parameters so far.  Only pairs
are looked into. -/
def readSymbol (lib : Library) : Entries × Entries → SymbolObject → SemResult (Entries × Entries)
  | (inputs, params), .symbol _ => pure (inputs, params)
  | (inputs, params), .pair tag value =>
      if tag.isText "S" then
        if (Dict.get? textKey inputs).isNone then pure (Dict.set textKey value inputs, params)
        else do
          let inputs ← appendInput (.ofAscii "values") value inputs
          pure (inputs, params)
      else if tag.isText "J" then do
        let inputs ← updateInputs lib value inputs
        pure (inputs, params)
      else if tag.isText "K" then pure (inputs, Dict.set (lib.text value) (.bool true) params)
      else if tag.isText "T" then do
        let inputs ← appendInput (.ofAscii "tags") value inputs
        pure (inputs, params)
      else if tag.isText "N" then do
        let inputs ← appendInput (.ofAscii "numbers") value inputs
        pure (inputs, params)
      else pure (inputs, params)

/-- The inbound loop. -/
def readSymbols (lib : Library) :
    List SymbolObject → Entries × Entries → SemResult (Entries × Entries)
  | [], acc => pure acc
  | sym :: syms, acc => do
      let acc ← readSymbol lib acc sym
      readSymbols lib syms acc

/-- {lit}`hex()` of a byte string. -/
def hexText (bytes : Bytes) : Utf8String :=
  .ofAscii (String.join (bytes.map fun b => Bin.hexLower 2 b.toNat))

/-- {lit}`_packet_view_to_observation`.  The intent that is looked up there is not
used. -/
def viewToObservation (lib : Library) (pv : PacketView) : SemResult ModelObservation := do
  let intent ← liftBin pv.intent
  let (inputs, params) ← readSymbols lib (pv.symbols.map .symbol) ([], [])
  let metadata ← liftBin pv.metadata
  let schemaId ← liftBin pv.schemaId
  let origin ← liftBin pv.origin
  let confidence ← liftBin pv.confidence
  pure
    { task := intent
      context := [(.ofAscii "intent", .str intent)]
      inputs
      params
      schemaId
      traceId := match pv.sessionId with
        | some sessionId => hexText sessionId
        | none => .empty
      origin := match origin with
        | some identity => identity.name
        | none => .empty
      confidence
      deadlineMs := pv.deadlineMs
      metadata }

namespace SemanticAdapter

variable {σ : Type} (self : SemanticAdapter σ) (crc32 : Bytes → UInt32) (lib : Library)

/-- {lit}`packet_view_to_observation`. -/
def packetViewToObservation (pv : PacketView) (g : σ) : SemResult ModelObservation × σ :=
  let (gateResult, g) := self.gate.checkInbound pv g
  (do
    let gateResult ← gateResult
    gateResult.require "Gate rejected inbound: "
    viewToObservation lib pv, g)

/-- {lit}`bytes_to_observation`. -/
def bytesToObservation (data : Bytes) (g : σ) : SemResult ModelObservation × σ :=
  match liftBin (Bin.decode crc32 data) with
  | .ok pv => self.packetViewToObservation lib pv g
  | .err e => (.err e, g)
  | .panic => (.panic, g)

end SemanticAdapter

end Aicl.Semantic
