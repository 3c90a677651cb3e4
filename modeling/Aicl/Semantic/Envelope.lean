import Aicl.Bin.ReadBack
import Aicl.Semantic.Inputs

/-!
# The envelope of an action

What the view of a frame of an action returns of the fields around its inputs:
intent, target, deadline, confidence, flags and correlation identifier.

Main results:

- Theorem {lit}`buildPacket_eq_ok`: the packet of an action.
- Theorem {lit}`envelope_iff`: when the envelope of an action is returned.
-/

namespace Aicl.Semantic

open Bin (Symbol Packet PacketView IsExtension Shows FLAG_CANCEL FLAG_STREAM_CHUNK maxTlvValueSize
  readOr splitNames joinComma wireFlags)
open Isa.Frame

/-- The flags that an envelope may have: request, stream chunk and cancel, and the
announcement of a trailer when a checksum is asked for. -/
def envelopeFlags (checksum : Bool) : Nat :=
  0x0001 ||| FLAG_STREAM_CHUNK ||| FLAG_CANCEL ||| if checksum then 0x0100 else 0

/-- A view returns the envelope of an action. -/
structure Envelope (lib : Library) (action : ModelAction) (checksum : Bool)
    (v : PacketView) : Prop where
  intent : v.intent = .ok action.intent.text
  targets : v.targets = .ok (if action.target.length = 0 then [] else [action.target])
  deadlineMs : (v.deadlineMs : Int) = action.deadlineMs
  confidence : v.confidence = .ok action.confidence
  isStreamChunk : v.isStreamChunk = action.stream
  cancel : v.hasFlag FLAG_CANCEL = action.cancel
  otherFlags : v.flags ||| envelopeFlags checksum = envelopeFlags checksum
  correlationId : ∃ id, correlationBytes lib action.correlationId = .ok id ∧
    v.correlationId = id.val

variable {σ : Type} {self : SemanticAdapter σ} {crc32 : Bytes → UInt32} {lib : Library}
  {sessionId messageId : UuidBytes} {action : ModelAction} {checksum : Bool} {g : σ}

/-! ## The packet of an action -/

/-- The fields of the packet of an action. -/
structure PacketOf (lib : Library) (action : ModelAction) (p : Packet) : Prop where
  flags : p.flags = action.flags
  correlationId : ∃ id, correlationBytes lib action.correlationId = .ok id ∧
    p.correlationId = id.val
  targets : p.targets = if action.target.length = 0 then [] else [action.target]
  intent : p.intent = action.intent.text
  symbols : buildSymbols lib action = .ok p.symbols
  confidence : p.confidence = action.confidence
  deadlineMs : p.deadlineMs = action.deadlineMs

/-- The packet of an action has the fields of the action. -/
theorem buildPacket_eq_ok {p : Packet}
    (h : self.buildPacket lib sessionId messageId action = .ok p) : PacketOf lib action p := by
  obtain ⟨symbols, hsymbols, h⟩ := Outcome.bind_eq_ok_iff.mp h
  obtain ⟨id, hid, h⟩ := Outcome.bind_eq_ok_iff.mp h
  obtain ⟨tool, _, h⟩ := Outcome.bind_eq_ok_iff.mp h
  obtain ⟨model, _, h⟩ := Outcome.bind_eq_ok_iff.mp h
  cases h
  constructor
  · rfl
  · exact ⟨id, hid, rfl⟩
  · rfl
  · rfl
  · exact Outcome.attach_eq_ok_iff.mp hsymbols
  · rfl
  · rfl

/-- What is sent for an action is the frame of its packet. -/
theorem encode_of_actionToBytes {bytes : Bytes}
    (h : (self.actionToBytes crc32 lib sessionId messageId action checksum g).1 = .ok bytes) :
    ∃ p, PacketOf lib action p ∧ Bin.encode crc32 p checksum = .ok bytes := by
  obtain ⟨p, hp, hencode⟩ := SemanticAdapter.actionToBytes_eq_ok h
  exact ⟨p, buildPacket_eq_ok (SemanticAdapter.actionToPacket_eq_ok hp).2, hencode⟩

/-- The symbol of a value is no vendor operand. -/
theorem toBinarySymbol_plain {value : Value} {s : Symbol} (h : toBinarySymbol lib value = .ok s) :
    ¬ IsExtension s := by
  intro hext
  rcases hext with ⟨tag, data, rfl, _⟩
  cases value with
  | list items =>
      rw [toBinarySymbol] at h
      obtain ⟨_, _, h⟩ := Outcome.bind_eq_ok_iff.mp h
      cases h
  | dict entries =>
      rw [toBinarySymbol] at h
      obtain ⟨_, _, h⟩ := Outcome.bind_eq_ok_iff.mp h
      cases h
  | _ => cases h

/-- The symbols of the packet of an action are no vendor operands. -/
theorem PacketOf.plain {p : Packet} (h : PacketOf lib action p) :
    ∀ s ∈ p.symbols, ¬ IsExtension s :=
  forall_buildSymbols (fun _ _ hs => toBinarySymbol_plain hs) h.symbols

/-! ## Flags -/

/-- The flags of a view of an action. -/
theorem flags_of_shows {p : Packet} (hp : p.flags = action.flags) {exts : List Symbol}
    {v : PacketView} (h : Shows p checksum exts v) :
    v.flags = action.flags ||| if checksum then 0x0100 else 0 := by
  have hflags := h.flags
  rw [wireFlags, hp] at hflags
  cases checksum with
  | false => simpa using hflags
  | true => exact Int.ofNat_inj.mp hflags

/-- The flag of a cancellation is set for cancellations, and no flag stands for
anything that an envelope does not have, unless the action streams. -/
theorem envelopeFlags_iff {v : PacketView}
    (h : v.flags = action.flags ||| if checksum then 0x0100 else 0) :
    v.hasFlag FLAG_CANCEL = action.cancel ∧ v.isStreamChunk = false ∧
      (v.flags ||| envelopeFlags checksum = envelopeFlags checksum ↔ action.stream = false) := by
  unfold PacketView.isStreamChunk PacketView.hasFlag
  rw [h, ModelAction.flags]
  generalize action.stream = stream
  generalize action.cancel = cancel
  cases stream <;> cases cancel <;> cases checksum <;> decide

/-! ## Targets -/

/-- The target of an action is returned exactly when it contains no comma. -/
theorem targets_iff (target : Utf8String) :
    readOr [] splitNames (if (!(if target.length = 0 then [] else [target]).isEmpty) = true then
      some (joinComma (if target.length = 0 then [] else [target])) else none) =
        .ok (if target.length = 0 then [] else [target]) ↔ 0x2C ∉ target.bytes := by
  by_cases hempty : target.length = 0
  · have hbytes : target.bytes = [] := List.length_eq_zero_iff.mp hempty
    rw [if_pos hempty, hbytes]
    exact iff_of_true rfl List.not_mem_nil
  · have hjoin : joinComma [target] = target.bytes := by simp [joinComma]
    have hwritten : (!([target] : List Utf8String).isEmpty) = true := rfl
    have hread : ¬ target.bytes.isEmpty = true := by
      rw [List.isEmpty_iff]
      exact fun hnil => hempty (congrArg List.length hnil)
    rw [if_neg hempty, if_pos hwritten, hjoin, readOr, if_neg hread]
    exact Bin.splitNames_eq_singleton_iff hempty

/-! ## The envelope -/

/-- The view of a frame of an action returns its envelope exactly when the action
does not stream and its target contains no comma. -/
theorem envelope_iff (crc32 : Bytes → UInt32) (lib : Library) (self : SemanticAdapter σ)
    (sessionId messageId : UuidBytes) (action : ModelAction) (checksum : Bool) (g : σ)
    (_hvalid : action.validate lib = []) {bytes : Bytes}
    (hbytes : (self.actionToBytes crc32 lib sessionId messageId action checksum g).1 = .ok bytes) :
    ((∃ v, Bin.decode crc32 bytes = .ok v) ↔ payloadLen bytes ≤ maxTlvValueSize) ∧
      ∀ v, Bin.decode crc32 bytes = .ok v →
        (Envelope lib action checksum v ↔ action.stream = false ∧ 0x2C ∉ action.target.bytes) := by
  obtain ⟨p, hp, hencode⟩ := encode_of_actionToBytes hbytes
  refine ⟨Bin.decode_isOk_iff hencode, ?_⟩
  intro v hv
  obtain ⟨exts, hexts, hshows⟩ := Bin.shows_of_decode hencode hv
  obtain ⟨hcancel, hchunk, hothers⟩ := envelopeFlags_iff (flags_of_shows hp.flags hshows)
  have htargets := hshows.targets_eq hexts hp.plain
  rw [hp.targets] at htargets
  constructor
  · intro henvelope
    refine ⟨henvelope.isStreamChunk.symm.trans hchunk, ?_⟩
    exact (targets_iff action.target).mp (htargets.symm.trans henvelope.targets)
  · intro hcond
    constructor
    · rw [hshows.intent_eq hexts hp.plain, hp.intent]
    · exact htargets.trans ((targets_iff action.target).mpr hcond.2)
    · exact hshows.deadlineMs.trans hp.deadlineMs
    · rw [hshows.confidence_eq hexts hp.plain, hp.confidence]
    · exact hchunk.trans hcond.1.symm
    · exact hcancel
    · exact hothers.mpr hcond.1
    · obtain ⟨id, hid, hcorrelation⟩ := hp.correlationId
      exact ⟨id, hid, hshows.correlationId.trans hcorrelation⟩

/-- The envelope of a request to generate is returned. -/
theorem envelope_generate :
    ∃ bytes v, (SemanticAdapter.actionToBytes { gate := allowAllGate } Crc32.ieee idleLibrary
        zeroUuid zeroUuid generateAction false ()).1 = .ok bytes ∧
      Bin.decode Crc32.ieee bytes = .ok v ∧ Envelope idleLibrary generateAction false v := by
  have hok : ((SemanticAdapter.actionToBytes { gate := allowAllGate } Crc32.ieee idleLibrary
      zeroUuid zeroUuid generateAction false ()).1 >>= fun bytes =>
        liftBin (Bin.decode Crc32.ieee bytes)).isOk = true := by
    decide +kernel
  obtain ⟨v, hrun⟩ := Outcome.isOk_iff.mp hok
  obtain ⟨bytes, hbytes, hv⟩ := Outcome.bind_eq_ok_iff.mp hrun
  have hv := liftBin_eq_ok_iff.mp hv
  refine ⟨bytes, v, hbytes, hv, ((envelope_iff Crc32.ieee idleLibrary _ zeroUuid zeroUuid
    generateAction false () (by decide +kernel) hbytes).2 v hv).mpr ⟨rfl, ?_⟩⟩
  exact List.not_mem_nil

/-- A streamed request for two names in one target. -/
def streamAction : ModelAction where
  intent := .generate
  target := .ofAscii "a,b"
  inputs := [(textKey, .str textKey)]
  stream := true
  inputs_nodupKeys := List.nodup_singleton textKey
  params_nodupKeys := noEntries_nodupKeys
  result_nodupKeys := noEntries_nodupKeys
  metadata_nodupKeys := noEntries_nodupKeys

/-- Its frame has the flag of compression in place of the flag of a stream chunk,
and its target is returned as two. -/
theorem envelope_not_returned :
    ∃ bytes v, streamAction.validate idleLibrary = [] ∧
      (SemanticAdapter.actionToBytes { gate := allowAllGate } Crc32.ieee idleLibrary
        zeroUuid zeroUuid streamAction false ()).1 = .ok bytes ∧
      Bin.decode Crc32.ieee bytes = .ok v ∧ v.flags = 0x0081 ∧ v.isStreamChunk = false ∧
      v.targets = .ok [.ofAscii "a", .ofAscii "b"] ∧ ¬ Envelope idleLibrary streamAction false v := by
  have hrun : (do
      let bytes ← (SemanticAdapter.actionToBytes { gate := allowAllGate } Crc32.ieee idleLibrary
        zeroUuid zeroUuid streamAction false ()).1
      let v ← liftBin (Bin.decode Crc32.ieee bytes)
      Outcome.failIf (¬ (v.flags = 0x0081 ∧ v.isStreamChunk = false ∧
        v.targets.toOption = some [Utf8String.ofAscii "a", Utf8String.ofAscii "b"]))
          (.semanticError "")).isOk = true := by
    decide +kernel
  obtain ⟨_, hrun⟩ := Outcome.isOk_iff.mp hrun
  obtain ⟨bytes, hbytes, hrun⟩ := Outcome.bind_eq_ok_iff.mp hrun
  obtain ⟨v, hv, hrun⟩ := Outcome.bind_eq_ok_iff.mp hrun
  obtain ⟨hflags, hchunk, htargets⟩ := not_not.mp (Outcome.failIf_eq_ok_iff.mp hrun)
  refine ⟨bytes, v, by decide +kernel, hbytes, liftBin_eq_ok_iff.mp hv, hflags, hchunk,
    Outcome.toOption_eq_some_iff.mp htargets, ?_⟩
  intro henvelope
  exact Bool.false_ne_true (hchunk.symm.trans henvelope.isStreamChunk)

end Aicl.Semantic
