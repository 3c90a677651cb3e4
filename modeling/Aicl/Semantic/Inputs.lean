import Aicl.Foundation.Crc32
import Aicl.Semantic.Adapter

/-!
# Inputs across the adapter

The adapter writes every input of an action as a symbol.  On the way in it looks
into pairs only, and the symbols of a view are no pairs, so that no input arrives.

Main results:

- Theorem {lit}`viewToObservation_inputs`: no observation has inputs.
- Theorem {lit}`inputs_lost`: no action with a text keeps its inputs.
-/

namespace Aicl.Semantic

open Bin (Symbol PacketView)

/-- A value stands in inputs, by itself or in a list of them. -/
def Appears (value : Value) (inputs : Entries) : Prop :=
  ∃ e ∈ inputs, e.2 = value ∨ ∃ items, e.2 = .list items ∧ value ∈ items

/-- A text or a number. -/
def Value.IsPlain : Value → Prop
  | .str _ => True
  | .int _ => True
  | .float _ => True
  | _ => False

/-- An observation has the text of an action, and all of its other texts and
numbers. -/
structure KeepsInputs (action : ModelAction) (obs : ModelObservation) : Prop where
  text : Dict.get? textKey obs.inputs = Dict.get? textKey action.inputs
  others : ∀ e ∈ action.inputs, e.1 ≠ textKey → e.2.IsPlain → Appears e.2 obs.inputs

/-- The inbound loop passes over symbols. -/
theorem readSymbols_symbols (lib : Library) (ss : List Symbol) (acc : Entries × Entries) :
    readSymbols lib (ss.map .symbol) acc = .ok acc := by
  induction ss with
  | nil => rfl
  | cons s ss ih => exact ih

/-- No observation has inputs or parameters. -/
theorem viewToObservation_inputs {lib : Library} {pv : PacketView} {obs : ModelObservation}
    (h : viewToObservation lib pv = .ok obs) : obs.inputs = [] ∧ obs.params = [] := by
  obtain ⟨intent, _, h⟩ := Outcome.bind_eq_ok_iff.mp h
  obtain ⟨read, hread, h⟩ := Outcome.bind_eq_ok_iff.mp h
  rw [readSymbols_symbols] at hread
  cases hread
  obtain ⟨metadata, _, h⟩ := Outcome.bind_eq_ok_iff.mp h
  obtain ⟨schemaId, _, h⟩ := Outcome.bind_eq_ok_iff.mp h
  obtain ⟨origin, _, h⟩ := Outcome.bind_eq_ok_iff.mp h
  obtain ⟨confidence, _, h⟩ := Outcome.bind_eq_ok_iff.mp h
  cases h
  exact ⟨rfl, rfl⟩

variable {σ : Type} {self : SemanticAdapter σ} {crc32 : Bytes → UInt32} {lib : Library}

/-- What is returned for a view is its observation. -/
theorem packetViewToObservation_eq_ok {pv : PacketView} {g : σ} {obs : ModelObservation}
    (h : (self.packetViewToObservation lib pv g).1 = .ok obs) : viewToObservation lib pv = .ok obs := by
  obtain ⟨gateResult, _, h⟩ := Outcome.bind_eq_ok_iff.mp h
  obtain ⟨_, _, h⟩ := Outcome.bind_eq_ok_iff.mp h
  exact h

/-- What is returned for bytes is the observation of their view. -/
theorem bytesToObservation_eq_ok {data : Bytes} {g : σ} {obs : ModelObservation}
    (h : (self.bytesToObservation crc32 lib data g).1 = .ok obs) :
    ∃ pv, Bin.decode crc32 data = .ok pv ∧
      (self.packetViewToObservation lib pv g).1 = .ok obs := by
  unfold SemanticAdapter.bytesToObservation at h
  split at h
  next pv hpv => exact ⟨pv, liftBin_eq_ok_iff.mp hpv, h⟩
  next => cases h
  next => cases h

/-- No action with a text keeps its inputs, whatever the adapter is given and
however the frame is sent. -/
theorem inputs_lost (crc32 : Bytes → UInt32) (lib : Library) (origin : Utf8String)
    (identityType : Int) (sessionId messageId : UuidBytes) (action : ModelAction) (checksum : Bool)
    (_hvalid : action.validate lib = []) {text : Utf8String} (_hnonempty : text.length ≠ 0)
    (htext : Dict.get? textKey action.inputs = some (.str text)) {bytes : Bytes}
    (_hbytes : (SemanticAdapter.actionToBytes { origin, gate := allowAllGate, identityType } crc32
      lib sessionId messageId action checksum ()).1 = .ok bytes) :
    ¬ ∃ obs, (SemanticAdapter.bytesToObservation { origin, gate := allowAllGate, identityType }
      crc32 lib bytes ()).1 = .ok obs ∧ KeepsInputs action obs := by
  intro hkept
  rcases hkept with ⟨obs, hobs, hkeeps⟩
  obtain ⟨pv, _, hobs⟩ := bytesToObservation_eq_ok hobs
  have hinputs := (viewToObservation_inputs (packetViewToObservation_eq_ok hobs)).1
  have hlost := hkeeps.text
  rw [hinputs, htext] at hlost
  cases hlost

/-- A library whose functions are not called. -/
def idleLibrary : Library where
  dumps _ := .err (.builtin "TypeError")
  dumpsCompact _ := .err (.builtin "TypeError")
  loads _ := none
  update _ _ := .err (.builtin "TypeError")
  str _ := .empty
  floatText _ := ""
  uuid _ := .err (.builtin "ValueError")

/-- A request to generate from one text. -/
def generateAction : ModelAction where
  intent := .generate
  inputs := [(textKey, .str textKey)]
  inputs_nodupKeys := List.nodup_singleton textKey
  params_nodupKeys := noEntries_nodupKeys
  result_nodupKeys := noEntries_nodupKeys
  metadata_nodupKeys := noEntries_nodupKeys

/-- That request is sent, and its inputs are not kept. -/
theorem inputs_lost_generate :
    ∃ bytes, (SemanticAdapter.actionToBytes { gate := allowAllGate } Crc32.ieee idleLibrary zeroUuid
      zeroUuid generateAction false ()).1 = .ok bytes ∧
      ¬ ∃ obs, (SemanticAdapter.bytesToObservation { gate := allowAllGate } Crc32.ieee idleLibrary
        bytes ()).1 = .ok obs ∧ KeepsInputs generateAction obs := by
  have hok : (SemanticAdapter.actionToBytes { gate := allowAllGate } Crc32.ieee idleLibrary zeroUuid
      zeroUuid generateAction false ()).1.isOk = true := by
    decide +kernel
  obtain ⟨bytes, hbytes⟩ := Outcome.isOk_iff.mp hok
  exact ⟨bytes, hbytes, inputs_lost Crc32.ieee idleLibrary _ _ zeroUuid zeroUuid generateAction
    false (by decide +kernel) (by decide +kernel) rfl hbytes⟩

/-- An observation is returned for that request; it has no inputs. -/
theorem observation_without_inputs :
    ∃ bytes obs, generateAction.validate idleLibrary = [] ∧
      Dict.get? textKey generateAction.inputs = some (.str textKey) ∧
      (SemanticAdapter.actionToBytes { gate := allowAllGate } Crc32.ieee idleLibrary zeroUuid
        zeroUuid generateAction false ()).1 = .ok bytes ∧
      (SemanticAdapter.bytesToObservation { gate := allowAllGate } Crc32.ieee idleLibrary
        bytes ()).1 = .ok obs ∧
      obs.inputs = [] ∧ ¬ KeepsInputs generateAction obs := by
  have hok : ((SemanticAdapter.actionToBytes { gate := allowAllGate } Crc32.ieee idleLibrary zeroUuid
      zeroUuid generateAction false ()).1 >>= fun bytes =>
        (SemanticAdapter.bytesToObservation { gate := allowAllGate } Crc32.ieee idleLibrary
          bytes ()).1).isOk = true := by
    decide +kernel
  obtain ⟨obs, hrun⟩ := Outcome.isOk_iff.mp hok
  obtain ⟨bytes, hbytes, hobs⟩ := Outcome.bind_eq_ok_iff.mp hrun
  obtain ⟨pv, _, hview⟩ := bytesToObservation_eq_ok hobs
  have hinputs := (viewToObservation_inputs (packetViewToObservation_eq_ok hview)).1
  refine ⟨bytes, obs, by decide +kernel, rfl, hbytes, hobs, hinputs, ?_⟩
  intro hkeeps
  have hlost := hkeeps.text
  rw [hinputs] at hlost
  cases hlost

end Aicl.Semantic
