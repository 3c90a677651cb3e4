import Aicl.Foundation.Crc32
import Aicl.Foundation.Service
import Aicl.Semantic.Inputs

/-!
# Mediation by the gate

Runs of an adapter: calls of its methods one after the other, from any state of
its gate.  The gate is watched while the adapter uses it: a gate that writes down
which of its checks allowed something is a gate, and the methods take any gate.

Main results:

- Theorem {lit}`SemanticAdapter.trace_answer`: watching the gate changes no answer.
- Theorem {lit}`SemanticAdapter.mediates`: what calls other than
  {lit}`result_to_bytes` return was allowed before.
- Theorem {lit}`SemanticAdapter.resultToBytes_not_mediated`: what
  {lit}`result_to_bytes` returns was not.
-/

namespace Aicl.Semantic

open Bin (Symbol Packet PacketView)

/-! ## Calls -/

/-- A call of a method that makes or reads bytes or packets. -/
inductive Call where
  | actionToPacket (sessionId messageId : UuidBytes) (action : ModelAction)
  | actionToBytes (sessionId messageId : UuidBytes) (action : ModelAction) (checksum : Bool)
  | resultToBytes (sessionId messageId : UuidBytes) (result : ModelResult)
      (correlationId : Utf8String) (givenSession : Option Bytes)
  | bytesToObservation (data : Bytes)
  | packetViewToObservation (pv : PacketView)

/-- What a call returns. -/
inductive Answer where
  | packet (pkt : Packet)
  | bytes (data : Bytes)
  | observation (obs : ModelObservation)

/-- A call of {lit}`result_to_bytes`. -/
def Call.IsResult : Call → Prop
  | .resultToBytes .. => True
  | _ => False

/-- The bytes that a call reads can be decoded. -/
def Call.Decodes (crc32 : Bytes → UInt32) : Call → Prop
  | .bytesToObservation data => ∃ pv, Bin.decode crc32 data = .ok pv
  | _ => True

/-- The outcome of a method as the outcome of a call. -/
def answered {α σ : Type} (f : α → Answer) (outcome : SemResult α × σ) : SemResult Answer × σ :=
  (outcome.1 >>= fun a => pure (f a), outcome.2)

/-- A call returns what its method returned. -/
theorem answered_eq_ok_iff {α σ : Type} {f : α → Answer} {outcome : SemResult α × σ} {a : Answer} :
    (answered f outcome).1 = .ok a ↔ ∃ x, outcome.1 = .ok x ∧ f x = a := by
  rw [answered, Outcome.bind_eq_ok_iff]
  simp

/-- A call raises what its method raised. -/
theorem answered_eq_err {α σ : Type} {f : α → Answer} {outcome : SemResult α × σ} {e : Raised}
    (h : outcome.1 = .err e) : (answered f outcome).1 = .err e := by
  rw [answered, h]
  rfl

section

variable {σ : Type} (self : SemanticAdapter σ) (crc32 : Bytes → UInt32) (lib : Library)

/-- The method that a call is of. -/
def SemanticAdapter.perform (g : σ) : Call → SemResult Answer × σ
  | .actionToPacket sessionId messageId action =>
      answered .packet (self.actionToPacket lib sessionId messageId action g)
  | .actionToBytes sessionId messageId action checksum =>
      answered .bytes (self.actionToBytes crc32 lib sessionId messageId action checksum g)
  | .resultToBytes sessionId messageId result correlationId givenSession =>
      answered .bytes
        (self.resultToBytes crc32 lib sessionId messageId result correlationId givenSession g)
  | .bytesToObservation data => answered .observation (self.bytesToObservation crc32 lib data g)
  | .packetViewToObservation pv => answered .observation (self.packetViewToObservation lib pv g)

end

/-! ## Watched gates -/

/-- A check that allowed what it was asked about. -/
inductive Check where
  | outbound (action : ModelAction)
  | inbound (pv : PacketView)

/-- Whether a check returned that it allows. -/
def allows : SemResult GateResult → Bool
  | .ok result => result.allowed
  | _ => false

/-- A gate that writes down the checks that allowed something. -/
def GateCheck.recorded {σ : Type} (gate : GateCheck σ) : GateCheck (σ × List Check) where
  checkOutbound action g :=
    let (result, next) := gate.checkOutbound action g.1
    (result, next, if allows result then g.2 ++ [.outbound action] else g.2)
  checkInbound pv g :=
    let (result, next) := gate.checkInbound pv g.1
    (result, next, if allows result then g.2 ++ [.inbound pv] else g.2)

/-- The gate allows nothing. -/
def GateCheck.RejectsAll {σ : Type} (gate : GateCheck σ) : Prop :=
  ∀ g, (∀ action, ∃ reason, (gate.checkOutbound action g).1 = .ok { allowed := false, reason }) ∧
    ∀ pv, ∃ reason, (gate.checkInbound pv g).1 = .ok { allowed := false, reason }

section

variable {σ : Type} {gate : GateCheck σ} {g : σ} {log : List Check}

/-- An outbound check that allowed is written down. -/
theorem mem_recorded_outbound {action : ModelAction}
    (h : allows (gate.checkOutbound action g).1 = true) :
    .outbound action ∈ (gate.recorded.checkOutbound action (g, log)).2.2 := by
  have hlog : (gate.recorded.checkOutbound action (g, log)).2.2 = log ++ [.outbound action] :=
    if_pos h
  rw [hlog]
  exact List.mem_append_right log List.mem_cons_self

/-- An inbound check that allowed is written down. -/
theorem mem_recorded_inbound {pv : PacketView} (h : allows (gate.checkInbound pv g).1 = true) :
    .inbound pv ∈ (gate.recorded.checkInbound pv (g, log)).2.2 := by
  have hlog : (gate.recorded.checkInbound pv (g, log)).2.2 = log ++ [.inbound pv] := if_pos h
  rw [hlog]
  exact List.mem_append_right log List.mem_cons_self

end

namespace SemanticAdapter

variable {σ : Type}

/-- The adapter with its gate watched. -/
def recorded (self : SemanticAdapter σ) : SemanticAdapter (σ × List Check) where
  origin := self.origin
  gate := self.gate.recorded
  identityType := self.identityType

/-- A call, with its answer and the checks that allowed something during it. -/
def trace (self : SemanticAdapter σ) (crc32 : Bytes → UInt32) (lib : Library) (g : σ)
    (call : Call) : (SemResult Answer × List Check) × σ :=
  let (answer, next, checks) := self.recorded.perform crc32 lib (g, []) call
  ((answer, checks), next)

/-- Calls one after the other, from a state of the gate. -/
def run (self : SemanticAdapter σ) (crc32 : Bytes → UInt32) (lib : Library) (g : σ)
    (calls : List Call) : List (SemResult Answer × List Check) × σ :=
  Service.run (self.trace crc32 lib) g calls

end SemanticAdapter

/-- What a call is about was allowed.  A response is about no action in particular. -/
def Call.AllowedBy (crc32 : Bytes → UInt32) (checks : List Check) : Call → Prop
  | .actionToPacket _ _ action => .outbound action ∈ checks
  | .actionToBytes _ _ action _ => .outbound action ∈ checks
  | .resultToBytes .. => ∃ action, .outbound action ∈ checks
  | .bytesToObservation data => ∃ pv, Bin.decode crc32 data = .ok pv ∧ .inbound pv ∈ checks
  | .packetViewToObservation pv => .inbound pv ∈ checks

/-- A call returns only after what it is about was allowed. -/
def Mediated (crc32 : Bytes → UInt32) (call : Call) (entry : SemResult Answer × List Check) :
    Prop :=
  ∀ a, entry.1 = .ok a → call.AllowedBy crc32 entry.2

/-! ## What a check leads to -/

section

variable {α : Type} {result : SemResult GateResult} {message : String} {k : SemResult α}

/-- What follows a check returns when the check allowed. -/
theorem required_eq_ok_iff {a : α} :
    (result >>= fun r => r.require message >>= fun _ => k) = .ok a ↔
      allows result = true ∧ k = .ok a := by
  cases result with
  | ok r => simp [Outcome.bind_eq_ok_iff, GateResult.require, allows]
  | err e => simp [allows]
  | panic => simp [allows]

/-- A check that rejects raises a {lit}`SemanticError`. -/
theorem required_of_rejects (h : ∃ reason, result = .ok { allowed := false, reason }) :
    ∃ e, (result >>= fun r => r.require message >>= fun _ => k) = .err e ∧ e.IsSemantic := by
  obtain ⟨reason, rfl⟩ := h
  exact ⟨.semanticError (message ++ reason), rfl, trivial⟩

end

namespace SemanticAdapter

variable {σ : Type} {self : SemanticAdapter σ} {crc32 : Bytes → UInt32} {lib : Library}
  {sessionId messageId : UuidBytes} {action : ModelAction} {g : σ} {log : List Check}

/-- An action with errors does not reach the gate. -/
theorem actionToPacket_of_invalid (h : action.validate lib ≠ []) :
    self.actionToPacket lib sessionId messageId action g =
      (.err (.validationError (action.validate lib)), g) :=
  if_pos h

/-- An action without errors is handed to the gate first. -/
theorem actionToPacket_of_valid (h : action.validate lib = []) :
    self.actionToPacket lib sessionId messageId action g =
      ((self.gate.checkOutbound action g).1 >>= fun r =>
        r.require "Gate rejected action: " >>= fun _ =>
          self.buildPacket lib sessionId messageId action,
        (self.gate.checkOutbound action g).2) := by
  unfold actionToPacket
  exact if_neg (not_not.mpr h)

/-- A view is handed to the gate first. -/
theorem packetViewToObservation_eq {pv : PacketView} :
    self.packetViewToObservation lib pv g =
      ((self.gate.checkInbound pv g).1 >>= fun r =>
        r.require "Gate rejected inbound: " >>= fun _ => viewToObservation lib pv,
        (self.gate.checkInbound pv g).2) := rfl

/-- Bytes that can be decoded are handed to the gate as their view. -/
theorem bytesToObservation_of_decode {data : Bytes} {pv : PacketView}
    (h : Bin.decode crc32 data = .ok pv) :
    self.bytesToObservation crc32 lib data g = self.packetViewToObservation lib pv g := by
  unfold bytesToObservation
  rw [h]
  rfl

/-- Bytes that cannot be decoded do not reach the gate. -/
theorem bytesToObservation_of_raise {data : Bytes} {e : Bin.PyError}
    (h : Bin.decode crc32 data = .err e) :
    self.bytesToObservation crc32 lib data g = (.err (.bin e), g) := by
  unfold bytesToObservation
  rw [h]
  rfl

/-! ## The watched adapter -/

/-- Two outcomes are one, but for what was written down. -/
def Watches {α : Type} (watched : SemResult α × σ × List Check) (outcome : SemResult α × σ) :
    Prop :=
  watched.1 = outcome.1 ∧ watched.2.1 = outcome.2

/-- What is done with an outcome afterwards may be done with the watched one. -/
theorem Watches.bind {α β : Type} {watched : SemResult α × σ × List Check}
    {outcome : SemResult α × σ} (h : Watches watched outcome) (f : α → SemResult β) :
    Watches (watched.1 >>= f, watched.2) (outcome.1 >>= f, outcome.2) :=
  ⟨congrArg (fun x => x >>= f) h.1, h.2⟩

/-- The packet of an action is the same when the gate is watched. -/
theorem actionToPacket_watches :
    Watches (self.recorded.actionToPacket lib sessionId messageId action (g, log))
      (self.actionToPacket lib sessionId messageId action g) := by
  by_cases h : action.validate lib = []
  · rw [actionToPacket_of_valid h, actionToPacket_of_valid h]
    exact ⟨rfl, rfl⟩
  · rw [actionToPacket_of_invalid h, actionToPacket_of_invalid h]
    exact ⟨rfl, rfl⟩

/-- The observation of bytes is the same when the gate is watched. -/
theorem bytesToObservation_watches {data : Bytes} :
    Watches (self.recorded.bytesToObservation crc32 lib data (g, log))
      (self.bytesToObservation crc32 lib data g) := by
  unfold bytesToObservation
  cases liftBin (Bin.decode crc32 data) with
  | ok pv => exact ⟨rfl, rfl⟩
  | err e => exact ⟨rfl, rfl⟩
  | panic => exact ⟨rfl, rfl⟩

/-- Watching the gate changes no answer, and not the state that the gate is left in. -/
theorem trace_answer (self : SemanticAdapter σ) (crc32 : Bytes → UInt32) (lib : Library) (g : σ)
    (call : Call) :
    (self.trace crc32 lib g call).1.1 = (self.perform crc32 lib g call).1 ∧
      (self.trace crc32 lib g call).2 = (self.perform crc32 lib g call).2 := by
  cases call with
  | actionToPacket sessionId messageId action => exact actionToPacket_watches.bind _
  | actionToBytes sessionId messageId action checksum =>
      exact (actionToPacket_watches.bind _).bind _
  | resultToBytes sessionId messageId result correlationId givenSession => exact ⟨rfl, rfl⟩
  | bytesToObservation data => exact bytesToObservation_watches.bind _
  | packetViewToObservation pv => exact ⟨rfl, rfl⟩

/-! ## Mediation of one call -/

/-- The packet of an action is returned after the action was allowed. -/
theorem actionToPacket_mediated {p : Packet}
    (h : (self.recorded.actionToPacket lib sessionId messageId action (g, log)).1 = .ok p) :
    .outbound action ∈
      (self.recorded.actionToPacket lib sessionId messageId action (g, log)).2.2 := by
  by_cases hvalid : action.validate lib = []
  · rw [actionToPacket_of_valid hvalid] at h ⊢
    exact mem_recorded_outbound (required_eq_ok_iff.mp h).1
  · rw [actionToPacket_of_invalid hvalid] at h
    cases h

/-- The observation of a view is returned after the view was allowed. -/
theorem packetViewToObservation_mediated {pv : PacketView} {obs : ModelObservation}
    (h : (self.recorded.packetViewToObservation lib pv (g, log)).1 = .ok obs) :
    .inbound pv ∈ (self.recorded.packetViewToObservation lib pv (g, log)).2.2 := by
  rw [packetViewToObservation_eq] at h ⊢
  exact mem_recorded_inbound (required_eq_ok_iff.mp h).1

/-- Every call other than of {lit}`result_to_bytes` returns only after what it is
about was allowed. -/
theorem trace_mediated {call : Call} (hcall : ¬ call.IsResult) :
    Mediated crc32 call (self.trace crc32 lib g call).1 := by
  intro a ha
  cases call with
  | actionToPacket sessionId messageId action =>
      obtain ⟨p, hp, _⟩ := answered_eq_ok_iff.mp ha
      exact actionToPacket_mediated hp
  | actionToBytes sessionId messageId action checksum =>
      obtain ⟨bytes, hbytes, _⟩ := answered_eq_ok_iff.mp ha
      obtain ⟨p, hp, _⟩ := actionToBytes_eq_ok hbytes
      exact actionToPacket_mediated hp
  | resultToBytes sessionId messageId result correlationId givenSession =>
      exact (hcall trivial).elim
  | bytesToObservation data =>
      obtain ⟨obs, hobs, _⟩ := answered_eq_ok_iff.mp ha
      obtain ⟨pv, hpv, hobs⟩ := bytesToObservation_eq_ok hobs
      refine ⟨pv, hpv, ?_⟩
      have hview : self.recorded.bytesToObservation crc32 lib data (g, []) =
          self.recorded.packetViewToObservation lib pv (g, []) :=
        bytesToObservation_of_decode hpv
      have hmem := packetViewToObservation_mediated hobs
      rw [← hview] at hmem
      exact hmem
  | packetViewToObservation pv =>
      obtain ⟨obs, hobs, _⟩ := answered_eq_ok_iff.mp ha
      exact packetViewToObservation_mediated hobs

/-! ## Gates that allow nothing -/

/-- An action does not become a packet. -/
theorem actionToPacket_rejected (hgate : self.gate.RejectsAll) :
    ∃ e, (self.actionToPacket lib sessionId messageId action g).1 = .err e ∧ e.IsSemantic := by
  by_cases hvalid : action.validate lib = []
  · rw [actionToPacket_of_valid hvalid]
    exact required_of_rejects ((hgate g).1 action)
  · rw [actionToPacket_of_invalid hvalid]
    exact ⟨_, rfl, trivial⟩

/-- An action does not become bytes. -/
theorem actionToBytes_rejected {checksum : Bool} (hgate : self.gate.RejectsAll) :
    ∃ e, (self.actionToBytes crc32 lib sessionId messageId action checksum g).1 = .err e ∧
      e.IsSemantic := by
  have hpacket : ∃ e, (self.actionToPacket lib sessionId messageId action g).1 = .err e ∧
      e.IsSemantic :=
    actionToPacket_rejected hgate
  obtain ⟨e, he, hsemantic⟩ := hpacket
  have hbytes : (self.actionToBytes crc32 lib sessionId messageId action checksum g).1 =
      .err e >>= fun pkt => liftBin (Bin.encode crc32 pkt checksum) :=
    congrArg (fun x => x >>= fun pkt => liftBin (Bin.encode crc32 pkt checksum)) he
  exact ⟨e, hbytes, hsemantic⟩

/-- A view does not become an observation. -/
theorem packetViewToObservation_rejected {pv : PacketView} (hgate : self.gate.RejectsAll) :
    ∃ e, (self.packetViewToObservation lib pv g).1 = .err e ∧ e.IsSemantic := by
  rw [packetViewToObservation_eq]
  exact required_of_rejects ((hgate g).2 pv)

/-- Bytes do not become an observation, whether they can be decoded or not. -/
theorem bytesToObservation_rejected {data : Bytes} (hgate : self.gate.RejectsAll) :
    ∃ e, (self.bytesToObservation crc32 lib data g).1 = .err e ∧
      ((∃ pv, Bin.decode crc32 data = .ok pv) → e.IsSemantic) := by
  cases hdecode : Bin.decode crc32 data with
  | ok pv =>
      rw [bytesToObservation_of_decode hdecode]
      have hview : ∃ e, (self.packetViewToObservation lib pv g).1 = .err e ∧ e.IsSemantic :=
        packetViewToObservation_rejected hgate
      obtain ⟨e, he, hsemantic⟩ := hview
      exact ⟨e, he, fun _ => hsemantic⟩
  | err e =>
      rw [bytesToObservation_of_raise hdecode]
      exact ⟨.bin e, rfl, by simp⟩
  | panic => exact absurd hdecode (Bin.decode_ne_panic data)

/-- Every call other than of {lit}`result_to_bytes` raises, and it raises a
{lit}`SemanticError` when the bytes that it reads can be decoded. -/
theorem trace_rejected {call : Call} (hcall : ¬ call.IsResult) (hgate : self.gate.RejectsAll) :
    ∃ e, (self.trace crc32 lib g call).1.1 = .err e ∧ (call.Decodes crc32 → e.IsSemantic) := by
  rw [(trace_answer self crc32 lib g call).1]
  cases call with
  | actionToPacket sessionId messageId action =>
      obtain ⟨e, he, hsemantic⟩ := actionToPacket_rejected hgate
      exact ⟨e, answered_eq_err he, fun _ => hsemantic⟩
  | actionToBytes sessionId messageId action checksum =>
      obtain ⟨e, he, hsemantic⟩ := actionToBytes_rejected hgate
      exact ⟨e, answered_eq_err he, fun _ => hsemantic⟩
  | resultToBytes sessionId messageId result correlationId givenSession =>
      exact (hcall trivial).elim
  | bytesToObservation data =>
      obtain ⟨e, he, hsemantic⟩ := bytesToObservation_rejected hgate
      exact ⟨e, answered_eq_err he, hsemantic⟩
  | packetViewToObservation pv =>
      obtain ⟨e, he, hsemantic⟩ := packetViewToObservation_rejected hgate
      exact ⟨e, answered_eq_err he, fun _ => hsemantic⟩

/-! ## Mediation of runs -/

/-- In a run without {lit}`result_to_bytes`, every call returns only after what it
is about was allowed.  When the gate allows nothing every call raises, and a call
whose bytes can be decoded raises a {lit}`SemanticError`. -/
theorem mediates (self : SemanticAdapter σ) (crc32 : Bytes → UInt32) (lib : Library) (g : σ)
    (calls : List Call) (hcalls : ∀ call ∈ calls, ¬ call.IsResult) :
    ∀ entry ∈ calls.zip (self.run crc32 lib g calls).1,
      Mediated crc32 entry.1 entry.2 ∧
        (self.gate.RejectsAll → ∃ e, entry.2.1 = .err e ∧
          (entry.1.Decodes crc32 → e.IsSemantic)) := by
  refine Service.forall_entries (P := fun call entry => Mediated crc32 call entry ∧
    (self.gate.RejectsAll → ∃ e, entry.1 = .err e ∧ (call.Decodes crc32 → e.IsSemantic))) ?_ g
  intro call hmem g
  exact ⟨trace_mediated (hcalls call hmem), trace_rejected (hcalls call hmem)⟩

/-- A gate that allows nothing. -/
def rejectAllGate : GateCheck Unit where
  checkOutbound _ g := (.ok { allowed := false, reason := "test rejection" }, g)
  checkInbound _ g := (.ok { allowed := false, reason := "test rejection" }, g)

/-- It allows nothing. -/
theorem rejectAllGate_rejectsAll : rejectAllGate.RejectsAll :=
  fun _ => ⟨fun _ => ⟨_, rfl⟩, fun _ => ⟨_, rfl⟩⟩

/-- The frame of a request to generate can be decoded. -/
theorem generateAction_decodes :
    ∃ data, (∃ pv, Bin.decode Crc32.ieee data = .ok pv) ∧
      (actionToBytes { gate := allowAllGate } Crc32.ieee idleLibrary zeroUuid zeroUuid
        generateAction false ()).1 = .ok data := by
  have hrun : (do
      let data ← (actionToBytes { gate := allowAllGate } Crc32.ieee idleLibrary zeroUuid zeroUuid
        generateAction false ()).1
      let _ ← liftBin (Bin.decode Crc32.ieee data)
      pure data).isOk = true := by
    decide +kernel
  obtain ⟨_, hrun⟩ := Outcome.isOk_iff.mp hrun
  obtain ⟨data, hdata, hrun⟩ := Outcome.bind_eq_ok_iff.mp hrun
  obtain ⟨pv, hpv, _⟩ := Outcome.bind_eq_ok_iff.mp hrun
  exact ⟨data, ⟨pv, liftBin_eq_ok_iff.mp hpv⟩, hdata⟩

/-- Behind that gate, a request to generate is not sent and its frame is not read. -/
theorem mediates_rejectAll :
    ∃ data, (actionToBytes { gate := allowAllGate } Crc32.ieee idleLibrary zeroUuid zeroUuid
        generateAction false ()).1 = .ok data ∧
      ∀ entry ∈ [Call.actionToBytes zeroUuid zeroUuid generateAction false,
          .bytesToObservation data].zip
          (run { gate := rejectAllGate } Crc32.ieee idleLibrary ()
            [.actionToBytes zeroUuid zeroUuid generateAction false, .bytesToObservation data]).1,
        ∃ e, entry.2.1 = .err e ∧ e.IsSemantic := by
  obtain ⟨data, hdecodes, hdata⟩ := generateAction_decodes
  refine ⟨data, hdata, ?_⟩
  intro entry hentry
  have hcall : entry.1.Decodes Crc32.ieee := by
    have hmem := (List.of_mem_zip hentry).1
    rw [List.mem_pair] at hmem
    rcases hmem with hsend | hread
    · rw [hsend]
      trivial
    · rw [hread]
      exact hdecodes
  obtain ⟨e, he, hsemantic⟩ := (mediates _ Crc32.ieee idleLibrary () _ (by simp [Call.IsResult])
    entry hentry).2 rejectAllGate_rejectsAll
  exact ⟨e, he, hsemantic hcall⟩

/-! ## Responses -/

/-- A response that is returned was not allowed by any check. -/
theorem resultToBytes_not_mediated {result : ModelResult} {correlationId : Utf8String}
    {givenSession : Option Bytes} {data : Bytes}
    (h : (self.resultToBytes crc32 lib sessionId messageId result correlationId givenSession g).1 =
      .ok data) :
    ¬ Mediated crc32 (.resultToBytes sessionId messageId result correlationId givenSession)
      (self.trace crc32 lib g
        (.resultToBytes sessionId messageId result correlationId givenSession)).1 := by
  intro hmediated
  have hanswer : (self.trace crc32 lib g
      (.resultToBytes sessionId messageId result correlationId givenSession)).1.1 =
      .ok (.bytes data) :=
    (trace_answer self crc32 lib g _).1.trans (answered_eq_ok_iff.mpr ⟨data, h, rfl⟩)
  obtain ⟨action, haction⟩ := hmediated _ hanswer
  exact List.not_mem_nil haction

/-- The texts of the numbers of a result without measurements. -/
def zeroLibrary : Library where
  dumps _ := .err (.builtin "TypeError")
  dumpsCompact _ := .err (.builtin "TypeError")
  loads _ := none
  update _ _ := .err (.builtin "TypeError")
  str
    | .int _ => .ofAscii "0"
    | .float _ => .ofAscii "0.0"
    | _ => .empty
  floatText _ := "0.0"
  uuid _ := .err (.builtin "ValueError")

/-- The result of a request to generate. -/
def generateResult : ModelResult where
  intent := .generate
  output := .str textKey
  metadata_nodupKeys := noEntries_nodupKeys

/-- Behind a gate that allows nothing, a response is returned all the same. -/
theorem result_not_mediated :
    rejectAllGate.RejectsAll ∧
      (∃ data, (run { gate := rejectAllGate } Crc32.ieee zeroLibrary ()
        [.resultToBytes zeroUuid zeroUuid generateResult .empty none]).1 =
          [(.ok (.bytes data), [])]) ∧
      ¬ ∀ entry ∈ [Call.resultToBytes zeroUuid zeroUuid generateResult .empty none].zip
          (run { gate := rejectAllGate } Crc32.ieee zeroLibrary ()
            [.resultToBytes zeroUuid zeroUuid generateResult .empty none]).1,
        Mediated Crc32.ieee entry.1 entry.2 := by
  have hok : (resultToBytes { gate := rejectAllGate } Crc32.ieee zeroLibrary zeroUuid zeroUuid
      generateResult .empty none ()).1.isOk = true := by
    decide +kernel
  obtain ⟨data, hdata⟩ := Outcome.isOk_iff.mp hok
  refine ⟨rejectAllGate_rejectsAll, ⟨data, ?_⟩, ?_⟩
  · have hanswer := (trace_answer { gate := rejectAllGate } Crc32.ieee zeroLibrary ()
      (.resultToBytes zeroUuid zeroUuid generateResult .empty none)).1.trans
        (answered_eq_ok_iff.mpr ⟨data, hdata, rfl⟩)
    exact congrArg (fun answer => [(answer, [])]) hanswer
  · intro hmediated
    exact resultToBytes_not_mediated hdata (hmediated _ List.mem_cons_self)

end SemanticAdapter

end Aicl.Semantic
