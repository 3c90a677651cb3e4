import Aicl.Bin.DecodeErrors
import Aicl.Bin.PacketSizes

/-!
# The exceptions of the encoder

{lit}`encode` of the Python package writes the numbers and the lengths of a packet
with {lit}`struct.pack`, which raises {lit}`struct.error` for those that do not fit
their fields.  Only the header is checked before it is packed.

Main results:

- Theorem {lit}`appendExtensions_returnsIff`: when the rich fields of a packet are
  written.
- Theorem {lit}`encode_staysInPackage_iff`: when encoding returns or raises an
  exception of the package.
-/

namespace Aicl.Bin

/-! ## Numbers -/

/-- A number is packed exactly when it is in the range of its format. -/
theorem packInt_returnsIff (signed : Bool) (w : Nat) (v : Int) :
    ReturnsIff (packInt signed w v) (InRange signed w v) := by
  unfold packInt
  by_cases h : InRange signed w v
  · rw [if_pos h]
    exact .ok h
  · rw [if_neg h]
    exact .err (by simp [PyError.IsPackage]) h

/-- Numbers that are in the ranges of their formats. -/
def AllInRange : List (Format × Int) → Prop
  | [] => True
  | (f, v) :: fields => InRange f.1 f.2 v ∧ AllInRange fields

/-- Numbers are packed exactly when each is in the range of its format. -/
theorem pack_returnsIff (fields : List (Format × Int)) :
    ReturnsIff (pack fields) (AllInRange fields) := by
  induction fields with
  | nil => exact Outcome.ReturnsIff.pure []
  | cons field fields ih => exact (packInt_returnsIff _ _ _).bind fun raw _ => ih.map

/-- A length is in the range of its format when it is below the bound. -/
theorem inRange_length_iff (w n : Nat) : InRange false w (n : Int) ↔ n < 256 ^ w := by
  constructor
  · intro h
    exact_mod_cast h.2
  · intro h
    exact ⟨Int.natCast_nonneg n, by exact_mod_cast h⟩

/-- A length that is kept in a byte. -/
theorem inRange_byte_iff (n : Nat) : InRange false 1 (n : Int) ↔ n ≤ 255 := by
  rw [inRange_length_iff]
  omega

/-- A length that is kept in two bytes. -/
theorem inRange_word_iff (n : Nat) : InRange false 2 (n : Int) ↔ n ≤ 65535 := by
  rw [inRange_length_iff]
  omega

/-! ## Records -/

/-- An {lit}`Identity` that its fields can hold. -/
structure Identity.Fits (o : Identity) : Prop where
  name : o.name.length ≤ 255
  idType : InRange false 1 o.idType
  instanceId : InRange false 4 o.instanceId

/-- When an {lit}`Identity` is written. -/
theorem Identity.toBytes_returnsIff (o : Identity) : ReturnsIff o.toBytes o.Fits := by
  unfold Identity.toBytes
  apply Outcome.ReturnsIff.congr
  · apply ReturnsIff.valueError
    intro _
    apply (pack_returnsIff _).bind
    intro _ _
    exact (pack_returnsIff _).map
  · simp only [AllInRange, and_true]
    constructor
    · intro ⟨hname, ⟨htype, _⟩, hinstance⟩
      exact ⟨Nat.le_of_not_lt hname, htype, hinstance⟩
    · intro h
      exact ⟨Nat.not_lt_of_le h.name, ⟨h.idType, (inRange_byte_iff _).mpr h.name⟩, h.instanceId⟩

/-- A {lit}`QoS` that its fields can hold. -/
structure QoS.Fits (q : QoS) : Prop where
  priorityClass : InRange false 1 q.priorityClass
  reliability : InRange false 1 q.reliability
  ordering : InRange false 1 q.ordering
  deliveryMode : InRange false 1 q.deliveryMode
  maxRetries : InRange false 4 q.maxRetries
  retryDelayMs : InRange false 4 q.retryDelayMs

/-- When a {lit}`QoS` is written. -/
theorem QoS.toBytes_returnsIff (q : QoS) : ReturnsIff q.toBytes q.Fits := by
  refine (pack_returnsIff _).congr ?_
  simp only [AllInRange, and_true]
  exact ⟨fun ⟨h₁, h₂, h₃, h₄, h₅, h₆⟩ => ⟨h₁, h₂, h₃, h₄, h₅, h₆⟩,
    fun ⟨h₁, h₂, h₃, h₄, h₅, h₆⟩ => ⟨h₁, h₂, h₃, h₄, h₅, h₆⟩⟩

/-- A {lit}`TraceEntry` that its fields can hold. -/
structure TraceEntry.Fits (e : TraceEntry) : Prop where
  actorType : InRange false 1 e.actorType
  actorName : e.actorName.length ≤ 255
  action : e.action.length ≤ 255
  timestampMs : InRange true 8 e.timestampMs
  durationUs : InRange true 4 e.durationUs

/-- When a {lit}`TraceEntry` is written. -/
theorem TraceEntry.toBytes_returnsIff (e : TraceEntry) : ReturnsIff e.toBytes e.Fits := by
  refine ((pack_returnsIff _).bind fun _ _ => (pack_returnsIff _).map).congr ?_
  simp only [AllInRange, and_true]
  constructor
  · intro ⟨⟨htype, hname, haction⟩, htime, hduration⟩
    exact ⟨htype, (inRange_byte_iff _).mp hname, (inRange_byte_iff _).mp haction, htime, hduration⟩
  · intro h
    exact ⟨⟨h.actorType, (inRange_byte_iff _).mpr h.actorName, (inRange_byte_iff _).mpr h.action⟩,
      h.timestampMs, h.durationUs⟩

/-- A {lit}`ChunkInfo` that its fields can hold. -/
structure ChunkInfo.Fits (c : ChunkInfo) : Prop where
  totalChunks : InRange false 1 c.totalChunks
  chunkIndex : InRange false 1 c.chunkIndex
  originalSize : InRange false 4 c.originalSize
  chunkOffset : InRange false 4 c.chunkOffset
  chunkSize : InRange false 4 c.chunkSize

/-- When a {lit}`ChunkInfo` is written. -/
theorem ChunkInfo.toBytes_returnsIff (c : ChunkInfo) : ReturnsIff c.toBytes c.Fits := by
  refine (pack_returnsIff _).congr ?_
  simp only [AllInRange, and_true]
  exact ⟨fun ⟨h₁, h₂, h₃, h₄, h₅⟩ => ⟨h₁, h₂, h₃, h₄, h₅⟩,
    fun ⟨h₁, h₂, h₃, h₄, h₅⟩ => ⟨h₁, h₂, h₃, h₄, h₅⟩⟩

/-- A {lit}`BlobRef` that its fields can hold. -/
structure BlobRef.Fits (br : BlobRef) : Prop where
  refType : InRange false 1 br.refType
  identifier : br.identifier.length ≤ 255
  size : InRange false 4 br.size
  offset : InRange false 4 br.offset

/-- When a {lit}`BlobRef` is written. -/
theorem BlobRef.toBytes_returnsIff (br : BlobRef) : ReturnsIff br.toBytes br.Fits := by
  have hhead : ∀ a b c, ReturnsIff (packNativeBBI a b c)
      (InRange false 1 a ∧ InRange false 1 b ∧ InRange false 4 c) := by
    intro a b c
    exact (packInt_returnsIff _ _ _).bind fun _ _ =>
      (packInt_returnsIff _ _ _).bind fun _ _ => (packInt_returnsIff _ _ _).map
  refine ((hhead _ _ _).bind fun _ _ => (pack_returnsIff _).map).congr ?_
  simp only [AllInRange, and_true]
  constructor
  · intro ⟨⟨htype, hname, hsize⟩, hoffset⟩
    exact ⟨htype, (inRange_byte_iff _).mp hname, hsize, hoffset⟩
  · intro h
    exact ⟨⟨h.refType, (inRange_byte_iff _).mpr h.identifier, h.size⟩, h.offset⟩

/-- A {lit}`Backpressure` that its fields can hold. -/
structure Backpressure.Fits (bp : Backpressure) : Prop where
  queueDepth : InRange false 4 bp.queueDepth
  maxQueue : InRange false 4 bp.maxQueue
  dropReason : InRange false 2 bp.dropReason
  retryAfterMs : InRange false 2 bp.retryAfterMs

/-- When a {lit}`Backpressure` is written. -/
theorem Backpressure.toBytes_returnsIff (bp : Backpressure) : ReturnsIff bp.toBytes bp.Fits := by
  refine (pack_returnsIff _).congr ?_
  simp only [AllInRange, and_true]
  exact ⟨fun ⟨h₁, h₂, h₃, h₄⟩ => ⟨h₁, h₂, h₃, h₄⟩, fun ⟨h₁, h₂, h₃, h₄⟩ => ⟨h₁, h₂, h₃, h₄⟩⟩

/-- An {lit}`ErrorInfo` that its fields can hold. -/
structure ErrorInfo.Fits (e : ErrorInfo) : Prop where
  errorCode : InRange false 2 e.errorCode
  severity : InRange false 2 e.severity
  message : e.message.length ≤ 255
  details : (e.details.getD .empty).length ≤ 65535

/-- When an {lit}`ErrorInfo` is written. -/
theorem ErrorInfo.toBytes_returnsIff (e : ErrorInfo) : ReturnsIff e.toBytes e.Fits := by
  refine ((pack_returnsIff _).bind fun _ _ => (pack_returnsIff _).map).congr ?_
  simp only [AllInRange, and_true]
  constructor
  · intro ⟨⟨hcode, hseverity, hmessage⟩, hdetails⟩
    exact ⟨hcode, hseverity, (inRange_byte_iff _).mp hmessage, (inRange_word_iff _).mp hdetails⟩
  · intro h
    exact ⟨⟨h.errorCode, h.severity, (inRange_byte_iff _).mpr h.message⟩,
      (inRange_word_iff _).mpr h.details⟩

/-- An {lit}`AckInfo` is written. -/
theorem AckInfo.toBytes_returnsIff (a : AckInfo) : ReturnsIff a.toBytes True :=
  (pack_returnsIff _).map.congr (iff_true_intro ⟨by decide, trivial⟩)

/-- A {lit}`ModelInvocation` that its fields can hold. -/
structure ModelInvocation.Fits (m : ModelInvocation) : Prop where
  modelName : m.modelName.length ≤ 255
  task : m.task.length ≤ 255
  parametersJson : m.parametersJson.length ≤ 255
  timeoutMs : InRange false 4 m.timeoutMs

/-- When a {lit}`ModelInvocation` is written. -/
theorem ModelInvocation.toBytes_returnsIff (m : ModelInvocation) :
    ReturnsIff m.toBytes m.Fits := by
  unfold ModelInvocation.toBytes
  apply Outcome.ReturnsIff.congr
  · apply (pack_returnsIff _).bind
    intro _ _
    exact (pack_returnsIff _).map
  simp only [AllInRange, and_true]
  constructor
  · intro ⟨⟨hname, htask, hparameters⟩, htimeout⟩
    exact ⟨(inRange_byte_iff _).mp hname, (inRange_byte_iff _).mp htask,
      (inRange_byte_iff _).mp hparameters, htimeout⟩
  · intro h
    exact ⟨⟨(inRange_byte_iff _).mpr h.modelName, (inRange_byte_iff _).mpr h.task,
      (inRange_byte_iff _).mpr h.parametersJson⟩, h.timeoutMs⟩

/-- A {lit}`ToolInvocation` that its fields can hold. -/
structure ToolInvocation.Fits (ti : ToolInvocation) : Prop where
  toolName : ti.toolName.length ≤ 255
  parametersJson : ti.parametersJson.length ≤ 255
  timeoutMs : InRange false 4 ti.timeoutMs

/-- When a {lit}`ToolInvocation` is written. -/
theorem ToolInvocation.toBytes_returnsIff (ti : ToolInvocation) :
    ReturnsIff ti.toBytes ti.Fits := by
  unfold ToolInvocation.toBytes
  apply Outcome.ReturnsIff.congr
  · apply (pack_returnsIff _).bind
    intro _ _
    exact (pack_returnsIff _).map
  simp only [AllInRange, and_true]
  constructor
  · intro ⟨⟨hname, hparameters⟩, htimeout⟩
    exact ⟨(inRange_byte_iff _).mp hname, (inRange_byte_iff _).mp hparameters, htimeout⟩
  · intro h
    exact ⟨⟨(inRange_byte_iff _).mpr h.toolName, (inRange_byte_iff _).mpr h.parametersJson⟩,
      h.timeoutMs⟩

/-- Metadata that their fields can hold. -/
def MetadataFits (items : List (Utf8String × Utf8String)) : Prop :=
  ∀ e ∈ items, e.1.length ≤ 255 ∧ e.2.length ≤ 65535

/-- When metadata are written. -/
theorem metadataToBytes_returnsIff (items : List (Utf8String × Utf8String)) :
    ReturnsIff (metadataToBytes items) (MetadataFits items) := by
  induction items with
  | nil => exact (Outcome.ReturnsIff.pure []).congr (by simp [MetadataFits])
  | cons e items ih =>
      rcases e with ⟨k, v⟩
      unfold metadataToBytes
      apply Outcome.ReturnsIff.congr
      · apply (pack_returnsIff _).bind
        intro _ _
        apply (pack_returnsIff _).bind
        intro _ _
        exact ih.map
      · rw [MetadataFits, MetadataFits, List.forall_mem_cons, and_assoc]
        simp only [AllInRange, and_true]
        exact and_congr (inRange_byte_iff _) (and_congr (inRange_word_iff _) Iff.rfl)

/-! ## Rich fields -/

section Steps

variable {α : Type} {tag : UInt8} {step : PyResult (List Symbol)}
  {steps : List (PyResult (List Symbol))} {C D : Prop}

/-- A field that is written under a condition. -/
theorem extIf_returnsIff {raw : PyResult Bytes} (c : Bool) (hraw : ReturnsIff raw C) :
    ReturnsIff (extIf c tag raw) (c = true → C) := by
  unfold extIf
  cases c with
  | true => exact hraw.map.congr (by simp)
  | false => exact (Outcome.ReturnsIff.pure []).congr (by simp)

/-- A field whose bytes are there. -/
theorem extIf_ok_returnsIff (c : Bool) (raw : Bytes) : ReturnsIff (extIf c tag (.ok raw)) True :=
  (extIf_returnsIff c (.ok trivial : ReturnsIff (.ok raw) True)).congr (by simp)

/-- A byte string that may be missing. -/
theorem extBytes_returnsIff (value : Option Bytes) : ReturnsIff (extBytes tag value) True :=
  extIf_ok_returnsIff _ _

variable {toBytes : α → PyResult Bytes} {P : α → Prop}

/-- A field that may be missing. -/
theorem extOption_returnsIff (h : ∀ a, ReturnsIff (toBytes a) (P a)) (field : Option α) :
    ReturnsIff (extOption tag toBytes field) (∀ a ∈ field, P a) := by
  cases field with
  | none => exact (Outcome.ReturnsIff.pure []).congr (by simp)
  | some a => exact (extIf_returnsIff true (h a)).congr (by simp)

/-- A list of fields. -/
theorem extEach_returnsIff (h : ∀ a, ReturnsIff (toBytes a) (P a)) (fields : List α) :
    ReturnsIff (extEach tag toBytes fields) (∀ a ∈ fields, P a) := by
  induction fields with
  | nil => exact (Outcome.ReturnsIff.pure []).congr (by simp)
  | cons a fields ih =>
      rw [List.forall_mem_cons]
      have hfirst : ReturnsIff (extIf true tag (toBytes a)) (P a) :=
        (extIf_returnsIff true (h a)).congr (by simp)
      exact hfirst.bind fun _ _ => ih.map

/-- One step before the others. -/
theorem appendAll_returnsIff (hstep : ReturnsIff step C) (hsteps : ReturnsIff (appendAll steps) D) :
    ReturnsIff (appendAll (step :: steps)) (C ∧ D) :=
  hstep.bind fun _ _ => hsteps.map

end Steps

/-- The rich fields of a packet are ones that can be written. -/
structure Packet.FieldsFit (p : Packet) : Prop where
  origin : ∀ o ∈ p.origin, o.Fits
  priority : InRange false 1 p.priority
  qos : ∀ q ∈ p.qos, q.Fits
  trace : ∀ e ∈ p.trace, e.Fits
  chunkInfo : ∀ c ∈ p.chunkInfo, c.Fits
  blobRefs : ∀ br ∈ p.blobRefs, br.Fits
  backpressure : ∀ bp ∈ p.backpressure, bp.Fits
  errorInfo : ∀ e ∈ p.errorInfo, e.Fits
  modelInvocation : ∀ m ∈ p.modelInvocation, m.Fits
  toolInvocation : ∀ ti ∈ p.toolInvocation, ti.Fits
  metadata : MetadataFits p.metadata

/-- When the rich fields of a packet are written, those of a packet without response
symbols. -/
theorem appendExtensions_returnsIff {p : Packet} (hresponse : p.responseSymbols = []) :
    ReturnsIff p.appendExtensions p.FieldsFit := by
  unfold Packet.appendExtensions
  rw [hresponse]
  apply Outcome.ReturnsIff.congr
  · refine appendAll_returnsIff (extBytes_returnsIff _) <|
      appendAll_returnsIff (extOption_returnsIff Identity.toBytes_returnsIff _) <|
      appendAll_returnsIff (extIf_ok_returnsIff _ _) <|
      appendAll_returnsIff (extBytes_returnsIff _) <|
      appendAll_returnsIff (extIf_ok_returnsIff _ []) <|
      appendAll_returnsIff (extIf_ok_returnsIff _ _) <|
      appendAll_returnsIff (extIf_returnsIff _ (pack_returnsIff _)) <|
      appendAll_returnsIff (extIf_ok_returnsIff _ _) <|
      appendAll_returnsIff (extOption_returnsIff QoS.toBytes_returnsIff _) <|
      appendAll_returnsIff (extBytes_returnsIff _) <|
      appendAll_returnsIff (extEach_returnsIff TraceEntry.toBytes_returnsIff _) <|
      appendAll_returnsIff (extOption_returnsIff ChunkInfo.toBytes_returnsIff _) <|
      appendAll_returnsIff (extEach_returnsIff BlobRef.toBytes_returnsIff _) <|
      appendAll_returnsIff (extOption_returnsIff Backpressure.toBytes_returnsIff _) <|
      appendAll_returnsIff (extOption_returnsIff ErrorInfo.toBytes_returnsIff _) <|
      appendAll_returnsIff (extOption_returnsIff AckInfo.toBytes_returnsIff _) <|
      appendAll_returnsIff (extIf_ok_returnsIff _ _) <|
      appendAll_returnsIff (extBytes_returnsIff _) <|
      appendAll_returnsIff (extBytes_returnsIff _) <|
      appendAll_returnsIff (extBytes_returnsIff _) <|
      appendAll_returnsIff (extOption_returnsIff ModelInvocation.toBytes_returnsIff _) <|
      appendAll_returnsIff (extOption_returnsIff ToolInvocation.toBytes_returnsIff _) <|
      appendAll_returnsIff (extIf_returnsIff _ (metadataToBytes_returnsIff _)) <|
      Outcome.ReturnsIff.pure []
  · have hpriority : ((p.priority != 128) = true → AllInRange [(fmtB, p.priority)]) ↔
        InRange false 1 p.priority := by
      constructor
      · intro h
        by_cases hdefault : p.priority = 128
        · rw [hdefault]
          decide
        · exact (h (by simpa using hdefault)).1
      · intro h _
        exact ⟨h, trivial⟩
    have hmetadata : ((!p.metadata.isEmpty) = true → MetadataFits p.metadata) ↔
        MetadataFits p.metadata := by
      cases p.metadata with
      | nil => exact iff_of_true (by simp) (by simp [MetadataFits])
      | cons e items => simp
    simp only [hpriority, hmetadata, true_and, and_true, implies_true]
    constructor
    · intro ⟨origin, priority, qos, trace, chunkInfo, blobRefs, backpressure, errorInfo,
        modelInvocation, toolInvocation, metadata⟩
      exact ⟨origin, priority, qos, trace, chunkInfo, blobRefs, backpressure, errorInfo,
        modelInvocation, toolInvocation, metadata⟩
    · intro h
      exact ⟨h.origin, h.priority, h.qos, h.trace, h.chunkInfo, h.blobRefs, h.backpressure,
        h.errorInfo, h.modelInvocation, h.toolInvocation, h.metadata⟩

/-! ## Payloads and frames -/

/-- Operands are written in two parts. -/
theorem encodeItems_append_returnsIff {ss ss' : List Symbol} {C D : Prop}
    (h : ReturnsIff (encodeItems ss) C) (h' : ReturnsIff (encodeItems ss') D) :
    ReturnsIff (encodeItems (ss ++ ss')) (C ∧ D) := by
  have happend : encodeItems (ss ++ ss') =
      encodeItems ss >>= fun raw => encodeItems ss' >>= fun rest => .ok (raw ++ rest) := by
    clear h
    induction ss with
    | nil =>
        rw [List.nil_append, encodeItems]
        cases encodeItems ss' <;> rfl
    | cons s ss ih =>
        rw [List.cons_append, encodeItems, ih, encodeItems]
        simp only [Outcome.bind_assoc, Outcome.ok_bind, Outcome.pure_eq, List.append_assoc]
  rw [happend]
  exact h.bind fun _ _ => h'.map

/-- Operands that are each written. -/
theorem encodeItems_returnsIff_of_forall {ss : List Symbol}
    (h : ∀ s ∈ ss, ∃ b, encodeSymbol s = .ok b) : ReturnsIff (encodeItems ss) True := by
  induction ss with
  | nil => exact Outcome.ReturnsIff.pure []
  | cons s ss ih =>
      have ⟨⟨b, hb⟩, hss⟩ := List.forall_mem_cons.mp h
      rw [encodeItems, hb, Outcome.ok_bind]
      exact (ih hss).map

/-- A vendor operand is written. -/
theorem IsExtension.encodeSymbol_returns {s : Symbol} (h : IsExtension s) :
    ∃ b, encodeSymbol s = .ok b := by
  have ⟨tag, data, heq, htag⟩ := h
  refine ⟨tag :: (Leb128.emit 4 data.length ++ data), ?_⟩
  rw [heq, encodeSymbol, if_pos ((isVendor_iff tag).mpr htag), encodeCounted_eq]
  rfl

/-- When the payload of a packet without response symbols is written. -/
theorem buildPayload_returnsIff {p : Packet} {C : Prop} (hresponse : p.responseSymbols = [])
    (hsymbols : ReturnsIff (encodeItems p.symbols) C) :
    ReturnsIff p.buildPayload (p.FieldsFit ∧ C) := by
  unfold Packet.buildPayload
  apply (appendExtensions_returnsIff hresponse).bind
  intro exts hexts
  have hvendor := encodeItems_returnsIff_of_forall fun s hs =>
    (appendExtensions_vendor p exts hexts s hs).encodeSymbol_returns
  dsimp only
  rw [encodeVarint_length, Outcome.ok_bind]
  exact ((encodeItems_append_returnsIff hsymbols hvendor).congr (and_iff_left trivial)).map

/-- A check that raises an exception of the package. -/
theorem staysInPackage_raiseIf {c : Prop} [Decidable c] {cls : AiclBinError} {message : String} :
    StaysInPackage (raiseIf c cls message) := by
  unfold raiseIf Outcome.failIf
  split
  · exact staysInPackage_err_iff.mpr ⟨cls, message, rfl⟩
  · exact staysInPackage_ok ()

/-- The header of a packet is written or refused with an exception of the package, when
its flags are in the range of their field and its deadline is not negative. -/
theorem packHeader_staysInPackage (crc32 : Bytes → UInt32) {p : Packet} {flags : Int} (n : Nat)
    (hversion : p.version ∈ supportedVersions) (hflags : InRange false 2 flags)
    (hdeadline : 0 ≤ p.deadlineMs) :
    StaysInPackage
      (packHeader crc32 p.version flags p.messageId p.correlationId p.deadlineMs n) := by
  by_cases hfits : n < 2 ^ 32 ∧ InRange false 4 p.deadlineMs
  · have ⟨header, hheader⟩ := packHeader_returns crc32 hversion hflags hfits.2 hfits.1
    rw [hheader]
    exact staysInPackage_ok header
  · unfold packHeader
    refine staysInPackage_bind_iff.mpr ⟨staysInPackage_raiseIf, fun _ _ => ?_⟩
    refine staysInPackage_bind_iff.mpr ⟨staysInPackage_raiseIf, fun _ _ => ?_⟩
    refine staysInPackage_bind_iff.mpr ⟨staysInPackage_raiseIf, fun _ _ => ?_⟩
    refine staysInPackage_bind_iff.mpr ⟨staysInPackage_raiseIf, fun _ hlength => ?_⟩
    refine staysInPackage_bind_iff.mpr ⟨staysInPackage_raiseIf, fun _ hlate => ?_⟩
    have hlength := Outcome.failIf_eq_ok_iff.mp hlength
    have hlate := Outcome.failIf_eq_ok_iff.mp hlate
    exact absurd ⟨by omega, hdeadline, by norm_num; omega⟩ hfits

/-- Encoding a packet returns or raises an exception of the package exactly when its
payload is written. -/
theorem encode_staysInPackage_iff (crc32 : Bytes → UInt32) {p : Packet} {checksum : Bool}
    {C : Prop} (hpayload : ReturnsIff p.buildPayload C) (hversion : p.version ∈ supportedVersions)
    (hflags : InRange false 2 (wireFlags p checksum)) (hdeadline : 0 ≤ p.deadlineMs) :
    StaysInPackage (encode crc32 p checksum) ↔ C := by
  unfold encode
  rw [staysInPackage_bind_iff, hpayload.staysInPackage_iff]
  refine and_iff_left fun payload _ => ?_
  exact staysInPackage_map_iff.mpr
    (packHeader_staysInPackage crc32 payload.length hversion hflags hdeadline)

end Aicl.Bin
